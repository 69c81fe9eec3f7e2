import Clausal.Proofs.Journal.Reports
import Clausal.Proofs.NormalForm.Clauses
import Clausal.Proofs.Text.Parsed

/-!
How many operands the conversion leaves, and which variables.

Implications become connectives of two operands, De Morgan's laws keep the number of operands, and
splicing makes a disjunction no narrower, unless it splices in an empty one. Distribution puts a
part of the conjunction in its place, so the new disjunctions are as wide as the old one. A variable
can only be lost where an empty conjunction is distributed. **Main result**: connectives of at least
two operands remain so through every pass, and therefore what is parsed and converted can be
rendered and parsed again.
-/

namespace Clausal

namespace Formula

/-- If every connective of `e` has at least `n` operands, those of `f` have too, and no variable of
`e` is lost. -/
def Retains (n : Nat) (f e : Formula) : Prop :=
  e.MinArity n → f.MinArity n ∧ e.occurrences ⊆ f.occurrences

variable {n : Nat}

lemma retains_list {es fs : List Formula} (h : List.Forall₂ (fun e f => Retains n f e) es fs)
    (hes : ∀ e ∈ es, e.MinArity n) :
    (∀ f ∈ fs, f.MinArity n) ∧ es.flatMap occurrences ⊆ fs.flatMap occurrences := by
  induction h with
  | nil => simp
  | cons hef _ ih =>
    rw [List.forall_mem_cons] at hes
    obtain ⟨hf, hsub⟩ := hef hes.1
    obtain ⟨hfs, hsubs⟩ := ih hes.2
    refine ⟨List.forall_mem_cons.2 ⟨hf, hfs⟩, fun x hx => ?_⟩
    rw [List.flatMap_cons, List.mem_append] at hx ⊢
    exact hx.imp (fun hx => hsub hx) fun hx => hsubs hx

lemma length_le_flattenDisjuncts {es : List Formula} (h : ∀ e ∈ es, e.MinArity 1) :
    es.length ≤ (flattenDisjuncts es).length := by
  induction es using flattenDisjuncts_induction with
  | nil => simp
  | disj es rest ih =>
    rw [List.forall_mem_cons, minArity_disj] at h
    obtain ⟨⟨hne, hes⟩, hrest⟩ := h
    have hle := ih (List.forall_mem_append.2 ⟨hes, hrest⟩)
    rw [List.length_append] at hle
    rw [flattenDisjuncts_disj, List.length_cons]
    omega
  | cons e rest he ih =>
    rw [List.forall_mem_cons] at h
    have hle := ih h.2
    rw [flattenDisjuncts_cons he, List.length_cons, List.length_cons]
    omega

lemma flattenDisjuncts_retains (hn : 1 ≤ n) (es : List Formula) :
    Retains n (disj (flattenDisjuncts es)) (disj es) := by
  intro h
  obtain ⟨hlength, hes⟩ := minArity_disj.1 h
  have hle := length_le_flattenDisjuncts fun e he => (hes e he).mono hn
  refine ⟨minArity_disj.2 ⟨hlength.trans hle, every_flattenDisjuncts hes⟩, ?_⟩
  rw [occurrences_disj, occurrences_disj, occurrences_flattenDisjuncts]
  exact fun _ hx => hx

end Formula

namespace NormalForm

open Formula

variable {n : Nat}

/-! ### The rules keep the arity and the variables -/

/-- The new disjunctions are as wide as the old one, and each of them has all the other disjuncts;
only if the conjunction is empty there is none. -/
lemma distribute_retains (hn : 1 ≤ n) (flat : List Formula) :
    Retains n (Distribution.distribute flat) (.disj flat) := by
  intro h
  rcases distribute_cases flat with ⟨before, parts, after, rfl, hd⟩ | ⟨-, hd⟩
  · obtain ⟨hlength, hflat⟩ := minArity_disj.1 h
    rw [List.forall_mem_append, List.forall_mem_cons, minArity_conj] at hflat
    obtain ⟨hbefore, ⟨hparts, hpart⟩, hafter⟩ := hflat
    rw [hd]
    refine ⟨minArity_conj.2 ⟨by rwa [List.length_map], fun c hc => ?_⟩, fun x hx => ?_⟩
    · obtain ⟨p, hp, rfl⟩ := List.mem_map.1 hc
      refine minArity_disj.2 ⟨?_, ?_⟩
      · simp only [List.length_append, List.length_cons] at hlength ⊢
        omega
      · rw [List.forall_mem_cons, List.forall_mem_append]
        exact ⟨hpart p hp, hbefore, hafter⟩
    · -- a variable of a part stands in the disjunction of the part, any other in all of them
      obtain ⟨first, hfirst⟩ := List.exists_mem_of_length_pos (hn.trans hparts)
      simp only [occurrences_conj, occurrences_disj, List.flatMap_map, List.flatMap_cons,
        List.flatMap_append, List.mem_flatMap, List.mem_append] at hx ⊢
      rcases hx with hx | ⟨p, hp, hx⟩ | hx
      · exact ⟨first, hfirst, .inr (.inl hx)⟩
      · exact ⟨p, hp, .inl hx⟩
      · exact ⟨first, hfirst, .inr (.inr hx)⟩
  · rw [hd]
    exact ⟨h, fun _ hx => hx⟩

lemma congruence_retains : Congruence (Retains n) where
  refl e h := ⟨h, fun _ hx => hx⟩
  trans hfg hge h := by
    obtain ⟨hg, hsub⟩ := hge h
    obtain ⟨hf, hsub'⟩ := hfg hg
    exact ⟨hf, fun _ hx => hsub' (hsub hx)⟩
  conj hes h := by
    obtain ⟨hlength, harity⟩ := minArity_conj.1 h
    obtain ⟨hfs, hsub⟩ := retains_list hes harity
    exact ⟨minArity_conj.2 ⟨hes.length_eq ▸ hlength, hfs⟩, by simpa using hsub⟩
  disj hes h := by
    obtain ⟨hlength, harity⟩ := minArity_disj.1 h
    obtain ⟨hfs, hsub⟩ := retains_list hes harity
    exact ⟨minArity_disj.2 ⟨hes.length_eq ▸ hlength, hfs⟩, by simpa using hsub⟩

lemma implications_retains (hn : n ≤ 2) : Implications.Rules (Retains n) where
  toCongruence := congruence_retains
  neg hef h := by simpa using hef (minArity_neg.1 h)
  imp a b h := by
    refine ⟨minArity_disj.2 ⟨hn, ?_⟩, by simp⟩
    simpa using minArity_imp.1 h
  iff a b h := by
    obtain ⟨ha, hb⟩ := minArity_iff.1 h
    refine ⟨minArity_conj.2 ⟨hn, ?_⟩, by simp⟩
    simpa using ⟨⟨ha, hb⟩, hb, ha⟩

lemma negations_retains : Negations.Rules (Retains n) where
  toCongruence := congruence_retains
  negConst b h := by simp
  negNeg e h := by simpa using h
  negConj es h := by simpa [List.flatMap_map] using h
  negDisj es h := by simpa [List.flatMap_map] using h

lemma distribution_retains (hn : 1 ≤ n) : Distribution.Rules (Retains n) where
  toCongruence := congruence_retains
  flatten := flattenDisjuncts_retains hn
  distribute := distribute_retains hn

/-- The conversion keeps any arity that an implication may be given, and with it the variables. -/
lemma toCnf_retains (hone : 1 ≤ n) (htwo : n ≤ 2) (e : Formula) :
    ∃ c, toCnf e = .ok c ∧ c.StandsFor e ∧ Retains n c e := by
  obtain ⟨c, hc, -, hstands⟩ := toCnf_standsFor e
  obtain ⟨c', hc', -, hretains⟩ :=
    toCnf_total (implications_retains htwo) negations_retains (distribution_retains hone) e
  obtain rfl : c = c' := Except.ok.inj (hc.symm.trans hc')
  exact ⟨c, hc, hstands, hretains⟩

/-! ### What is parsed and converted -/

/-- The normal form of a parsed formula is read back from its text: it has no wrappers, and no
other names than the formula. -/
lemma parse_render_toCnf {text : String} {e : Formula} (h : Text.parse text = .ok e) :
    ∃ c, toCnf e = .ok c ∧ Text.parse c.render = .ok c := by
  obtain ⟨c, hc, hstands, hretains⟩ := toCnf_retains (n := 2) (by omega) (by omega) e
  have harity : c.MinArity 2 := (hretains (Text.parsed_of_parse h).minArity).1
  have hnames : ∀ x ∈ c.occurrences, Text.IsName x := fun x hx =>
    Text.isName_of_parse h x (hstands.occurrences_subset hx)
  exact ⟨c, hc, Text.parse_render_of_minArity hnames harity⟩

/-- **No pass makes a connective of fewer than two operands**, unless it is given one, and neither
does the conversion. So the normal form of a text can be rendered and parsed again. -/
theorem minArity_passes :
    (∀ e : Formula, e.MinArity 2 →
      (∃ v, eliminateImplications e = .ok v ∧ v.MinArity 2) ∧
      (e.Plain → ∃ v, pushNegations e = .ok v ∧ v.MinArity 2) ∧
      (e.Nnf → ∃ v, distributeOrOverAnd e = .ok v ∧ v.MinArity 2) ∧
      ∃ v, toCnf e = .ok v ∧ v.MinArity 2) ∧
    ∀ (text : String) (e : Formula), Text.parse text = .ok e →
      ∃ c, (∀ j : Journal, ((Report.parseToCnf text).run j).1 = .ok c) ∧
        Text.parse c.render = .ok c := by
  refine ⟨fun e h => ⟨?_, fun hplain => ?_, fun hnnf => ?_, ?_⟩, fun text e h => ?_⟩
  · obtain ⟨v, hv, -, hretains⟩ := (implications_retains (n := 2) (by omega)).total e
    exact ⟨v, hv, (hretains h).1⟩
  · obtain ⟨v, hv, -, hretains⟩ := (negations_retains (n := 2)).total hplain
    exact ⟨v, hv, (hretains h).1⟩
  · obtain ⟨v, hv, -, hretains⟩ := (distribution_retains (n := 2) (by omega)).total hnnf
    exact ⟨v, hv, (hretains h).1⟩
  · obtain ⟨v, hv, -, hretains⟩ := toCnf_retains (n := 2) (by omega) (by omega) e
    exact ⟨v, hv, (hretains h).1⟩
  · obtain ⟨c, hc, hparse⟩ := parse_render_toCnf h
    refine ⟨c, fun j => ?_, hparse⟩
    rw [(Report.returns_parseToCnf text).run_fst, h]
    show (toCnf e).mapError Failure.fault = .ok c
    rw [hc]
    rfl

/-- An equivalence on which all passes have work to do, and a negation normal form with a
disjunction to splice in. -/
theorem minArity_passes_equivalence :
    let text := "!(p | q) <-> r & s"
    let e : Formula :=
      .iff (.neg (.disj [.var "p", .var "q"])) (.conj [.var "r", .var "s"])
    let f : Formula := .disj [.conj [.var "p", .var "q"], .disj [.neg (.var "r"), .var "s"]]
    (e.MinArity 2 ∧ (∃ v, eliminateImplications e = .ok v ∧ v.MinArity 2) ∧
      ∃ v, toCnf e = .ok v ∧ v.MinArity 2) ∧
    (f.MinArity 2 ∧ f.Plain ∧ f.Nnf ∧ (∃ v, pushNegations f = .ok v ∧ v.MinArity 2) ∧
      ∃ v, distributeOrOverAnd f = .ok v ∧ v.MinArity 2) ∧
    (Text.parse text = .ok e ∧
      ∃ c, (∀ j : Journal, ((Report.parseToCnf text).run j).1 = .ok c) ∧
        Text.parse c.render = .ok c) := by
  intro text e f
  have he : e.MinArity 2 := by decide
  have hf : f.MinArity 2 := by decide
  have hplain : f.Plain := by decide
  have hnnf : f.Nnf := by decide
  have hparse : Text.parse text = .ok e := by decide +kernel
  obtain ⟨helim, -, -, hcnf⟩ := minArity_passes.1 e he
  obtain ⟨-, hpush, hdist, -⟩ := minArity_passes.1 f hf
  exact ⟨⟨he, helim, hcnf⟩, ⟨hf, hplain, hnnf, hpush hplain, hdist hnnf⟩, hparse,
    minArity_passes.2 text e hparse⟩

end NormalForm

end Clausal
