import Clausal.NormalForm.Conversion
import Clausal.Proofs.NormalForm.Equivalence
import Mathlib.Data.List.TakeWhile

/-!
Distribution, and the conversion as a whole.

Splicing nested disjunctions keeps truth and variables, and so does distributing one conjunction
over the other disjuncts. Literals are returned as they are, which is why a disjunction of literals
stays a clause. **Main results**: distribution turns a negation normal form into a conjunction of
clauses, related to it by whatever relates both sides of the two steps; and the conversion of any
formula is a conjunction of clauses that evaluates alike.
-/

namespace Clausal

namespace Formula

/-! ### Splicing nested disjunctions -/

lemma kind_ne_disj {e : Formula} (h : ∀ es, e ≠ disj es) : e.kind ≠ .disj := by
  cases e with
  | disj es => exact absurd rfl (h es)
  | _ => simp [kind]

lemma flattenDisjuncts_induction {motive : List Formula → Prop} (nil : motive [])
    (disj : ∀ es rest, motive (es ++ rest) → motive (.disj es :: rest))
    (cons : ∀ e rest, e.kind ≠ .disj → motive rest → motive (e :: rest)) (es : List Formula) :
    motive es :=
  flattenFrom.induct (motive := fun es _ => motive es) (fun _ => nil)
    (fun es rest _ ih => disj es rest ih)
    (fun e rest _ he ih => cons e rest (kind_ne_disj he) ih) es []

lemma any_truth_flattenDisjuncts (w : String → Bool) (es : List Formula) :
    (flattenDisjuncts es).any (truth w) = es.any (truth w) := by
  induction es using flattenDisjuncts_induction with
  | nil => simp
  | disj es rest ih => rw [flattenDisjuncts_disj, ih, List.any_append, List.any_cons, truth_disj]
  | cons e rest he ih => rw [flattenDisjuncts_cons he, List.any_cons, List.any_cons, ih]

lemma occurrences_flattenDisjuncts (es : List Formula) :
    (flattenDisjuncts es).flatMap occurrences = es.flatMap occurrences := by
  induction es using flattenDisjuncts_induction with
  | nil => simp
  | disj es rest ih => rw [flattenDisjuncts_disj, ih, List.flatMap_append, List.flatMap_cons,
      occurrences_disj]
  | cons e rest he ih => rw [flattenDisjuncts_cons he, List.flatMap_cons, List.flatMap_cons, ih]

lemma kind_of_mem_flattenDisjuncts {es : List Formula} :
    ∀ f ∈ flattenDisjuncts es, f.kind ≠ .disj := by
  induction es using flattenDisjuncts_induction with
  | nil => simp
  | disj es rest ih => rwa [flattenDisjuncts_disj]
  | cons e rest he ih =>
    rw [flattenDisjuncts_cons he, List.forall_mem_cons]
    exact ⟨he, ih⟩

lemma flattenDisjuncts_of_kind_ne {es : List Formula} (h : ∀ e ∈ es, e.kind ≠ .disj) :
    flattenDisjuncts es = es := by
  induction es with
  | nil => exact flattenDisjuncts_nil
  | cons e es ih =>
    rw [List.forall_mem_cons] at h
    rw [flattenDisjuncts_cons h.1, ih h.2]

lemma every_flattenDisjuncts {P : Formula → Prop} {es : List Formula} (h : ∀ e ∈ es, e.Every P) :
    ∀ f ∈ flattenDisjuncts es, f.Every P := by
  induction es using flattenDisjuncts_induction with
  | nil => simp
  | disj es rest ih =>
    rw [List.forall_mem_cons] at h
    obtain ⟨hes, hrest⟩ := h
    rw [flattenDisjuncts_disj]
    exact ih (List.forall_mem_append.2 ⟨fun e he => hes.operand he, hrest⟩)
  | cons e rest he ih =>
    rw [List.forall_mem_cons] at h
    obtain ⟨hroot, hrest⟩ := h
    rw [flattenDisjuncts_cons he, List.forall_mem_cons]
    exact ⟨hroot, ih hrest⟩

lemma flattenDisjuncts_standsFor (es : List Formula) :
    (disj (flattenDisjuncts es)).StandsFor (disj es) where
  truth_eq w := by rw [truth_disj, truth_disj, any_truth_flattenDisjuncts]
  occurrences_subset := by
    rw [occurrences_disj, occurrences_disj, occurrences_flattenDisjuncts]
    exact fun _ hx => hx

lemma isLiteral_of_nnf {e : Formula} (h : e.Nnf) (hc : e.kind ≠ .conj) (hd : e.kind ≠ .disj) :
    e.isLiteral := by
  cases e with
  | const b => rfl
  | var x => rfl
  | neg e => exact h.root.2.2 rfl
  | conj es => exact absurd rfl hc
  | disj es => exact absurd rfl hd
  | imp a b => exact absurd h (not_nnf_imp a b)
  | iff a b => exact absurd h (not_nnf_iff a b)

end Formula

namespace NormalForm

open Engine Formula

/-! ### Distributing one conjunction -/

/-- Either the first conjunction is distributed over the other disjuncts, or there is none. -/
lemma distribute_cases (flat : List Formula) :
    (∃ before parts after, flat = before ++ .conj parts :: after ∧
      Distribution.distribute flat = .conj (parts.map fun p => .disj (p :: (before ++ after)))) ∨
    ((∀ e ∈ flat, e.kind ≠ .conj) ∧ Distribution.distribute flat = .disj flat) := by
  have hsplit := List.takeWhile_append_dropWhile (p := fun e => !e.isConj) (l := flat)
  unfold Distribution.distribute
  split
  · next parts after hdrop =>
    rw [hdrop] at hsplit
    exact .inl ⟨_, parts, after, hsplit.symm, rfl⟩
  · next hnone =>
    refine .inr ⟨fun e he hk => ?_, rfl⟩
    -- a conjunction in the list would be the head of what is dropped, or lie behind it
    rcases hdrop : flat.dropWhile (fun e => !e.isConj) with _ | ⟨d, rest⟩
    · have hall := List.dropWhile_eq_nil_iff.1 hdrop e he
      cases e <;> simp_all [isConj, kind]
    · have hd : d.isConj = true := by
        have := List.head?_dropWhile_not (fun e : Formula => !e.isConj) flat
        simpa [hdrop] using this
      cases d with
      | conj parts => exact hnone parts rest hdrop
      | _ => simp [isConj] at hd

lemma distribute_standsFor (flat : List Formula) :
    (Distribution.distribute flat).StandsFor (.disj flat) := by
  rcases distribute_cases flat with ⟨before, parts, after, rfl, hd⟩ | ⟨-, hd⟩
  · rw [hd]
    refine ⟨fun w => ?_, fun x hx => ?_⟩
    · have hor : ∀ b : Bool, (parts.all fun p => p.truth w || b) = (parts.all (truth w) || b) := by
        intro b
        cases b <;> simp
      simp only [truth_conj, truth_disj, List.all_map, List.any_append, List.any_cons,
        Function.comp_def, hor]
      ac_rfl
    · simp only [occurrences_conj, occurrences_disj, List.flatMap_map, List.flatMap_cons,
        List.flatMap_append, List.mem_flatMap, List.mem_append] at hx ⊢
      obtain ⟨p, hp, hx⟩ := hx
      rcases hx with hx | hx | hx
      · exact .inr (.inl ⟨p, hp, hx⟩)
      · exact .inl hx
      · exact .inr (.inr hx)
  · rw [hd]
    exact .refl _

/-- What holds of all subformulas of the disjuncts, and of disjunctions, holds of all that they are
distributed to. -/
lemma distribute_every {P : Formula → Prop} (hP : ∀ es, P (.disj es)) {flat : List Formula}
    (h : ∀ f ∈ flat, f.Every P) : ∀ c ∈ (Distribution.distribute flat).operands, c.Every P := by
  rcases distribute_cases flat with ⟨before, parts, after, rfl, hd⟩ | ⟨-, hd⟩
  · rw [hd]
    simp only [List.forall_mem_append, List.forall_mem_cons] at h
    obtain ⟨hbefore, hconj, hafter⟩ := h
    intro c hc
    obtain ⟨p, hp, rfl⟩ := List.mem_map.1 hc
    refine every_iff.2 ⟨hP _, ?_⟩
    rw [operands, List.forall_mem_cons, List.forall_mem_append]
    exact ⟨hconj.operand hp, hbefore, hafter⟩
  · rw [hd]
    exact h

lemma distribute_nnf {flat : List Formula} (h : ∀ f ∈ flat, f.Nnf) :
    ∀ c ∈ (Distribution.distribute flat).operands, c.Nnf :=
  distribute_every (by simp [kind]) h

lemma distribute_plain {flat : List Formula} (h : ∀ f ∈ flat, f.Plain) :
    ∀ c ∈ (Distribution.distribute flat).operands, c.Plain :=
  distribute_every (by simp [kind]) h

/-! ### What a plan refuses, and what it visits -/

/-- A plan refuses an implication or equivalence under the name of the pass, and a negated one under
the name that all plans for negations give. -/
lemma Distribution.plan_error_cases {e : Formula} {f : Fault} (h : plan e = .error f) :
    (e.kind = .imp ∨ e.kind = .iff) ∧ f = .unexpectedKind e.kind site ∨
    ∃ d, e = .neg d ∧ (d.kind = .imp ∨ d.kind = .iff) ∧
      f = .unexpectedKind d.kind Negations.site := by
  cases e with
  | imp a b => cases h; exact .inl ⟨.inl rfl, rfl⟩
  | iff a b => cases h; exact .inl ⟨.inr rfl, rfl⟩
  | neg d =>
    refine .inr ⟨d, rfl, ?_⟩
    cases d with
    | imp a b => cases h; exact ⟨.inl rfl, rfl⟩
    | iff a b => cases h; exact ⟨.inr rfl, rfl⟩
    | _ => cases h
  | _ => cases h

/-- A child of a plan is what stands under two negations, a negated operand by De Morgan's laws, an
operand of a conjunction, or what a disjunction is distributed to. -/
lemma Distribution.plan_child_cases {e c : Formula} {p : Plan Formula} (h : plan e = .ok p)
    (hc : c ∈ p.children) :
    e = .neg (.neg c) ∨
    (∃ d, e = .neg d ∧ (d.kind = .conj ∨ d.kind = .disj) ∧ ∃ b ∈ d.operands, c = .neg b) ∨
    (∃ es, e = .conj es ∧ c ∈ es) ∨
    ∃ es, e = .disj es ∧ c ∈ (distribute (flattenDisjuncts es)).operands := by
  cases e with
  | const b => cases h; cases hc
  | var x => cases h; cases hc
  | neg d =>
    cases d with
    | const b => cases h; cases hc
    | var x => cases h; cases hc
    | neg e =>
      cases h
      rw [List.mem_singleton.1 hc]
      exact .inl rfl
    | conj es =>
      cases h
      obtain ⟨b, hb, rfl⟩ := List.mem_map.1 hc
      exact .inr (.inl ⟨_, rfl, .inl rfl, b, hb, rfl⟩)
    | disj es =>
      cases h
      obtain ⟨b, hb, rfl⟩ := List.mem_map.1 hc
      exact .inr (.inl ⟨_, rfl, .inr rfl, b, hb, rfl⟩)
    | imp a b => cases h
    | iff a b => cases h
  | conj es => cases h; exact .inr (.inr (.inl ⟨es, rfl, hc⟩))
  | disj es => cases h; exact .inr (.inr (.inr ⟨es, rfl, hc⟩))
  | imp a b => cases h
  | iff a b => cases h

/-! ### Distribution on the engine -/

structure Distribution.Rules (R : Formula → Formula → Prop) : Prop extends Congruence R where
  flatten : ∀ es, R (.disj (flattenDisjuncts es)) (.disj es)
  distribute : ∀ flat, R (Distribution.distribute flat) (.disj flat)

variable {R : Formula → Formula → Prop}

/-- What distribution makes of a formula: clauses that are related to it, a literal unchanged. -/
def Distributed (R : Formula → Formula → Prop) (e v : Formula) : Prop :=
  v.isCnf ∧ R v e ∧ (e.isLiteral → v = e)

lemma distributed_of_isLiteral {e : Formula} (he : R e e) (h : e.isLiteral) :
    Distributed R e e := by
  have hk : e.kind ≠ .conj := by cases e <;> simp_all [isLiteral, kind]
  refine ⟨?_, he, fun _ => rfl⟩
  rw [isCnf_of_ne_conj hk]
  cases e <;> simp_all [isClause, isLiteral]

lemma eq_of_distributed {cs vs : List Formula} (h : List.Forall₂ (Distributed R) cs vs)
    (hlit : ∀ c ∈ cs, c.isLiteral) : vs = cs := by
  induction h with
  | nil => rfl
  | cons hcv _ ih =>
    rw [List.forall_mem_cons] at hlit
    rw [hcv.2.2 hlit.1, ih hlit.2]

namespace Distribution.Rules

variable (hR : Distribution.Rules R)
include hR

lemma distributed_conj {cs vs : List Formula} (h : List.Forall₂ (Distributed R) cs vs) :
    (Formula.conj vs).isCnf ∧ R (.conj vs) (.conj cs) := by
  refine ⟨?_, hR.conj (h.imp fun _ _ hcv => hcv.2.1)⟩
  rw [isCnf_conj, List.all_eq_true]
  exact ((List.forall₂_and_left _ _).1 h.flip).1

/-- The plan for a disjunction: distribute one conjunction, or be a clause. -/
lemma keeps {es : List Formula} (h : (Formula.disj es).Nnf) :
    (Plan.node (Distribution.distribute (flattenDisjuncts es))).Keeps
      (Structural.rebuildPlain Distribution.site) Nnf (Distributed R) (.disj es) := by
  have hflat : ∀ f ∈ flattenDisjuncts es, f.Nnf := every_flattenDisjuncts fun e he => h.operand he
  have hstep : R (Distribution.distribute (flattenDisjuncts es)) (.disj es) :=
    hR.trans (hR.distribute _) (hR.flatten es)
  refine ⟨distribute_nnf hflat, fun vs hvs => ?_⟩
  rcases distribute_cases (flattenDisjuncts es) with ⟨before, parts, after, -, hd⟩ | ⟨hnone, hd⟩
  · rw [hd] at hvs hstep ⊢
    obtain ⟨hcnf, hconj⟩ := hR.distributed_conj hvs
    exact ⟨.conj vs, rfl, hcnf, hR.trans hconj hstep, by simp [isLiteral]⟩
  · rw [hd] at hvs hstep ⊢
    -- no conjunction and no disjunction is left, so all disjuncts are literals
    have hlit : ∀ f ∈ flattenDisjuncts es, f.isLiteral := fun f hf =>
      isLiteral_of_nnf (hflat f hf) (hnone f hf) (kind_of_mem_flattenDisjuncts f hf)
    obtain rfl : vs = flattenDisjuncts es := eq_of_distributed hvs hlit
    refine ⟨.disj (flattenDisjuncts es), rfl, ?_, hstep, by simp [isLiteral]⟩
    rw [isCnf_of_ne_conj (by simp [kind]), isClause, List.all_eq_true]
    exact hlit

/-- **Distribution** turns a negation normal form into clauses, related to it by all that the two
steps are related by. -/
theorem total {e : Formula} (h : e.Nnf) :
    ∃ v, distributeOrOverAnd e = .ok v ∧ v.isCnf ∧ R v e := by
  suffices hdist : ∃ v, Distribution.fold.eval e = .ok v ∧ Distributed R e v by
    obtain ⟨v, hv, hcnf, hrel, -⟩ := hdist
    exact ⟨v, by rw [distributeOrOverAnd, Fold.apply_eq_eval, hv], hcnf, hrel⟩
  refine Fold.eval_total (D := Nnf) (P := Distributed R) (fun e he => ?_) h
  cases e with
  | const b => exact ⟨_, rfl, distributed_of_isLiteral (hR.refl _) rfl⟩
  | var x => exact ⟨_, rfl, distributed_of_isLiteral (hR.refl _) rfl⟩
  | neg e =>
    have hlit : (Formula.neg e).isLiteral := he.root.2.2 rfl
    cases e with
    | var x => exact ⟨_, rfl, distributed_of_isLiteral (hR.refl _) rfl⟩
    | _ => simp [isLiteral] at hlit
  | conj es =>
    refine ⟨_, rfl, fun c hc => he.operand hc, fun vs hvs => ?_⟩
    obtain ⟨hcnf, hconj⟩ := hR.distributed_conj hvs
    exact ⟨.conj vs, rfl, hcnf, hconj, by simp [isLiteral]⟩
  | disj es => exact ⟨_, rfl, hR.keeps he⟩
  | imp a b => exact absurd he (not_nnf_imp a b)
  | iff a b => exact absurd he (not_nnf_iff a b)

end Distribution.Rules

lemma distribution_standsFor : Distribution.Rules StandsFor where
  toCongruence := congruence_standsFor
  flatten := flattenDisjuncts_standsFor
  distribute := distribute_standsFor

/-! ### The conversion -/

lemma toCnf_eq_bind (e : Formula) :
    toCnf e = eliminateImplications e >>= pushNegations >>= distributeOrOverAnd := by
  simp [toCnf, pipe, Pass.all, Pass.apply]

/-- The conversion never fails. It returns clauses, related to the formula by all that the rules of
the three passes are related by. -/
lemma toCnf_total (hI : Implications.Rules R) (hN : Negations.Rules R) (hD : Distribution.Rules R)
    (e : Formula) : ∃ c, toCnf e = .ok c ∧ c.isCnf ∧ R c e := by
  obtain ⟨p, hp, hplain, hpe⟩ := hI.total e
  obtain ⟨n, hn, hnnf, hnp⟩ := hN.total hplain
  obtain ⟨c, hc, hcnf, hcn⟩ := hD.total hnnf
  refine ⟨c, ?_, hcnf, hI.trans hcn (hI.trans hnp hpe)⟩
  calc toCnf e = eliminateImplications e >>= pushNegations >>= distributeOrOverAnd :=
        toCnf_eq_bind e
    _ = pushNegations p >>= distributeOrOverAnd := by rw [hp]; rfl
    _ = distributeOrOverAnd n := by rw [hn]; rfl
    _ = .ok c := hc

lemma toCnf_standsFor (e : Formula) : ∃ c, toCnf e = .ok c ∧ c.isCnf ∧ c.StandsFor e :=
  toCnf_total implications_standsFor negations_standsFor distribution_standsFor e

/-- **The conversion is correct**: every formula has a conjunctive normal form, and both evaluate to
the truth of the formula wherever all variables of the formula have values. -/
theorem exists_toCnf_equivalent (e : Formula) :
    ∃ c, toCnf e = .ok c ∧ c.isCnf = true ∧
      ∀ v : Valuation, v.Covers e →
        e.evaluate v = .ok (e.truth v.total) ∧ c.evaluate v = .ok (e.truth v.total) := by
  obtain ⟨c, hc, hcnf, hstands⟩ := toCnf_standsFor e
  refine ⟨c, hc, hcnf, fun v hv => ⟨evaluate_eq_truth hv, ?_⟩⟩
  rw [hstands.evaluate_eq hv, evaluate_eq_truth hv]

/-- Connectives of no operand and of one, under a negated equivalence. -/
theorem exists_toCnf_equivalent_degenerate :
    let e : Formula := .neg (.iff (.disj []) (.conj [.imp (.var "p") (.conj [])]))
    let v : Valuation := fun x => if x = "p" then some true else none
    v.Covers e ∧ ∃ c, toCnf e = .ok c ∧ c.isCnf = true ∧
      e.evaluate v = .ok true ∧ c.evaluate v = .ok true := by
  intro e v
  have hv : v.Covers e := by
    intro x hx
    obtain rfl : x = "p" := by simpa [e] using hx
    rfl
  have htrue : e.truth v.total = true := by simp [e, v, Valuation.total]
  obtain ⟨c, hc, hcnf, hsame⟩ := exists_toCnf_equivalent e
  have hvalues := hsame v hv
  rw [htrue] at hvalues
  exact ⟨hv, c, hc, hcnf, hvalues⟩

end NormalForm

end Clausal
