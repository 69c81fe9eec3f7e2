import Clausal.Proofs.NormalForm.Refusals

/-!
The name under which a pass refuses a formula.

Both passes that refuse implications and equivalences plan for negations alike, and that plan gives
the name of pushing negations. De Morgan's laws and double negations do not change whether the
number of negations around a subformula is even, and neither step of distribution does. **Main
result**: pushing negations always gives its own name; distribution gives its own for an
implication or equivalence under an even number of negations, and the other one under an odd
number.
-/

namespace Clausal

namespace Formula

mutual

/-- The implications and equivalences in a formula, in reading order, each with whether the number
of negations around it is even, if `even` says so of those around the formula. -/
def binaries (even : Bool) : Formula → List (Bool × Formula)
  | const _ => []
  | var _ => []
  | neg e => binaries (!even) e
  | conj es => binariesAll even es
  | disj es => binariesAll even es
  | imp a b => (even, imp a b) :: (binaries even a ++ binaries even b)
  | iff a b => (even, iff a b) :: (binaries even a ++ binaries even b)

def binariesAll (even : Bool) : List Formula → List (Bool × Formula)
  | [] => []
  | e :: es => binaries even e ++ binariesAll even es

end

variable {even : Bool}

lemma binariesAll_eq (es : List Formula) : binariesAll even es = es.flatMap (binaries even) := by
  induction es with
  | nil => rfl
  | cons e es ih => rw [binariesAll, ih, List.flatMap_cons]

lemma binaries_subset_flatMap {e : Formula} {es : List Formula} (he : e ∈ es) :
    e.binaries even ⊆ es.flatMap (binaries even) :=
  fun _ hx => List.mem_flatMap.2 ⟨e, he, hx⟩

lemma binaries_conj (es : List Formula) :
    (conj es).binaries even = es.flatMap (binaries even) := by
  rw [binaries, binariesAll_eq]

lemma binaries_disj (es : List Formula) :
    (disj es).binaries even = es.flatMap (binaries even) := by
  rw [binaries, binariesAll_eq]

lemma binaries_of_kind {e : Formula} (h : e.kind = .conj ∨ e.kind = .disj) :
    e.binaries even = e.operands.flatMap (binaries even) := by
  cases e with
  | conj es => exact binaries_conj es
  | disj es => exact binaries_disj es
  | _ => simp [kind] at h

lemma mem_binaries_of_kind {e : Formula} (h : e.kind = .imp ∨ e.kind = .iff) :
    (even, e) ∈ e.binaries even := by
  cases e with
  | imp a b => exact List.mem_cons_self
  | iff a b => exact List.mem_cons_self
  | _ => simp [kind] at h

lemma map_snd_binaries (e : Formula) : (e.binaries even).map Prod.snd =
    e.subformulas.filter fun f => f.kind = .imp ∨ f.kind = .iff := by
  induction e generalizing even with
  | const b => rfl
  | var x => rfl
  | neg e ih => simp [binaries, subformulas, kind, ih]
  | conj es ih =>
    rw [binaries_conj, List.map_flatMap, List.flatMap_congr fun e he => ih e he]
    simp [subformulas, subformulasAll_eq, kind, List.filter_flatMap]
  | disj es ih =>
    rw [binaries_disj, List.map_flatMap, List.flatMap_congr fun e he => ih e he]
    simp [subformulas, subformulasAll_eq, kind, List.filter_flatMap]
  | imp a b iha ihb => simp [binaries, subformulas, kind, iha, ihb]
  | iff a b iha ihb => simp [binaries, subformulas, kind, iha, ihb]

lemma binaries_flattenDisjuncts (es : List Formula) :
    (flattenDisjuncts es).flatMap (binaries even) = es.flatMap (binaries even) := by
  induction es using flattenDisjuncts_induction with
  | nil => rw [flattenDisjuncts_nil]
  | disj es rest ih =>
    rw [flattenDisjuncts_disj, ih, List.flatMap_append, List.flatMap_cons, binaries_disj]
  | cons e rest he ih => rw [flattenDisjuncts_cons he, List.flatMap_cons, List.flatMap_cons, ih]

end Formula

namespace NormalForm

open Engine Formula

/-- Whatever is copied was there before. -/
lemma binaries_distribute {even : Bool} {flat : List Formula} {c : Formula}
    (hc : c ∈ (Distribution.distribute flat).operands) :
    c.binaries even ⊆ flat.flatMap (binaries even) := by
  rcases distribute_cases flat with ⟨before, parts, after, rfl, hd⟩ | ⟨-, hd⟩
  · rw [hd] at hc
    obtain ⟨p, hp, rfl⟩ := List.mem_map.1 hc
    have hpart : p.binaries even ⊆ (conj parts).binaries even := by
      rw [binaries_conj]
      exact binaries_subset_flatMap hp
    intro x hx
    rw [binaries_disj, List.flatMap_cons, List.flatMap_append, List.mem_append,
      List.mem_append] at hx
    rw [List.flatMap_append, List.flatMap_cons, List.mem_append, List.mem_append]
    rcases hx with hx | hx | hx
    · exact .inr (.inl (hpart hx))
    · exact .inl hx
    · exact .inr (.inr hx)
  · rw [hd] at hc
    exact binaries_subset_flatMap hc

/-- The children of a plan hold no other implications and equivalences than the formula, and each
of them under as many negations, or one pair less. -/
lemma binaries_child {e c : Formula} {p : Plan Formula} (h : Distribution.plan e = .ok p)
    (hc : c ∈ p.children) : c.binaries true ⊆ e.binaries true := by
  rcases Distribution.plan_child_cases h hc with
    rfl | ⟨d, rfl, hk, b, hb, rfl⟩ | ⟨es, rfl, hes⟩ | ⟨es, rfl, hes⟩
  · exact fun x hx => hx
  · rw [binaries, binaries, binaries_of_kind hk]
    exact binaries_subset_flatMap hb
  · rw [binaries_conj]
    exact binaries_subset_flatMap hes
  · rw [binaries_disj, ← binaries_flattenDisjuncts]
    exact binaries_distribute hes

lemma distributeOrOverAnd_error {e : Formula} {f : Fault} (h : distributeOrOverAnd e = .error f) :
    ∃ x ∈ e.binaries true,
      f = .unexpectedKind x.2.kind (if x.1 then Distribution.site else Negations.site) := by
  refine (Pass.fits .distribution).apply_error (P := fun e f => ∃ x ∈ e.binaries true,
    f = .unexpectedKind x.2.kind (if x.1 then Distribution.site else Negations.site)) ?_ ?_ h
  · intro e f hplan
    rcases Distribution.plan_error_cases hplan with ⟨hk, rfl⟩ | ⟨d, rfl, hk, rfl⟩
    · exact ⟨(true, e), mem_binaries_of_kind hk, rfl⟩
    · exact ⟨(false, d), mem_binaries_of_kind hk, rfl⟩
  · rintro e p c f hplan hc ⟨x, hx, rfl⟩
    exact ⟨x, binaries_child hplan hc hx, rfl⟩

lemma pushNegations_error {e : Formula} {f : Fault} (h : pushNegations e = .error f) :
    ∃ kind, f = .unexpectedKind kind Negations.site := by
  rcases hfirst : e.firstBinary? with _ | g
  · obtain ⟨r, hr, -⟩ := pushNegations_of_plain (firstBinary?_eq_none_iff.1 hfirst)
    cases h.symm.trans hr
  · cases h.symm.trans (pushNegations_of_firstBinary? hfirst)
    exact ⟨g.kind, rfl⟩

/-- **The name in a refusal.** Pushing negations gives its own name. What distribution refuses is an
implication or equivalence in the formula, and the name is its own if the number of negations
around that is even, and the one of pushing negations if it is odd. So it is always its own where
none of them stands under an odd number. -/
theorem refusal_site (e : Formula) (kind : Kind) (site : String) :
    (pushNegations e = .error (.unexpectedKind kind site) → site = "push_negations") ∧
    (distributeOrOverAnd e = .error (.unexpectedKind kind site) →
      ∃ even f, (even, f) ∈ e.binaries true ∧ f ∈ e.subformulas ∧ (f.kind = .imp ∨ f.kind = .iff) ∧
        kind = f.kind ∧ site = if even then "distribute_or_over_and" else "push_negations") ∧
    ((∀ x ∈ e.binaries true, x.1 = true) →
      distributeOrOverAnd e = .error (.unexpectedKind kind site) →
        site = "distribute_or_over_and") := by
  refine ⟨fun h => ?_, fun h => ?_, fun heven h => ?_⟩
  · obtain ⟨k, hk⟩ := pushNegations_error h
    cases hk
    rfl
  · obtain ⟨⟨even, f⟩, hx, hf⟩ := distributeOrOverAnd_error h
    have hmem : f ∈ (e.binaries true).map Prod.snd := List.mem_map_of_mem hx
    rw [map_snd_binaries, List.mem_filter, decide_eq_true_eq] at hmem
    cases hf
    exact ⟨even, f, hx, hmem.1, hmem.2, rfl, rfl⟩
  · obtain ⟨x, hx, hf⟩ := distributeOrOverAnd_error h
    cases hf
    rw [heven x hx]
    rfl

/-- An equivalence under two negations, which both passes refuse, each under its own name. -/
theorem refusal_site_double_negation :
    let e : Formula := .disj [.var "p",
      .neg (.conj [.var "q", .neg (.iff (.var "p") (.var "q"))])]
    (∃ kind site, pushNegations e = .error (.unexpectedKind kind site) ∧
      site = "push_negations") ∧
    (∀ x ∈ e.binaries true, x.1 = true) ∧
    ∃ kind site, distributeOrOverAnd e = .error (.unexpectedKind kind site) ∧
      site = "distribute_or_over_and" := by
  intro e
  have hpush : pushNegations e = .error (.unexpectedKind .iff Negations.site) :=
    pushNegations_of_firstBinary? (f := .iff (.var "p") (.var "q")) rfl
  have heven : ∀ x ∈ e.binaries true, x.1 = true := by decide
  have hdistribute : distributeOrOverAnd e = .error (.unexpectedKind .iff Distribution.site) := by
    cbv
  obtain ⟨hown, -, -⟩ := refusal_site e .iff Negations.site
  obtain ⟨-, -, hown'⟩ := refusal_site e .iff Distribution.site
  exact ⟨⟨_, _, hpush, hown hpush⟩, heven, _, _, hdistribute, hown' heven hdistribute⟩

/-- Under one negation distribution refuses an implication in the name of the other pass. -/
theorem distributeOrOverAnd_neg_imp_site :
    let e : Formula := .neg (.imp (.var "p") (.var "q"))
    distributeOrOverAnd e = .error (.unexpectedKind .imp "push_negations") ∧
      ¬∀ kind site, distributeOrOverAnd e = .error (.unexpectedKind kind site) →
        site = Pass.distribution.name := by
  intro e
  have herror : distributeOrOverAnd e = .error (.unexpectedKind .imp "push_negations") := by cbv
  refine ⟨herror, fun h => ?_⟩
  have hname := h _ _ herror
  exact absurd hname (by decide)

end NormalForm

end Clausal
