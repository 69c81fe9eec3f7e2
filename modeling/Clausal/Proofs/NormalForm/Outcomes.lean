import Clausal.Proofs.NormalForm.Equivalence
import Clausal.Proofs.Semantics.Missing

/-!
The first two passes where variables may have no value.

Evaluation names the leftmost variable without a value. So of two formulas that are true alike, one
has the same outcome as the other if the leftmost variable without a value is the same in both,
whichever variables have none. The rules keep the order in which variables occur for the first time:
De Morgan's laws do not move them, and an equivalence is repeated behind itself only. **Main
result**: eliminating implications and pushing negations keep the outcome of evaluation under all
valuations, those that leave variables without a value included.
-/

namespace Clausal

namespace Formula

/-- Of any class of names, the first to occur in `f` is the first to occur in `e`. -/
def SameFirst (f e : Formula) : Prop :=
  ∀ p : String → Bool, f.occurrences.find? p = e.occurrences.find? p

lemma sameFirst_of_eq {e f : Formula} (h : f.occurrences = e.occurrences) : f.SameFirst e :=
  fun p => by rw [h]

lemma find?_flatMap_occurrences {es fs : List Formula}
    (h : List.Forall₂ (fun e f => f.SameFirst e) es fs) (p : String → Bool) :
    (fs.flatMap occurrences).find? p = (es.flatMap occurrences).find? p := by
  induction h with
  | nil => rfl
  | cons hef _ ih =>
    rw [List.flatMap_cons, List.flatMap_cons, List.find?_append, List.find?_append, hef p, ih]

/-- Evaluation gives the same truth value for both, or names the same variable. -/
def SameOutcome (v : Valuation) (f e : Formula) : Prop :=
  (∃ b, f.evaluate v = .ok b ∧ e.evaluate v = .ok b) ∨
    ∃ x, f.evaluate v = .error (.unassigned x) ∧ e.evaluate v = .error (.unassigned x)

lemma SameFirst.sameOutcome {e f : Formula} (h : f.SameFirst e)
    (htruth : ∀ w, f.truth w = e.truth w) (v : Valuation) : SameOutcome v f e := by
  have hmissing : v.missing? f = v.missing? e := h _
  cases he : v.missing? e with
  | none =>
    have hcovers : v.Covers e := Valuation.missing?_eq_none_iff.1 he
    have hcovers' : v.Covers f := Valuation.missing?_eq_none_iff.1 (hmissing.trans he)
    refine .inl ⟨e.truth v.total, ?_, evaluate_eq_truth hcovers⟩
    rw [evaluate_eq_truth hcovers', htruth]
  | some x =>
    exact .inr ⟨x, evaluate_of_missing? (hmissing.trans he), evaluate_of_missing? he⟩

end Formula

namespace NormalForm

open Formula

/-! ### The rules keep the first occurrences -/

lemma congruence_sameFirst : Congruence SameFirst where
  refl e := sameFirst_of_eq rfl
  trans hfg hge p := (hfg p).trans (hge p)
  conj h p := by
    rw [occurrences_conj, occurrences_conj]
    exact find?_flatMap_occurrences h p
  disj h p := by
    rw [occurrences_disj, occurrences_disj]
    exact find?_flatMap_occurrences h p

/-- Both sides of the equivalence come a second time, behind both. -/
lemma conj_sameFirst_iff (a b : Formula) :
    (Formula.conj [.imp a b, .imp b a]).SameFirst (.iff a b) := by
  intro p
  have hconj : (Formula.conj [.imp a b, .imp b a]).occurrences =
      (Formula.iff a b).occurrences ++ (b.occurrences ++ a.occurrences) := by simp
  rw [hconj, List.find?_append]
  cases hfirst : (Formula.iff a b).occurrences.find? p with
  | some x => rfl
  | none =>
    rw [Option.none_or, List.find?_eq_none]
    rw [List.find?_eq_none, occurrences_iff, List.forall_mem_append] at hfirst
    exact List.forall_mem_append.2 hfirst.symm

lemma implications_sameFirst : Implications.Rules SameFirst where
  toCongruence := congruence_sameFirst
  neg h p := by
    rw [occurrences_neg, occurrences_neg]
    exact h p
  imp a b := sameFirst_of_eq (by simp)
  iff := conj_sameFirst_iff

lemma negations_sameFirst : Negations.Rules SameFirst where
  toCongruence := congruence_sameFirst
  negConst b := sameFirst_of_eq (by simp)
  negNeg e := sameFirst_of_eq (by simp)
  negConj es := sameFirst_of_eq (by simp [List.flatMap_map])
  negDisj es := sameFirst_of_eq (by simp [List.flatMap_map])

/-! ### The outcome of evaluation -/

/-- **The first two passes keep the outcome of evaluation**, whichever variables have values. What
they return has the shape they are for, and evaluation gives the same truth value for it, or names
the same variable. -/
theorem sameOutcome_passes (e : Formula) :
    (∃ f, eliminateImplications e = .ok f ∧ f.Plain ∧ ∀ v, SameOutcome v f e) ∧
    (e.Plain → ∃ f, pushNegations e = .ok f ∧ f.Nnf ∧ ∀ v, SameOutcome v f e) := by
  constructor
  · obtain ⟨f, hf, hplain, hstands⟩ := implications_standsFor.total e
    have hfirst : f.SameFirst e := (implications_sameFirst.of_ok hf).2
    exact ⟨f, hf, hplain, hfirst.sameOutcome hstands.truth_eq⟩
  · intro hplain
    obtain ⟨f, hf, hnnf, hstands⟩ := negations_standsFor.total hplain
    have hfirst : f.SameFirst e := (negations_sameFirst.of_ok hplain hf).2
    exact ⟨f, hf, hnnf, hfirst.sameOutcome hstands.truth_eq⟩

/-- An equivalence that is repeated, and a disjunction that becomes a conjunction: with a value for
`p` only, `q` is named before and after. -/
theorem sameOutcome_passes_leftmost :
    let e : Formula := .iff (.disj [.var "p", .var "q"]) (.var "r")
    let n : Formula := .neg (.disj [.neg (.var "p"), .conj [.var "q", .neg (.var "r")]])
    let v : Valuation := fun x => if x = "p" then some true else none
    (∃ f, eliminateImplications e = .ok f ∧ f.evaluate v = .error (.unassigned "q")) ∧
    (n.Plain ∧ ∃ f, pushNegations n = .ok f ∧ f.evaluate v = .error (.unassigned "q")) := by
  intro e n v
  have hnamed : ∀ {f c : Formula}, v.missing? c = some "q" → SameOutcome v f c →
      f.evaluate v = .error (.unassigned "q") := by
    rintro f c hc (⟨b, -, hb⟩ | ⟨x, hf, hx⟩)
    · cases (evaluate_of_missing? hc).symm.trans hb
    · cases (evaluate_of_missing? hc).symm.trans hx
      exact hf
  have hplain : n.Plain := by decide
  obtain ⟨f, hf, -, helim⟩ := (sameOutcome_passes e).1
  obtain ⟨g, hg, -, hpush⟩ := (sameOutcome_passes n).2 hplain
  exact ⟨⟨f, hf, hnamed rfl (helim v)⟩, hplain, g, hg, hnamed rfl (hpush v)⟩

end NormalForm

end Clausal
