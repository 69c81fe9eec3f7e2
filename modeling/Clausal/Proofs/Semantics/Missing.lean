import Clausal.Proofs.Engine.Faults

/-!
Evaluation where variables may have no value.

Every variable is looked up, from left to right, also where the truth tables would not need it. So
evaluation fails if any variable of the formula has no value, at the leftmost one. **Main result**:
evaluation returns the truth value if all variables have values, and otherwise names the leftmost
one that has none.
-/

namespace Clausal

namespace Valuation

variable {v : Valuation} {e : Formula} {x : String}

/-- The leftmost variable of the formula that has no value. -/
def missing? (v : Valuation) (e : Formula) : Option String :=
  e.occurrences.find? fun x => (v x).isNone

lemma missing?_eq_none_iff : v.missing? e = none ↔ v.Covers e := by
  rw [missing?, List.find?_eq_none]
  refine forall₂_congr fun x _ => ?_
  rw [Option.isNone_iff_eq_none, Option.isSome_iff_ne_none]

lemma missing?_eq_some_iff :
    v.missing? e = some x ↔ v x = none ∧
      ∃ before after, e.occurrences = before ++ x :: after ∧ ∀ y ∈ before, (v y).isSome := by
  rw [missing?, List.find?_eq_some_iff_append, Option.isNone_iff_eq_none]
  simp only [Bool.not_eq_true', Option.isNone_eq_false_iff]

lemma exists_missing? (h : ¬v.Covers e) : ∃ x, v.missing? e = some x := by
  rw [← missing?_eq_none_iff] at h
  exact Option.ne_none_iff_exists'.1 h

/-! ### Data of any sort -/

/-- Data by their truth; `ofData` does this with a list of entries. -/
def byTruth (data : String → Option Datum) : Valuation := fun x => (data x).map Datum.truth

variable {data : String → Option Datum}

lemma isSome_byTruth : (byTruth data x).isSome = (data x).isSome := Option.isSome_map

lemma byTruth_eq_none_iff : byTruth data x = none ↔ data x = none := Option.map_eq_none_iff

lemma total_byTruth : (byTruth data).total = fun x => (data x).any Datum.truth := by
  funext x
  rw [total, byTruth]
  cases data x with
  | none => rfl
  | some d => rfl

end Valuation

namespace Evaluation

open Engine

/-- What a valuation lacks for a formula, as a fault. -/
def lack (v : Valuation) (e : Formula) : Option Fault := (v.missing? e).map .unassigned

lemma lack_var (v : Valuation) (x : String) :
    lack v (.var x) = (fold v).firstFault (lack v) (.var x) := by
  cases hx : v x with
  | none =>
    have hplan : (fold v).plan (.var x) = .error (.unassigned x) := by
      simp only [fold, Plan.atoms, lookup, hx]
      rfl
    rw [Fold.firstFault_of_error hplan]
    simp [lack, Valuation.missing?, hx]
  | some b =>
    have hplan : (fold v).plan (.var x) = .ok (.value b) := by
      simp only [fold, Plan.atoms, lookup, hx]
      rfl
    rw [Fold.firstFault_of_ok hplan]
    simp [lack, Valuation.missing?, hx, Plan.children]

lemma lack_of_ne_var {e : Formula} (h : e.kind ≠ .var) (v : Valuation) :
    lack v e = e.operands.findSome? (lack v) := by
  rw [lack, Valuation.missing?, Formula.occurrences_of_ne_var h, List.find?_flatMap,
    List.map_findSome?]
  rfl

lemma lack_eq_firstFault (v : Valuation) (e : Formula) :
    lack v e = (fold v).firstFault (lack v) e := by
  have hnode : (fold v).plan e = .ok (.node e) → e.kind ≠ .var →
      lack v e = (fold v).firstFault (lack v) e := by
    intro hplan hkind
    rw [lack_of_ne_var hkind, Fold.firstFault_of_ok hplan]
    rfl
  cases e with
  | const b => rfl
  | var x => exact lack_var v x
  | _ => exact hnode rfl (by simp [Formula.kind])

end Evaluation

namespace Formula

variable {e : Formula} {v : Valuation}

lemma evaluate_of_missing? {x : String} (h : v.missing? e = some x) :
    e.evaluate v = .error (.unassigned x) := by
  have hsettles := (Evaluation.fits v).apply_settles (Evaluation.lack_eq_firstFault v) e
  rw [Evaluation.lack, h] at hsettles
  exact hsettles

/-- **Evaluation is the recursive semantics, faults included.** Names are given data of any sort,
which count by their truth. If all variables of the formula are given one, evaluation returns the
truth value of the formula; otherwise it names the leftmost variable that is given none, whatever
the data of the others. -/
theorem evaluate_outcome (e : Formula) (data : String → Option Datum) :
    ((∀ x ∈ e.occurrences, (data x).isSome) →
      e.evaluate (.byTruth data) = .ok (e.truth fun x => (data x).any Datum.truth)) ∧
    ((∃ x ∈ e.occurrences, data x = none) →
      ∃ before x after, e.occurrences = before ++ x :: after ∧
        (∀ y ∈ before, (data y).isSome) ∧ data x = none ∧
        e.evaluate (.byTruth data) = .error (.unassigned x)) := by
  constructor
  · intro hall
    have hcovers : (Valuation.byTruth data).Covers e := by
      intro x hx
      rw [Valuation.isSome_byTruth]
      exact hall x hx
    rw [evaluate_eq_truth hcovers, Valuation.total_byTruth]
  · rintro ⟨y, hy, hnone⟩
    have hcovers : ¬(Valuation.byTruth data).Covers e := by
      intro h
      have hy := h y hy
      rw [Valuation.isSome_byTruth, hnone] at hy
      cases hy
    obtain ⟨x, hx⟩ := Valuation.exists_missing? hcovers
    have herror := evaluate_of_missing? hx
    obtain ⟨hdata, before, after, hsplit, hbefore⟩ := Valuation.missing?_eq_some_iff.1 hx
    rw [Valuation.byTruth_eq_none_iff] at hdata
    simp only [Valuation.isSome_byTruth] at hbefore
    exact ⟨before, x, after, hsplit, hbefore, hdata, herror⟩

/-- A true disjunct saves no variable from being looked up, and of two variables without data the
left one is named. Where all have data, a text counts as true unless it is empty. -/
theorem evaluate_outcome_no_short_circuit :
    let e : Formula := .imp (.disj [.const true, .var "p"]) (.conj [.var "q", .neg (.var "r")])
    let few : List (String × Datum) := [("p", .text "no")]
    let all : List (String × Datum) := [("p", .text "no"), ("q", .list [.null]), ("r", .text "")]
    e.evaluate (.ofData few) = .error (.unassigned "q") ∧ e.evaluate (.ofData all) = .ok true := by
  intro e few all
  constructor
  · have hmissing : ∃ x ∈ e.occurrences, List.lookup x few = none := ⟨"q", by decide, rfl⟩
    obtain ⟨before, x, after, hsplit, hbefore, hx, herror⟩ :=
      (evaluate_outcome e fun x => List.lookup x few).2 hmissing
    have hoccurrences : ["p", "q", "r"] = before ++ x :: after := hsplit
    -- only `p` can stand before the variable that is named
    rcases before with _ | ⟨y, _ | ⟨z, before⟩⟩
    · cases hoccurrences
      cases hx
    · cases hoccurrences
      exact herror
    · have hz : "q" = z := (List.cons.inj (List.cons.inj hoccurrences).2).1
      cases hbefore "q" (by simp [hz])
  · have hall : ∀ x ∈ e.occurrences, (List.lookup x all).isSome := by decide
    exact (evaluate_outcome e fun x => List.lookup x all).1 hall

end Formula

end Clausal
