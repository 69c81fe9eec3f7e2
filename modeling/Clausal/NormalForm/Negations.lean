import Clausal.Folds.Structural

/-!
Pushing negations down to the variables: double negations cancel, De Morgan's laws take a negation
through conjunctions and disjunctions, and a negated constant is the other constant.
-/

namespace Clausal.NormalForm

namespace Negations

open Engine

/-- The name under which the pass refuses a formula. -/
def site : String := "push_negations"

/-- The plan for the negation of a formula. -/
def negated : Formula → Except Fault (Plan Formula)
  | .const b => .ok (.value (.const !b))
  | .var x => .ok (.value (.neg (.var x)))
  | .neg e => .ok (.replace e)
  | .conj es => .ok (.node (.disj (es.map .neg)))
  | .disj es => .ok (.node (.conj (es.map .neg)))
  | .imp _ _ => .error (.unexpectedKind .imp site)
  | .iff _ _ => .error (.unexpectedKind .iff site)

def plan : Formula → Except Fault (Plan Formula)
  | .neg e => negated e
  | .imp _ _ => .error (.unexpectedKind .imp site)
  | .iff _ _ => .error (.unexpectedKind .iff site)
  | e => Structural.plan e

theorem negated_descends {e c : Formula} {p : Plan Formula} (h : negated e = .ok p)
    (hc : c ∈ p.children) : c.weight < (Formula.neg e).weight := by
  have hmap : ∀ {es : List Formula}, c ∈ es.map .neg → c.weight < Formula.weights es + 2 := by
    intro es hc
    obtain ⟨d, hd, rfl⟩ := List.mem_map.1 hc
    have := Formula.weight_le_weights hd
    simp only [Formula.weight]
    omega
  cases e with
  | const b => cases h; simp [Plan.children] at hc
  | var x => cases h; simp [Plan.children] at hc
  | neg e =>
    cases h
    cases List.mem_singleton.1 hc
    simp only [Formula.weight]
    omega
  | conj es => cases h; exact hmap hc
  | disj es => cases h; exact hmap hc
  | imp a b => simp [negated] at h
  | iff a b => simp [negated] at h

theorem plan_descends {e c : Formula} {p : Plan Formula} (h : plan e = .ok p)
    (hc : c ∈ p.children) : c.weight < e.weight := by
  cases e with
  | neg e => exact negated_descends h hc
  | imp a b => simp [plan] at h
  | iff a b => simp [plan] at h
  | _ => exact Structural.plan_descends h hc

def fold : Fold Formula where
  plan := plan
  combine := Structural.rebuildPlain site
  descends := plan_descends

end Negations

/-- The formula with negations on variables only. -/
def pushNegations (e : Formula) : Except Fault Formula := Negations.fold.apply e

end Clausal.NormalForm
