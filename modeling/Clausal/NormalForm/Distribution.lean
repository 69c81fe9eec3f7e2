import Clausal.NormalForm.Negations

/-!
Distributing disjunctions over conjunctions.

Nested disjunctions are first made one. If a conjunction is left among the disjuncts, the first
one is distributed over the others: `a ∨ (b ∧ c) ∨ d` becomes `(b ∨ a ∨ d) ∧ (c ∨ a ∨ d)`, and the
new disjunctions are distributed in turn.
-/

namespace Clausal

namespace Formula

/-- The formulas with every disjunction spliced in, after those done already, the newest first. -/
def flattenFrom : List Formula → List Formula → List Formula
  | [], flat => flat.reverse
  | .disj es :: rest, flat => flattenFrom (es ++ rest) flat
  | e :: rest, flat => flattenFrom rest (e :: flat)
termination_by pending => weights pending
decreasing_by
  · simp only [weights_append, weights, weight]
    omega
  · have := e.weight_pos
    simp only [weights]
    omega

/-- The formulas with nested disjunctions spliced in, from left to right. -/
def flattenDisjuncts (es : List Formula) : List Formula := flattenFrom es []

theorem flattenFrom_eq (pending flat : List Formula) :
    flattenFrom pending flat = flat.reverse ++ flattenDisjuncts pending := by
  induction hn : weights pending using Nat.strongRecOn generalizing pending flat with
  | ind n ih =>
    subst hn
    cases pending with
    | nil => simp [flattenDisjuncts, flattenFrom]
    | cons e rest =>
      have hrest : weights rest < weights (e :: rest) := by
        have := e.weight_pos
        simp only [weights]
        omega
      cases e with
      | disj es =>
        have hlt : weights (es ++ rest) < weights (.disj es :: rest) := by
          simp only [weights_append, weights, weight]
          omega
        rw [flattenDisjuncts, flattenFrom, flattenFrom, ih _ hlt _ flat rfl, ih _ hlt _ [] rfl]
        simp
      | _ =>
        rw [flattenDisjuncts, flattenFrom, flattenFrom, ih _ hrest _ _ rfl, ih _ hrest _ [_] rfl]
        · simp
        all_goals simp

@[simp] theorem flattenDisjuncts_nil : flattenDisjuncts [] = [] := by
  simp [flattenDisjuncts, flattenFrom]

@[simp] theorem flattenDisjuncts_disj (es rest : List Formula) :
    flattenDisjuncts (.disj es :: rest) = flattenDisjuncts (es ++ rest) := by
  simp [flattenDisjuncts, flattenFrom]

/-- A formula that is no disjunction stays as it is. -/
theorem flattenDisjuncts_cons {e : Formula} (h : e.kind ≠ .disj) (rest : List Formula) :
    flattenDisjuncts (e :: rest) = e :: flattenDisjuncts rest := by
  cases e with
  | disj es => exact absurd rfl h
  | _ =>
    rw [flattenDisjuncts, flattenFrom, flattenFrom_eq]
    · simp
    all_goals simp

theorem weights_flattenFrom_le (pending flat : List Formula) :
    weights (flattenFrom pending flat) ≤ weights pending + weights flat := by
  fun_induction flattenFrom pending flat with
  | case1 flat => simp [weights]
  | case2 es rest flat ih =>
    simp only [weights_append] at ih
    simp only [weights, weight]
    omega
  | case3 e rest flat _ ih =>
    simp only [weights] at ih ⊢
    omega

theorem weights_flattenDisjuncts_le (es : List Formula) :
    weights (flattenDisjuncts es) ≤ weights es :=
  weights_flattenFrom_le es []

def isConj : Formula → Bool
  | conj _ => true
  | _ => false

end Formula

namespace NormalForm

namespace Distribution

open Engine

def site : String := "distribute_or_over_and"

/-- Disjuncts, none of them a disjunction, as a formula with the first conjunction among them
distributed over the others. -/
def distribute (flat : List Formula) : Formula :=
  match flat.dropWhile (!·.isConj) with
  | .conj parts :: after =>
    let rest := flat.takeWhile (!·.isConj) ++ after
    .conj (parts.map fun p => .disj (p :: rest))
  | _ => .disj flat

def plan : Formula → Except Fault (Plan Formula)
  | .disj es => .ok (.node (distribute (Formula.flattenDisjuncts es)))
  | .neg e => Negations.negated e
  | .imp _ _ => .error (.unexpectedKind .imp site)
  | .iff _ _ => .error (.unexpectedKind .iff site)
  | e => Structural.plan e

theorem distribute_kind (flat : List Formula) :
    (distribute flat).kind = .conj ∨ (distribute flat).kind = .disj := by
  unfold distribute
  split
  · exact .inl rfl
  · exact .inr rfl

theorem distribute_descends {flat : List Formula} {c : Formula}
    (hc : c ∈ (distribute flat).operands) : c.weight ≤ Formula.weights flat := by
  simp only [distribute] at hc
  split at hc
  · next parts after hdrop =>
    have hflat := List.takeWhile_append_dropWhile (p := fun e => !e.isConj) (l := flat)
    rw [hdrop] at hflat
    have hw := congrArg Formula.weights hflat
    simp only [Formula.operands, List.mem_map] at hc
    obtain ⟨p, hp, rfl⟩ := hc
    have := Formula.weight_le_weights hp
    simp only [Formula.weights_append, Formula.weights, Formula.weight] at hw ⊢
    omega
  · exact Formula.weight_le_weights hc

theorem plan_descends {e c : Formula} {p : Plan Formula} (h : plan e = .ok p)
    (hc : c ∈ p.children) : c.weight < e.weight := by
  cases e with
  | disj es =>
    cases h
    have := distribute_descends hc
    have := Formula.weights_flattenDisjuncts_le es
    simp only [Formula.weight]
    omega
  | neg e => exact Negations.negated_descends h hc
  | imp a b => simp [plan] at h
  | iff a b => simp [plan] at h
  | _ => exact Structural.plan_descends h hc

def fold : Fold Formula where
  plan := plan
  combine := Structural.rebuildPlain site
  descends := plan_descends

end Distribution

/-- A formula in negation normal form as a conjunction of clauses. -/
def distributeOrOverAnd (e : Formula) : Except Fault Formula := Distribution.fold.apply e

end NormalForm

end Clausal
