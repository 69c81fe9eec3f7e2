import Clausal.Engine.Fold
import Clausal.Semantics.Datum

/-!
The truth value of a formula. Every variable is looked up, from left to right, whether or not the
result depends on it.
-/

namespace Clausal

/-- Truth values for some of the variables. -/
abbrev Valuation := String → Option Bool

/-- Values of any sort by their truth; the first entry of a name counts. -/
def Valuation.ofData (entries : List (String × Datum)) : Valuation :=
  fun x => (entries.lookup x).map Datum.truth

namespace Evaluation

open Engine

/-- The truth tables. Parts beyond those needed are left out, and the right side of an implication
is read only if the left side is true. -/
def combine : Kind → List Bool → Except Fault Bool
  | .const, p :: _ | .var, p :: _ => .ok p
  | .neg, p :: _ => .ok !p
  | .conj, ps => .ok (ps.all id)
  | .disj, ps => .ok (ps.any id)
  | .imp, false :: _ => .ok true
  | .imp, true :: q :: _ => .ok q
  | .iff, p :: q :: _ => .ok (p == q)
  | _, _ => .error .missingPart

def lookup (v : Valuation) (x : String) : Except Fault Bool :=
  match v x with
  | some b => .ok b
  | none => .error (.unassigned x)

def fold (v : Valuation) : Fold Bool where
  plan := Plan.atoms .ok (lookup v)
  combine := combine
  descends := Plan.atoms_descends

end Evaluation

namespace Formula

def evaluate (e : Formula) (v : Valuation) : Except Fault Bool := (Evaluation.fold v).apply e

theorem evaluate_const (b : Bool) (v : Valuation) : evaluate (.const b) v = .ok b := by
  rw [evaluate, Engine.Fold.apply_eq_eval, Engine.Fold.eval_const rfl]

theorem evaluate_var (x : String) (v : Valuation) :
    evaluate (.var x) v = Evaluation.lookup v x := by
  rw [evaluate, Engine.Fold.apply_eq_eval, Engine.Fold.eval_var rfl]

/-- A connective is evaluated by its truth table, once all its operands are, left to right. -/
theorem evaluate_of_operands {e : Formula} (hc : e.kind ≠ .const) (hv : e.kind ≠ .var)
    (v : Valuation) :
    e.evaluate v = (e.operands.mapM (evaluate · v) >>= Evaluation.combine e.kind) := by
  have hplan : (Evaluation.fold v).plan e = .ok (.node e) := by
    cases e with
    | const b => exact absurd rfl hc
    | var x => exact absurd rfl hv
    | _ => rfl
  have heval : (Evaluation.fold v).eval = (evaluate · v) :=
    funext fun c => ((Evaluation.fold v).apply_eq_eval c).symm
  rw [evaluate, Engine.Fold.apply_eq_eval, Engine.Fold.eval_of_node hplan, heval]
  rfl

end Formula

end Clausal
