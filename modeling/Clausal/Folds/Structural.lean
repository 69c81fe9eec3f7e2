import Clausal.Engine.Fold

/-!
The fold that takes a formula apart and puts it together again. The passes of the conversion are
this fold with other plans for some of the connectives.
-/

namespace Clausal.Structural

open Engine

/-- A formula of the given kind from its parts; parts beyond those needed are left out. -/
def rebuild : Kind → List Formula → Except Fault Formula
  | .const, p :: _ | .var, p :: _ => .ok p
  | .neg, p :: _ => .ok (.neg p)
  | .conj, ps => .ok (.conj ps)
  | .disj, ps => .ok (.disj ps)
  | .imp, a :: b :: _ => .ok (.imp a b)
  | .iff, a :: b :: _ => .ok (.iff a b)
  | _, _ => .error .missingPart

/-- As `rebuild`, for a pass that accepts neither implications nor equivalences. -/
def rebuildPlain (site : String) : Kind → List Formula → Except Fault Formula
  | .imp, _ => .error (.unexpectedKind .imp site)
  | .iff, _ => .error (.unexpectedKind .iff site)
  | kind, ps => rebuild kind ps

def plan : Formula → Except Fault (Plan Formula) :=
  Plan.atoms (fun b => .ok (.const b)) (fun x => .ok (.var x))

theorem plan_descends {e c : Formula} {p : Plan Formula} (h : plan e = .ok p)
    (hc : c ∈ p.children) : c.weight < e.weight :=
  Plan.atoms_descends h hc

def fold : Fold Formula where
  plan := plan
  combine := rebuild
  descends := plan_descends

end Clausal.Structural
