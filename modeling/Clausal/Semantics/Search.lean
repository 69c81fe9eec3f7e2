import Clausal.Semantics.Assignment
import Clausal.Semantics.Variables

/-!
Satisfiability by trying all assignments of the variables of a formula, in ascending order of their
masks.
-/

namespace Clausal

/-- The first assignment that makes the formula true, if there is one, and the number of assignments
tried. -/
structure Verdict where
  assignment : Option Assignment
  tried : Nat
  deriving DecidableEq

namespace Formula

/-- Try the masks from `mask` up to `total`. -/
def searchFrom (e : Formula) (names : List String) (total mask : Nat) : Except Fault Verdict :=
  if mask < total then
    let a := Assignment.ofMask names mask
    match e.evaluate a.valuation with
    | .error f => .error f
    | .ok true => .ok ⟨some a, mask + 1⟩
    | .ok false => searchFrom e names total (mask + 1)
  else .ok ⟨none, total⟩
termination_by total - mask

def search (e : Formula) : Except Fault Verdict :=
  let names := e.discoverVariables
  e.searchFrom names (Nat.pow 2 names.length) 0

end Formula

end Clausal
