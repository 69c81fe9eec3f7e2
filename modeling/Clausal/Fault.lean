import Clausal.Formula.Basic

/-!
What can go wrong while a formula is worked on: a pass meets a connective it does not accept, an
evaluation meets a variable without a value, a table of handlers does not fit the engine, or a
number that is to be reported is too long to be written.
-/

namespace Clausal

/-- The two tables of handlers that drive a traversal. -/
inductive Role where
  | unroll
  | assembly
  deriving DecidableEq

def Role.title : Role → String
  | .unroll => "Unroll"
  | .assembly => "Assembly"

/-- A number is written in at most this many decimal digits. -/
def digitLimit : Nat := 4300

inductive Fault where
  /-- A pass or a handler, named by its site, refuses formulas of this kind. -/
  | unexpectedKind (kind : Kind) (site : String)
  /-- The variable has no value. -/
  | unassigned (name : String)
  /-- A table has no handler for these kinds. -/
  | incomplete (role : Role) (kinds : List Kind)
  /-- An item that waits for its parts does not say where they begin. -/
  | unplaced (kind : Kind)
  /-- The work is done, and the buffer does not hold exactly one value. -/
  | resultCount (found : Nat)
  /-- Exactly one part was needed. -/
  | onePart (found : Nat)
  /-- Exactly two parts were needed, on either side of the symbol. -/
  | twoParts (symbol : String) (found : Nat)
  /-- A part was read that is not there. -/
  | missingPart
  /-- A part is not of the sort that is assembled. -/
  | wrongSort
  /-- A number has more digits than are written. -/
  | tooManyDigits
  deriving DecidableEq

namespace Fault

def message : Fault → String
  | unexpectedKind kind site => site ++ ": unexpected kind '" ++ kind.name ++ "'"
  | unassigned name => "Variable " ++ name ++ " has no assigned value."
  | incomplete role kinds =>
    role.title ++ " handler table is missing kinds: " ++ ", ".intercalate (kinds.map Kind.name)
  | unplaced kind => "PROCESS item for '" ++ kind.name ++ "' has no start index"
  | resultCount found => "Expected exactly one final result, found " ++ found.repr
  | onePart found => "Expected one part, got " ++ found.repr
  | twoParts symbol found => "Expected two parts for '" ++ symbol ++ "', got " ++ found.repr
  | missingPart => "list index out of range"
  | wrongSort => "a part is of the wrong sort"
  | tooManyDigits =>
    "Exceeds the limit (" ++ digitLimit.repr ++ " digits) for integer string conversion; " ++
      "use sys.set_int_max_str_digits() to increase the limit"

end Fault

/-- Errors that the faults are among. Handlers may have errors of their own. -/
class Raises (ε : Type) where
  fault : Fault → ε

instance : Raises Fault := ⟨fun f => f⟩

@[simp] theorem Raises.fault_self (f : Fault) : (Raises.fault f : Fault) = f := rfl

end Clausal
