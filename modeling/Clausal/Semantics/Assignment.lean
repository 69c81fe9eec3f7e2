import Clausal.Semantics.Evaluation
import Clausal.Text.Quoted

/-!
Assignments: truth values for finitely many names, in the order in which they were given.
-/

namespace Clausal

structure Assignment where
  entries : List (String × Bool)
  deriving DecidableEq

namespace Assignment

def valuation (a : Assignment) : Valuation := fun x => a.entries.lookup x

/-- Give a name a value. A name that has one already keeps its place. -/
def put (a : Assignment) (x : String) (b : Bool) : Assignment :=
  if a.entries.any (·.1 == x) then ⟨a.entries.map fun e => if e.1 == x then (x, b) else e⟩
  else ⟨a.entries ++ [(x, b)]⟩

def ofList (entries : List (String × Bool)) : Assignment :=
  entries.foldl (fun a e => a.put e.1 e.2) ⟨[]⟩

/-- The value of the `i`-th name is bit `i` of the mask. -/
def ofMask (names : List String) (mask : Nat) : Assignment :=
  ⟨names.mapIdx fun i x => (x, mask.testBit i)⟩

def entryText (e : String × Bool) : String :=
  Text.quote e.1 ++ ": " ++ if e.2 then "True" else "False"

def text (a : Assignment) : String :=
  "\x7b" ++ ", ".intercalate (a.entries.map entryText) ++ "\x7d"

end Assignment

end Clausal
