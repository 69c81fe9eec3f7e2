import Clausal.Folds.Rendering
import Clausal.NormalForm.Conversion
import Clausal.Semantics.Assignment
import Clausal.Text.Token

/-!
What the library reports while it works, and the words for it. An event with a number that is too
long to be written has none.
-/

namespace Clausal

inductive Severity where
  | debug
  | info
  | warning
  | error
  deriving DecidableEq

def Severity.level : Severity → Nat
  | .debug => 10
  | .info => 20
  | .warning => 30
  | .error => 40

/-- The number in decimal digits, if they are not too many. -/
def decimal (n : Int) : Except Fault String :=
  if n.natAbs < Nat.pow 10 digitLimit then .ok (toString n) else .error .tooManyDigits

inductive Event where
  | parsing (text : String)
  | parsed (kind : Kind)
  | parseFailed
  /-- The scan of a text has met a character with which no token begins. -/
  | illegal (character : Text.IllegalCharacter)
  /-- Such a character has ended the reading of a formula. -/
  | parseStopped (character : Text.IllegalCharacter)
  | parsingToCnf (text : String)
  | parsedToCnf (kind : Kind)
  | converting (kind : Kind)
  | passed (pass : NormalForm.Pass) (result : Formula)
  | converted (kind : Kind)
  /-- A traversal has ended with this number of results. -/
  | leftover (results : Nat)
  /-- The search has many variables; this is their number, and that of the assignments. -/
  | largeSearch (size total : Nat)
  | searching (size total : Int)
  | satisfied (assignment : Assignment) (tried : Int)
  | unsatisfied (tried : Int)
  /-- The outcome of some step, already in words. -/
  | outcome (step result : String)
  | note (severity : Severity) (message : String)

namespace Event

def severity : Event → Severity
  | largeSearch _ _ => .warning
  | note s _ => s
  | _ => .debug

def outcomeText (step result : String) : String := "  " ++ step ++ " -> " ++ result

/-- Whether the event is put into words only where it will be written. -/
def guarded : Event → Bool
  | passed _ _ | outcome _ _ => true
  | _ => false

/-- Put the event into words. The result of a pass is rendered on the engine. Sizes and positions
are those of something in memory and far from the limit; the number of assignments is not. -/
def compose : Event → Except Fault String
  | parsing text => .ok ("Parsing formula: " ++ text)
  | parsed kind => .ok ("Successfully parsed formula into " ++ kind.title)
  | parseFailed => .ok "Parse error encountered"
  | illegal i =>
    .ok ("Illegal character '" ++ i.char.toString ++ "' at position " ++ i.position.repr)
  | parseStopped i => .ok ("Unexpected parsing error: " ++ i.message)
  | parsingToCnf text => .ok ("Parsing and converting formula to CNF: " ++ text)
  | parsedToCnf kind => .ok ("CNF conversion completed, result type: " ++ kind.title)
  | converting kind => .ok ("Starting CNF conversion of " ++ kind.title)
  | passed pass result => outcomeText pass.name <$> Rendering.fold.apply result
  | converted kind => .ok ("CNF conversion complete: " ++ kind.title)
  | leftover n => .ok ("Traversal ended with " ++ n.repr ++ " buffered results")
  | largeSearch n total => do
    return "Brute-force search over " ++ n.repr ++ " variables will try up to " ++
      (← decimal total) ++ " assignments"
  | searching n total => do
    return "Searching " ++ (← decimal total) ++ " assignments over " ++ (← decimal n) ++
      " variables"
  | satisfied a tried => do
    return "SAT after " ++ (← decimal tried) ++ " assignments: " ++ a.text
  | unsatisfied tried => do
    return "UNSAT after " ++ (← decimal tried) ++ " assignments"
  | outcome step result => .ok (outcomeText step result)
  | note _ message => .ok message

/-- The words of a guarded event are never missing. -/
theorem compose_of_guarded {e : Event} (h : e.guarded = true) : ∃ text, e.compose = .ok text := by
  cases e with
  | passed pass result => exact ⟨_, by rw [compose, Rendering.fold_apply]; rfl⟩
  | outcome step result => exact ⟨_, rfl⟩
  | _ => cases h

end Event

end Clausal
