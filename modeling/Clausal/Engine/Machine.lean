import Clausal.Fault

/-!
The engine that folds a formula without recursion: a stack of work items and one flat buffer of
results.

An `unroll` item asks a handler what to do with a formula: the answer is a finished value, which
goes to the buffer, or more items, which go on the stack. A `process` item remembers where the
results of its formula begin in the buffer; when it is reached, everything from there on is
replaced by the one value that the assembly handler makes of it.
-/

namespace Clausal.Engine

inductive Item where
  | unroll (e : Formula)
  | process (e : Formula) (start : Option Nat)

/-- What a handler makes of a formula: a value, or items to push, the last one on top. -/
inductive Outcome (α : Type) where
  | leaf (value : α)
  | expand (items : List Item)

/-- A handler for every formula, told the size of the buffer, and one for every list of parts. -/
structure Handlers (α : Type) (ε : Type := Fault) where
  unroll : Formula → Nat → Except ε (Outcome α)
  assemble : Kind → List α → Except ε α

/-- The head of the stack is its top; the newest result is the last of the buffer. -/
structure State (α : Type) where
  stack : List Item
  buffer : Array α

inductive Progress (α : Type) (ε : Type := Fault) where
  | next (s : State α)
  | done (result : Except ε α)

variable {α ε : Type} [Raises ε]

def State.start (e : Formula) : State α := ⟨[.unroll e], #[]⟩

def finish (buffer : Array α) : Except ε α :=
  match buffer.toList with
  | [v] => .ok v
  | vs => .error (Raises.fault (.resultCount vs.length))

def step (H : Handlers α ε) : State α → Progress α ε
  | ⟨[], buffer⟩ => .done (finish buffer)
  | ⟨.unroll e :: rest, buffer⟩ =>
    match H.unroll e buffer.size with
    | .ok (.leaf v) => .next ⟨rest, buffer.push v⟩
    | .ok (.expand items) => .next ⟨items.reverse ++ rest, buffer⟩
    | .error f => .done (.error f)
  | ⟨.process e none :: _, _⟩ => .done (.error (Raises.fault (.unplaced e.kind)))
  | ⟨.process e (some start) :: rest, buffer⟩ =>
    match H.assemble e.kind (buffer.extract start).toList with
    | .ok v => .next ⟨rest, (buffer.shrink start).push v⟩
    | .error f => .done (.error f)

/-- The result of at most `fuel` steps, if they suffice. -/
def runFor (H : Handlers α ε) : Nat → State α → Option (Except ε α)
  | 0, _ => none
  | fuel + 1, s =>
    match step H s with
    | .next t => runFor H fuel t
    | .done r => some r

/-! ### Calls -/

/-- A call of a handler: the size of the buffer at an unrolling, the number of parts at an
assembly. -/
inductive Call where
  | unroll (kind : Kind) (start : Nat)
  | assemble (kind : Kind) (parts : Nat)
  deriving DecidableEq

def State.call? : State α → Option Call
  | ⟨.unroll e :: _, buffer⟩ => some (.unroll e.kind buffer.size)
  | ⟨.process e (some start) :: _, buffer⟩ => some (.assemble e.kind (buffer.size - start))
  | _ => none

/-- As `runFor`, with the calls made on the way, the newest first, put in front of `calls`. -/
def traceFor (H : Handlers α ε) : Nat → State α → List Call → Option (List Call × Except ε α)
  | 0, _, _ => none
  | fuel + 1, s, calls =>
    let calls := s.call?.toList ++ calls
    match step H s with
    | .next t => traceFor H fuel t calls
    | .done r => some (calls, r)

end Clausal.Engine
