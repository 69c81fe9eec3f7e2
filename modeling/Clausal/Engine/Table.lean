import Clausal.Engine.Machine

/-!
Tables of handlers by kind, which may lack some, and the ways to unroll a formula from which a table
is put together. A table drives a traversal only if it has a handler for every kind.
-/

namespace Clausal.Engine

variable {α ε : Type}

abbrev Unroller (α : Type) (ε : Type := Fault) := Formula → Nat → Except ε (Outcome α)

abbrev Assembler (α : Type) (ε : Type := Fault) := List α → Except ε α

structure Table (α : Type) (ε : Type := Fault) where
  unroll : Kind → Option (Unroller α ε)
  assemble : Kind → Option (Assembler α ε)

def Handlers.table (H : Handlers α ε) : Table α ε where
  unroll _ := some H.unroll
  assemble kind := some (H.assemble kind)

namespace Table

def setUnroll (T : Table α ε) (kind : Kind) (h : Option (Unroller α ε)) : Table α ε :=
  { T with unroll := fun k => if k = kind then h else T.unroll k }

def setAssemble (T : Table α ε) (kind : Kind) (h : Option (Assembler α ε)) : Table α ε :=
  { T with assemble := fun k => if k = kind then h else T.assemble k }

/-- The fault of an incomplete table; the unrollings are looked at first. -/
def gap? (T : Table α ε) : Option Fault :=
  match Kind.all.filter fun k => (T.unroll k).isNone with
  | [] =>
    match Kind.all.filter fun k => (T.assemble k).isNone with
    | [] => none
    | kinds => some (.incomplete .assembly kinds)
  | kinds => some (.incomplete .unroll kinds)

theorem gap?_eq_none_iff {T : Table α ε} :
    T.gap? = none ↔ ∀ kind, (T.unroll kind).isSome ∧ (T.assemble kind).isSome := by
  have hkinds : ∀ {β : Type} (f : Kind → Option β),
      (Kind.all.filter fun k => (f k).isNone) = [] ↔ ∀ kind, (f kind).isSome := by
    intro β f
    have hsome : ∀ o : Option β, ¬o.isNone ↔ o.isSome := fun o => by cases o <;> simp
    simp only [List.filter_eq_nil_iff, hsome]
    exact ⟨fun h kind => h kind kind.mem_all, fun h kind _ => h kind⟩
  rw [forall_and, ← hkinds, ← hkinds]
  unfold gap?
  cases Kind.all.filter fun k => (T.unroll k).isNone with
  | cons kind kinds => simp
  | nil => cases Kind.all.filter fun k => (T.assemble k).isNone <;> simp

variable [Raises ε]

def handlers (T : Table α ε) : Handlers α ε where
  unroll e start :=
    match T.unroll e.kind with
    | some h => h e start
    | none => .error (Raises.fault (.incomplete .unroll [e.kind]))
  assemble kind parts :=
    match T.assemble kind with
    | some h => h parts
    | none => .error (Raises.fault (.incomplete .assembly [kind]))

/-- Fold a formula in at most `fuel` steps, with the calls of handlers in their order. -/
def traverse (T : Table α ε) (fuel : Nat) (e : Formula) : Option (List Call × Except ε α) :=
  match T.gap? with
  | some f => some ([], .error (Raises.fault f))
  | none => (traceFor T.handlers fuel (.start e) []).map fun (calls, r) => (calls.reverse, r)

end Table

/-! ### Ways to unroll -/

namespace Unroller

/-- Assemble the formula from the values of the given ones, where `start` says they begin. -/
def around (start : Option Nat) (e : Formula) (children : List Formula) : Outcome α :=
  .expand (.process e start :: children.reverse.map .unroll)

def structural : Unroller α ε := fun e start => .ok (around (some start) e e.operands)

def leaf (v : α) : Unroller α ε := fun _ _ => .ok (.leaf v)

/-- A formula is its own value, in the form in which formulas are values. -/
def identity (embed : Formula → α) : Unroller α ε := fun e _ => .ok (.leaf (embed e))

def refuse [Raises ε] (site : String) : Unroller α ε := fun e _ =>
  .error (Raises.fault (.unexpectedKind e.kind site))

def replace (target : Formula) : Unroller α ε := fun _ _ => .ok (.expand [.unroll target])

def substitute (embed : Formula → α) (name : String) (target : Formula) : Unroller α ε :=
  fun e start =>
    match e with
    | .var x => if x = name then replace target e start else identity embed e start
    | _ => identity embed e start

def empty : Unroller α ε := fun _ _ => .ok (.expand [])

def children : Unroller α ε := fun e _ => .ok (.expand (e.operands.reverse.map .unroll))

/-- From the operands, right to left. -/
def backward : Unroller α ε := fun e start => .ok (around (some start) e e.operands.reverse)

def unplaced : Unroller α ε := fun e _ => .ok (around none e e.operands)

def offset (shift : Int) : Unroller α ε := fun e start =>
  .ok (around (some (start + shift).toNat) e e.operands)

/-- From the first operands only; a negative number leaves out as many at the end. -/
def take (n : Int) : Unroller α ε := fun e start =>
  let count := if n < 0 then (e.operands.length + n).toNat else n.toNat
  .ok (around (some start) e (e.operands.take count))

end Unroller

def Assembler.refuse [Raises ε] (kind : Kind) (site : String) : Assembler α ε := fun _ =>
  .error (Raises.fault (.unexpectedKind kind site))

def Assembler.const (v : α) : Assembler α ε := fun _ => .ok v

end Clausal.Engine
