import Clausal.Folds.Measure
import Clausal.Folds.Structural

/-!
Traversals in which values of several sorts meet.

A handler that is put in the place of another may give a formula where texts are assembled, or a
number where formulas are. Every fold of the library has a form for such values: a part is passed on
as it is, written as text, or refused, as the kind at hand requires.
-/

namespace Clausal

inductive Value where
  | formula (e : Formula)
  | text (s : String)
  | number (n : Int)
  /-- A connective whose operands are not all formulas. -/
  | node (kind : Kind) (parts : List Value)

namespace Value

def formula? : Value → Option Formula
  | formula e => some e
  | _ => none

def text? : Value → Option String
  | text s => some s
  | _ => none

def number? : Value → Option Int
  | number n => some n
  | _ => none

def written : Value → String
  | formula e => e.render
  | text s => s
  | number n => toString n
  | node kind _ => kind.title

end Value

namespace Mixed

open Engine

variable {α : Type}

/-- The parts that count for a kind. -/
def relevant : Kind → List α → List α
  | .const, ps | .var, ps | .neg, ps => ps.take 1
  | .conj, ps | .disj, ps => ps
  | .imp, ps | .iff, ps => ps.take 2

/-- Put formulas together. The part of an atom is passed on; where a part that counts is no formula,
the result is none either, and constants stand in to find the faults. -/
def putTogether (combine : Kind → List Formula → Except Fault Formula) (kind : Kind)
    (parts : List Value) : Except Fault Value :=
  let ps := relevant kind parts
  match kind, ps with
  | .const, p :: _ | .var, p :: _ => .ok p
  | _, _ =>
    match ps.mapM Value.formula? with
    | some es => .formula <$> combine kind es
    | none => do
      let _ ← combine kind (ps.map fun p => p.formula?.getD (.const true))
      return .node kind ps

/-- The part of an atom is passed on, those of conjunctions and disjunctions have to be texts, all
others are written. -/
def write (kind : Kind) (parts : List Value) : Except Fault Value :=
  match kind, parts with
  | .const, [p] | .var, [p] => .ok p
  | .conj, ps | .disj, ps =>
    match ps.mapM Value.text? with
    | some ts => .text <$> Rendering.combine kind ts
    | none => .error .wrongSort
  | _, ps => .text <$> Rendering.combine kind (ps.map Value.written)

def reckon (combine : Kind → List Int → Except Fault Int) (kind : Kind) (parts : List Value) :
    Except Fault Value :=
  match parts.mapM Value.number? with
  | some ns => .number <$> combine kind ns
  | none => .error .wrongSort

/-- A scheme with its values among others. -/
def lift (S : Scheme α) (embed : α → Value) (combine : Kind → List Value → Except Fault Value) :
    Scheme Value where
  plan e := (S.plan e).map (Plan.map embed)
  combine := combine

def formulas (S : Scheme Formula) : Scheme Value := lift S .formula (putTogether S.combine)

def numbers (S : Scheme Int) : Scheme Value := lift S .number (reckon S.combine)

def rendering : Scheme Value := lift Rendering.fold.toScheme .text write

def outline : Scheme Value :=
  lift Measure.outline.toScheme .text fun kind parts =>
    .text <$> Measure.outline.combine kind (parts.map Value.written)

end Mixed

end Clausal
