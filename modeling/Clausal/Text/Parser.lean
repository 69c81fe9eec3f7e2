import Clausal.Formula.Basic
import Clausal.Text.Lexer

/-!
Reading a formula from its tokens.

From loosest to tightest the connectives are equivalence, which does not chain, implication,
which groups to the right, disjunction and conjunction, which take any number of operands, and
negation. The reader goes through the tokens once. For every open parenthesis it keeps a frame
with what has been read at that level; a frame is closed from the tightest connective outwards.

Of the parser generator, SLY, the following is taken for granted: the productions and their actions
are those of the grammar as it is declared, which has no conflicts; a token is pulled from the lexer
when it is looked at and not before; and an error, of the lexer or at a token, ends the reading. So
a token out of place is reported even if an illegal character stands behind it. **Main result**:
pulling one token at a time is reading a finished scan (`parse_eq_formula`).
-/

namespace Clausal.Text

inductive ParseError where
  /-- The token cannot stand where it stands. -/
  | near (token : Token)
  | illegal (character : IllegalCharacter)
  | unexpectedEnd
  deriving DecidableEq

def ParseError.message : ParseError → String
  | near t =>
    "Syntax error near '" ++ t.spelling ++ "' (type: " ++ t.terminal.name ++
      ") at line 1, position " ++ t.start.repr
  | illegal i => "Parse failed: " ++ i.message
  | unexpectedEnd => "Syntax error: Unexpected end of formula"

/-- A chain of operands, the newest first: one operand stands for itself. -/
def chain (connect : List Formula → Formula) : List Formula → Formula
  | [e] => e
  | es => connect es.reverse

/-- What has been read between a parenthesis and the operand that comes next. All lists have the
newest formula first. -/
structure Frame where
  /-- The left side of an equivalence. -/
  left : Option Formula := none
  /-- Left sides of implications. -/
  antecedents : List Formula := []
  disjuncts : List Formula := []
  conjuncts : List Formula := []
  /-- Negations right before the operand. -/
  negations : Nat := 0

namespace Frame

variable (f : Frame) (operand : Formula)

def conjunction : Formula := chain .conj (operand :: f.conjuncts)

def disjunction : Formula := chain .disj (f.conjunction operand :: f.disjuncts)

def implication : Formula := f.antecedents.foldl (fun e a => .imp a e) (f.disjunction operand)

def formula : Formula :=
  match f.left with
  | none => f.implication operand
  | some l => .iff l (f.implication operand)

end Frame

/-- The frame of the innermost open level, those around it, and the operand just read, if the
next token has to come after one. -/
structure Reader where
  frame : Frame := {}
  outer : List Frame := []
  operand : Option Formula := none

namespace Reader

def supply (frame : Frame) (outer : List Frame) (e : Formula) : Reader where
  frame := { frame with negations := 0 }
  outer := outer
  operand := some (Nat.repeat .neg frame.negations e)

def step (r : Reader) (t : Token) : Option Reader :=
  match r.operand, t.terminal with
  | none, .neg => some { r with frame := { r.frame with negations := r.frame.negations + 1 } }
  | none, .left => some { frame := {}, outer := r.frame :: r.outer }
  | none, .ident => some (supply r.frame r.outer (.var t.spelling))
  | none, .verum => some (supply r.frame r.outer (.const true))
  | none, .falsum => some (supply r.frame r.outer (.const false))
  | some e, .conj =>
    some { r with frame := { r.frame with conjuncts := e :: r.frame.conjuncts }, operand := none }
  | some e, .disj =>
    some
      { outer := r.outer
        frame :=
          { left := r.frame.left
            antecedents := r.frame.antecedents
            disjuncts := r.frame.conjunction e :: r.frame.disjuncts } }
  | some e, .imp =>
    some
      { outer := r.outer
        frame :=
          { left := r.frame.left
            antecedents := r.frame.disjunction e :: r.frame.antecedents } }
  | some e, .iff =>
    match r.frame.left with
    | none => some { outer := r.outer, frame := { left := some (r.frame.implication e) } }
    | some _ => none
  | some e, .right =>
    match r.outer with
    | [] => none
    | f :: outer => some (supply f outer (r.frame.formula e))
  | _, _ => none

/-- Go on after all the tokens, or stop at the first that cannot stand where it stands. -/
def read : Reader → List Token → Except Token Reader
  | r, [] => .ok r
  | r, t :: ts =>
    match r.step t with
    | some r => r.read ts
    | none => .error t

@[simp] theorem read_nil (r : Reader) : r.read [] = .ok r := rfl

theorem read_cons (r : Reader) (t : Token) (ts : List Token) :
    r.read (t :: ts) = match r.step t with
      | some r => r.read ts
      | none => .error t := rfl

theorem read_append (r : Reader) (ts us : List Token) :
    r.read (ts ++ us) = r.read ts >>= (read · us) := by
  induction ts generalizing r with
  | nil => rfl
  | cons t ts ih =>
    rw [List.cons_append, read_cons, read_cons]
    cases r.step t with
    | none => rfl
    | some r => exact ih r

def result? (r : Reader) : Option Formula :=
  match r.outer, r.operand with
  | [], some e => some (r.frame.formula e)
  | _, _ => none

end Reader

/-- Read on from what is left of a text: pull a token, go on after it, stop at the first error. -/
def parseFrom (r : Reader) (cs : List Char) (position : Nat) : Except ParseError Formula :=
  match h : pull cs position with
  | .token t rest =>
    have := length_lt_of_pull h
    match r.step t with
    | some r => parseFrom r rest t.stop
    | none => .error (.near t)
  | .illegal i => .error (.illegal i)
  | .finished => r.result?.elim (.error .unexpectedEnd) .ok
termination_by cs.length

def parse (text : String) : Except ParseError Formula := parseFrom {} text.toList 0

/-! ### Reading a finished scan -/

/-- Go on after all the tokens of a scan: a token out of place comes first, then a character that
begins no token, then the end of the text. -/
def Scan.formulaAfter (r : Reader) (s : Scan) : Except ParseError Formula :=
  match r.read s.tokens with
  | .error t => .error (.near t)
  | .ok r =>
    match s.illegal with
    | some i => .error (.illegal i)
    | none => r.result?.elim (.error .unexpectedEnd) .ok

def Scan.formula (s : Scan) : Except ParseError Formula := s.formulaAfter {}

theorem parseFrom_eq (r : Reader) (cs : List Char) (position : Nat) :
    parseFrom r cs position = (scanFrom cs position []).formulaAfter r := by
  induction hn : cs.length using Nat.strongRecOn generalizing r cs position with
  | ind n ih =>
    subst hn
    have hscan := scanFrom_eq_pull cs position
    rw [parseFrom]
    split
    · next t rest h =>
      rw [h] at hscan
      rw [hscan, Scan.formulaAfter, Reader.read_cons]
      dsimp only
      cases r.step t with
      | none => rfl
      | some r => exact ih _ (length_lt_of_pull h) r rest t.stop rfl
    · next i h =>
      rw [h] at hscan
      rw [hscan]
      rfl
    · next h =>
      rw [h] at hscan
      rw [hscan]
      rfl

/-- **Tokens may be pulled one at a time or all at once.** The first error that is met comes from
the earliest place that has one. -/
theorem parse_eq_formula (text : String) : parse text = (scan text).formula :=
  parseFrom_eq {} text.toList 0

end Clausal.Text
