/-!
The tokens of formula text: terminals of the grammar, their fixed spellings, and the two classes
of characters that words and blanks are made of.
-/

namespace Clausal.Text

inductive Terminal where
  | verum
  | falsum
  | ident
  | neg
  | conj
  | disj
  | iff
  | imp
  | left
  | right
  deriving DecidableEq

namespace Terminal

def name : Terminal → String
  | verum => "TRUE"
  | falsum => "FALSE"
  | ident => "ID"
  | neg => "NOT"
  | conj => "AND"
  | disj => "OR"
  | iff => "EQUIV"
  | imp => "IMPLIES"
  | left => "LPAREN"
  | right => "RPAREN"

/-- The spellings of connectives and parentheses. None begins another. -/
def spellings : List (Terminal × List Char) :=
  [(iff, ['⇔']), (iff, ['<', '-', '>']), (iff, ['<', '=', '>']),
   (imp, ['⇒']), (imp, ['-', '>']), (imp, ['=', '>']),
   (neg, ['¬']), (neg, ['!']), (neg, ['~']),
   (conj, ['∧']), (conj, ['&']),
   (disj, ['∨']), (disj, ['|']),
   (left, ['(']), (right, [')'])]

/-- A word is one of the two constants or an identifier. -/
def ofWord (w : List Char) : Terminal :=
  if w = ['t', 'r', 'u', 'e'] then verum
  else if w = ['f', 'a', 'l', 's', 'e'] then falsum
  else ident

theorem spelling_ne_nil {p : Terminal × List Char} (h : p ∈ spellings) : p.2 ≠ [] := by
  revert p
  decide

end Terminal

/-- Space, tab, line feed and carriage return stand between tokens. -/
def isBlank (c : Char) : Bool := c == ' ' || c == '\t' || c == '\r' || c == '\n'

def isLetter (c : Char) : Bool := ('a' ≤ c && c ≤ 'z') || ('A' ≤ c && c ≤ 'Z') || c == '_'

def isDigit (c : Char) : Bool := '0' ≤ c && c ≤ '9'

/-- Words begin with a letter or an underscore and go on with these or digits, ASCII only. -/
def isWordChar (c : Char) : Bool := isLetter c || isDigit c

/-- A terminal as it is spelled at a position; positions count characters from 0. -/
structure Token where
  terminal : Terminal
  spelling : String
  start : Nat
  deriving DecidableEq

def Token.stop (t : Token) : Nat := t.start + t.spelling.length

structure IllegalCharacter where
  char : Char
  position : Nat
  deriving DecidableEq

def IllegalCharacter.message (i : IllegalCharacter) : String :=
  "Illegal character '" ++ i.char.toString ++ "' encountered at position " ++ i.position.repr

end Clausal.Text
