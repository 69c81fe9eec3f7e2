import Clausal.Text.Invisible

/-!
Names in quotation marks.

Single marks are used, or double marks if the name has a single mark and no double one. The mark in
use, the backslash and the characters that have no shape of their own are written as escapes.
-/

namespace Clausal.Text.Quoted

/-- The code point in base sixteen, with leading zeros up to the width. -/
def hex (width : Nat) (c : Char) : List Char :=
  let digits := Nat.toDigits 16 c.toNat
  List.replicate (width - digits.length) '0' ++ digits

/-- The shortest numeric escape that holds the code point. -/
def numeric (c : Char) : List Char :=
  if c.toNat < 0x100 then '\\' :: 'x' :: hex 2 c
  else if c.toNat < 0x10000 then '\\' :: 'u' :: hex 4 c
  else '\\' :: 'U' :: hex 8 c

def escape (mark c : Char) : List Char :=
  if c = mark ∨ c = '\\' then ['\\', c]
  else if c = '\n' then ['\\', 'n']
  else if c = '\r' then ['\\', 'r']
  else if c = '\t' then ['\\', 't']
  else if isInvisible c then numeric c
  else [c]

def mark (cs : List Char) : Char :=
  if cs.contains '\'' && !cs.contains '"' then '"' else '\''

def encode (cs : List Char) : List Char :=
  let m := mark cs
  m :: cs.flatMap (escape m) ++ [m]

end Clausal.Text.Quoted

namespace Clausal.Text

def quote (name : String) : String := .ofList (Quoted.encode name.toList)

end Clausal.Text
