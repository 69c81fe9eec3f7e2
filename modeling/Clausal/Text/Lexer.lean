import Clausal.Text.Token

/-!
Splitting text into tokens. Blanks are skipped; a connective or parenthesis is read in any of its
spellings, a word as far as it goes; the scan ends at the first character with which no token
begins.
-/

namespace Clausal.Text

/-- The tokens of a text, and the character that stopped the scan, if one did. -/
structure Scan where
  tokens : List Token
  illegal : Option IllegalCharacter
  deriving DecidableEq

def operator? (cs : List Char) : Option (Terminal × List Char) :=
  Terminal.spellings.find? fun p => p.2.isPrefixOf cs

def word? : List Char → Option (Terminal × List Char)
  | [] => none
  | c :: cs =>
    if isLetter c then
      let w := c :: cs.takeWhile isWordChar
      some (.ofWord w, w)
    else none

/-- The terminal that the text begins with, and its spelling. -/
def lexeme? (cs : List Char) : Option (Terminal × List Char) :=
  match operator? cs with
  | some p => some p
  | none => word? cs

theorem word?_ne_nil {cs : List Char} {p : Terminal × List Char} (h : word? cs = some p) :
    p.2 ≠ [] := by
  cases cs with
  | nil => simp [word?] at h
  | cons c cs =>
    simp only [word?] at h
    split at h
    · cases h; simp
    · simp at h

theorem lexeme?_length_pos {cs s : List Char} {t : Terminal} (h : lexeme? cs = some (t, s)) :
    0 < s.length := by
  refine List.length_pos_iff.2 ?_
  simp only [lexeme?] at h
  split at h
  · next hop => cases h; exact Terminal.spelling_ne_nil (List.mem_of_find?_eq_some hop)
  · exact word?_ne_nil h

/-- Scan what is left of a text from the given position on, with the tokens so far, the newest
first. -/
def scanFrom (cs : List Char) (position : Nat) (seen : List Token) : Scan :=
  match cs with
  | [] => ⟨seen.reverse, none⟩
  | c :: rest =>
    if isBlank c then scanFrom rest (position + 1) seen
    else
      match h : lexeme? (c :: rest) with
      | none => ⟨seen.reverse, some ⟨c, position⟩⟩
      | some (t, s) =>
        have := lexeme?_length_pos h
        scanFrom ((c :: rest).drop s.length) (position + s.length)
          (⟨t, .ofList s, position⟩ :: seen)
termination_by cs.length

/-- The tokens seen before a scan stand before those it finds. -/
theorem scanFrom_eq (cs : List Char) (position : Nat) (seen : List Token) :
    scanFrom cs position seen =
      ⟨seen.reverse ++ (scanFrom cs position []).tokens, (scanFrom cs position []).illegal⟩ := by
  induction hn : cs.length using Nat.strongRecOn generalizing cs position seen with
  | ind n ih =>
    subst hn
    cases cs with
    | nil => simp [scanFrom]
    | cons c rest =>
      by_cases hb : isBlank c = true
      · rw [scanFrom, if_pos hb, scanFrom, if_pos hb]
        exact ih _ (by simp) _ _ _ rfl
      · rw [scanFrom, if_neg hb, scanFrom, if_neg hb]
        split
        · simp
        · next t s h =>
          have hlt : ((c :: rest).drop s.length).length < (c :: rest).length := by
            have := lexeme?_length_pos h
            simp only [List.length_drop, List.length_cons]
            omega
          rw [ih _ hlt _ _ (_ :: seen) rfl, ih _ hlt _ _ [_] rfl]
          simp

def scan (text : String) : Scan := scanFrom text.toList 0 []

/-! ### One token at a time -/

/-- What comes next in a text: a token, with the text behind it, a character with which no token
begins, or nothing. -/
inductive Pulled where
  | token (t : Token) (rest : List Char)
  | illegal (character : IllegalCharacter)
  | finished

def pull : List Char → Nat → Pulled
  | [], _ => .finished
  | c :: rest, position =>
    if isBlank c then pull rest (position + 1)
    else
      match lexeme? (c :: rest) with
      | none => .illegal ⟨c, position⟩
      | some (t, s) => .token ⟨t, .ofList s, position⟩ ((c :: rest).drop s.length)

theorem length_lt_of_pull {cs rest : List Char} {position : Nat} {t : Token}
    (h : pull cs position = .token t rest) : rest.length < cs.length := by
  induction cs generalizing position with
  | nil => cases h
  | cons c cs ih =>
    rw [pull] at h
    split at h
    · exact Nat.lt_succ_of_lt (ih h)
    · split at h
      · cases h
      · next s hs =>
        cases h
        have := lexeme?_length_pos hs
        rw [List.length_drop, List.length_cons]
        omega

/-- **A scan pulls all tokens**, up to the end or an illegal character. -/
theorem scanFrom_eq_pull (cs : List Char) (position : Nat) :
    scanFrom cs position [] = match pull cs position with
      | .token t rest =>
        ⟨t :: (scanFrom rest t.stop []).tokens, (scanFrom rest t.stop []).illegal⟩
      | .illegal i => ⟨[], some i⟩
      | .finished => ⟨[], none⟩ := by
  induction cs generalizing position with
  | nil => rw [scanFrom]; rfl
  | cons c cs ih =>
    rw [scanFrom, pull]
    by_cases hb : isBlank c = true
    · rw [if_pos hb, if_pos hb]
      exact ih _
    · rw [if_neg hb, if_neg hb]
      split
      · next h => simp only [h]; rfl
      · next t s h =>
        simp only [h]
        rw [scanFrom_eq]
        simp [Token.stop]

end Clausal.Text
