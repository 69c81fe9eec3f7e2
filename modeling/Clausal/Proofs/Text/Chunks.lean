import Clausal.Text.Lexer
import Mathlib.Data.List.Chain
import Mathlib.Tactic.Lemma

/-!
Text that is written token by token, with blanks in between.

A text is laid out as chunks: blanks, connectives and parentheses in any of their spellings, and
words. Two words must not touch, since they would be read as one. **Main result**: scanning such a
text gives back its tokens, each at its position.
-/

namespace Clausal.Text

/-! ### Characters -/

lemma isWordChar_of_isBlank {c : Char} (h : isBlank c) : isWordChar c = false := by
  simp only [isBlank, Bool.or_eq_true, beq_iff_eq] at h
  rcases h with ((rfl | rfl) | rfl) | rfl <;> decide

lemma isBlank_of_isLetter {c : Char} (h : isLetter c) : isBlank c = false := by
  by_contra hb
  have hword := isWordChar_of_isBlank (by simpa using hb)
  simp [isWordChar, h] at hword

namespace Terminal

/-- No spelling begins another. -/
lemma eq_of_spelling_prefix :
    ∀ p ∈ spellings, ∀ q ∈ spellings, p.2 <+: q.2 → p = q := by
  decide

/-- Connectives and parentheses begin with neither a blank nor a character of a word. -/
lemma head_spelling : ∀ p ∈ spellings, ∃ c cs, p.2 = c :: cs ∧ isBlank c = false ∧
    isWordChar c = false := by
  intro p hp
  have hall : ∀ p ∈ spellings, p.2.head?.all (fun c => !isBlank c && !isWordChar c) := by decide
  obtain ⟨c, cs, hcs⟩ := List.exists_cons_of_ne_nil (spelling_ne_nil hp)
  have h := hall p hp
  rw [hcs] at h
  simp only [List.head?_cons, Option.all_some, Bool.and_eq_true, Bool.not_eq_true'] at h
  exact ⟨c, cs, hcs, h.1, h.2⟩

end Terminal

/-- Letters and digits, a letter first. -/
def IsWord (w : List Char) : Prop := ∃ c cs, w = c :: cs ∧ isLetter c ∧ ∀ d ∈ cs, isWordChar d

instance : DecidablePred IsWord
  | [] => .isFalse (by simp [IsWord])
  | c :: cs => decidable_of_iff (isLetter c && cs.all isWordChar) (by simp [IsWord])

lemma IsWord.isWordChar {w : List Char} (h : IsWord w) {d : Char} (hd : d ∈ w) :
    isWordChar d := by
  obtain ⟨c, cs, rfl, hc, hcs⟩ := h
  rcases List.mem_cons.1 hd with rfl | hd
  · simp [Text.isWordChar, hc]
  · exact hcs d hd

/-! ### Chunks -/

/-- A piece of text: one blank, or a terminal as it is spelled. -/
inductive Chunk where
  | blank (c : Char)
  | token (t : Terminal) (s : List Char)

namespace Chunk

def chars : Chunk → List Char
  | blank c => [c]
  | token _ s => s

def written (cs : List Chunk) : List Char := cs.flatMap chars

/-- The tokens among the chunks, the text beginning at the given position. -/
def tokensFrom : Nat → List Chunk → List Token
  | _, [] => []
  | position, blank _ :: cs => tokensFrom (position + 1) cs
  | position, token t s :: cs => ⟨t, .ofList s, position⟩ :: tokensFrom (position + s.length) cs

/-- A chunk that is what it says: a blank, a spelling of the terminal, or a word. -/
inductive Valid : Chunk → Prop
  | blank {c : Char} : isBlank c → Valid (.blank c)
  | operator {t : Terminal} {s : List Char} : (t, s) ∈ Terminal.spellings → Valid (.token t s)
  | word {w : List Char} : IsWord w → Valid (.token (.ofWord w) w)

/-- The two are not words side by side. -/
def Apart (a b : Chunk) : Prop := ¬(IsWord a.chars ∧ IsWord b.chars)

@[simp] lemma written_nil : written [] = [] := rfl

@[simp] lemma written_cons (c : Chunk) (cs : List Chunk) :
    written (c :: cs) = c.chars ++ written cs := rfl

@[simp] lemma written_append (cs ds : List Chunk) : written (cs ++ ds) = written cs ++ written ds :=
  List.flatMap_append

lemma tokensFrom_append (position : Nat) (cs ds : List Chunk) :
    tokensFrom position (cs ++ ds) =
      tokensFrom position cs ++ tokensFrom (position + (written cs).length) ds := by
  induction cs generalizing position with
  | nil => rfl
  | cons c cs ih =>
    cases c with
    | blank c =>
      rw [List.cons_append, tokensFrom, tokensFrom, ih, written_cons, List.length_append, chars,
        List.length_singleton, Nat.add_assoc]
    | token t s =>
      rw [List.cons_append, tokensFrom, tokensFrom, ih, written_cons, List.length_append, chars,
        Nat.add_assoc, List.cons_append]

lemma not_isWord_of_head {c : Char} {cs : List Char} (h : isWordChar c = false) :
    ¬IsWord (c :: cs) := by
  rintro ⟨d, ds, hcons, hd, -⟩
  obtain ⟨rfl, -⟩ := List.cons.inj hcons
  simp [isWordChar, hd] at h

lemma Valid.isWord_or_head {c : Chunk} (h : c.Valid) :
    IsWord c.chars ∨ ∃ d ds, c.chars = d :: ds ∧ isWordChar d = false := by
  cases h with
  | blank hb => exact .inr ⟨_, [], rfl, isWordChar_of_isBlank hb⟩
  | operator hs =>
    obtain ⟨d, ds, hcons, -, hd⟩ := Terminal.head_spelling _ hs
    exact .inr ⟨d, ds, hcons, hd⟩
  | word hw => exact .inl hw

lemma Valid.chars_ne_nil {c : Chunk} (h : c.Valid) : c.chars ≠ [] := by
  rcases h.isWord_or_head with ⟨d, ds, hcons, -⟩ | ⟨d, ds, hcons, -⟩ <;> simp [hcons]

/-- Valid chunks, words apart. -/
structure Spaced (cs : List Chunk) : Prop where
  valid : ∀ c ∈ cs, c.Valid
  apart : cs.IsChain Apart

namespace Spaced

lemma tail {c : Chunk} {cs : List Chunk} (h : Spaced (c :: cs)) : Spaced cs where
  valid := (List.forall_mem_cons.1 h.valid).2
  apart := h.apart.tail

lemma singleton {c : Chunk} (hc : c.Valid) : Spaced [c] where
  valid := List.forall_mem_singleton.2 hc
  apart := .singleton c

/-- Anything may stand on both sides of a chunk that is no word. -/
lemma append_cons {c : Chunk} {cs ds : List Chunk} (hcs : Spaced cs) (hc : c.Valid)
    (hword : ¬IsWord c.chars) (hds : Spaced ds) : Spaced (cs ++ c :: ds) where
  valid := List.forall_mem_append.2 ⟨hcs.valid, List.forall_mem_cons.2 ⟨hc, hds.valid⟩⟩
  apart := by
    refine hcs.apart.append (List.isChain_cons.2 ⟨fun d _ h => hword h.1, hds.apart⟩) ?_
    rintro a - b hb h
    obtain rfl : c = b := by simpa using hb
    exact hword h.2

lemma cons {c : Chunk} {cs : List Chunk} (hc : c.Valid) (hword : ¬IsWord c.chars)
    (hcs : Spaced cs) : Spaced (c :: cs) :=
  append_cons ⟨by simp, .nil⟩ hc hword hcs

end Spaced

/-! ### Scanning -/

lemma operator?_of_spelling {t : Terminal} {s : List Char} (h : (t, s) ∈ Terminal.spellings)
    (rest : List Char) : operator? (s ++ rest) = some (t, s) := by
  have hprefix : s.isPrefixOf (s ++ rest) :=
    List.isPrefixOf_iff_prefix.2 (List.prefix_append s rest)
  have hsome : (operator? (s ++ rest)).isSome :=
    List.find?_isSome.2 ⟨(t, s), h, hprefix⟩
  obtain ⟨p, hp⟩ := Option.isSome_iff_exists.1 hsome
  have hmem : p ∈ Terminal.spellings := List.mem_of_find?_eq_some hp
  have hpre : p.2 <+: s ++ rest := by
    unfold operator? at hp
    have hfound := List.find?_some hp
    exact List.isPrefixOf_iff_prefix.1 hfound
  -- both are beginnings of the text, so one begins the other
  rcases List.prefix_or_prefix_of_prefix hpre (List.prefix_append s rest) with hps | hsp
  · rw [hp, Terminal.eq_of_spelling_prefix p hmem (t, s) h hps]
  · rw [hp, ← Terminal.eq_of_spelling_prefix (t, s) h p hmem hsp]

lemma operator?_of_isLetter {c : Char} (h : isLetter c) (rest : List Char) :
    operator? (c :: rest) = none := by
  refine List.find?_eq_none.2 fun p hp hpre => ?_
  obtain ⟨d, ds, hcons, -, hd⟩ := Terminal.head_spelling p hp
  rw [hcons, List.isPrefixOf_cons_cons, Bool.and_eq_true, beq_iff_eq] at hpre
  rw [hpre.1, isWordChar, h] at hd
  cases hd

lemma lexeme?_of_isWord {w rest : List Char} (hw : IsWord w)
    (hrest : ∀ d ∈ rest.head?, isWordChar d = false) :
    lexeme? (w ++ rest) = some (.ofWord w, w) := by
  obtain ⟨c, cs, rfl, hc, hcs⟩ := hw
  have htake : (cs ++ rest).takeWhile isWordChar = cs := by
    rw [List.takeWhile_append_of_pos hcs]
    cases rest with
    | nil => simp
    | cons d ds => simp [hrest d (by simp)]
  rw [lexeme?, List.cons_append, operator?_of_isLetter hc]
  simp only [word?, hc, if_true, htake]

lemma scanFrom_of_lexeme? {t : Terminal} {c : Char} {s rest : List Char} (hc : isBlank c = false)
    (h : lexeme? (c :: s ++ rest) = some (t, c :: s)) (position : Nat) (seen : List Token) :
    scanFrom (c :: s ++ rest) position seen =
      scanFrom rest (position + (c :: s).length) (⟨t, .ofList (c :: s), position⟩ :: seen) := by
  rw [List.cons_append] at h ⊢
  rw [scanFrom, if_neg (by simp [hc])]
  split
  · next hnone => cases h.symm.trans hnone
  · next t' s' hsome =>
    obtain ⟨rfl, rfl⟩ := Prod.mk.inj (Option.some.inj (h.symm.trans hsome))
    have hdrop : (c :: (s ++ rest)).drop (c :: s).length = rest := List.drop_left
    simp only [hdrop]

/-- Every valid chunk but a blank is scanned as one token, unless it is a word that goes on. -/
lemma Valid.scanFrom_token {t : Terminal} {s rest : List Char} (h : (token t s).Valid)
    (hrest : IsWord s → ∀ d ∈ rest.head?, isWordChar d = false) (position : Nat)
    (seen : List Token) :
    scanFrom (s ++ rest) position seen =
      scanFrom rest (position + s.length) (⟨t, .ofList s, position⟩ :: seen) := by
  cases h with
  | operator hs =>
    obtain ⟨c, cs, rfl, hc, -⟩ := Terminal.head_spelling _ hs
    refine scanFrom_of_lexeme? hc ?_ position seen
    rw [lexeme?, operator?_of_spelling hs]
  | word hw =>
    have hlex := lexeme?_of_isWord hw (hrest hw)
    obtain ⟨c, cs, rfl, hc, -⟩ := hw
    exact scanFrom_of_lexeme? (isBlank_of_isLetter hc) hlex position seen

/-- **Scanning gives back the tokens** of a text laid out in valid chunks, words apart. -/
theorem scanFrom_written {cs : List Chunk} (h : Spaced cs) (position : Nat) :
    scanFrom (written cs) position [] = ⟨tokensFrom position cs, none⟩ := by
  induction cs generalizing position with
  | nil => simp [scanFrom, tokensFrom]
  | cons c cs ih =>
    have hvalid : c.Valid := h.valid c List.mem_cons_self
    have ih := ih h.tail
    cases c with
    | blank b =>
      cases hvalid with
      | blank hb =>
        show scanFrom (b :: written cs) position [] = ⟨tokensFrom (position + 1) cs, none⟩
        rw [scanFrom, if_pos hb, ih]
    | token t s =>
      have hrest : IsWord s → ∀ d ∈ (written cs).head?, isWordChar d = false := by
        intro hs d hd
        rcases cs with _ | ⟨c, cs⟩
        · simp at hd
        · have hne : ¬IsWord c.chars := fun hw => (List.isChain_cons_cons.1 h.apart).1 ⟨hs, hw⟩
          obtain ⟨d', ds, hcons, hd'⟩ :=
            (h.tail.valid c List.mem_cons_self).isWord_or_head.resolve_left hne
          rw [written_cons, hcons] at hd
          obtain rfl : d' = d := by simpa using hd
          exact hd'
      rw [written_cons, chars, hvalid.scanFrom_token hrest, scanFrom_eq, ih]
      rfl

lemma valid_of_lexeme? {cs s : List Char} {t : Terminal} (h : lexeme? cs = some (t, s)) :
    (token t s).Valid ∧ s <+: cs := by
  unfold lexeme? at h
  split at h
  · next p hop =>
    obtain rfl := Option.some.inj h
    unfold operator? at hop
    have hfound := List.find?_some hop
    exact ⟨.operator (List.mem_of_find?_eq_some hop), List.isPrefixOf_iff_prefix.1 hfound⟩
  · cases cs with
    | nil => cases h
    | cons c cs =>
      rw [word?] at h
      split at h
      · next hc =>
        cases h
        refine ⟨.word ⟨c, _, rfl, hc, List.all_eq_true.1 List.all_takeWhile⟩, ?_⟩
        exact List.cons_prefix_cons.2 ⟨rfl, List.takeWhile_prefix _⟩
      · cases h

/-! ### Empty parentheses -/

/-- A character that is found in one spelling only, and there alone, is that chunk. -/
lemma Valid.eq_token {c : Chunk} (h : c.Valid) {t : Terminal} {d : Char} (hd : d ∈ c.chars)
    (hblank : isBlank d = false) (hword : isWordChar d = false)
    (honly : ∀ p ∈ Terminal.spellings, d ∈ p.2 → p = (t, [d])) : c = .token t [d] := by
  cases h with
  | blank hb =>
    rw [chars, List.mem_singleton] at hd
    rw [hd, hb] at hblank
    cases hblank
  | operator hs =>
    obtain ⟨rfl, rfl⟩ := Prod.mk.inj (honly _ hs hd)
    rfl
  | word hw =>
    have := hw.isWordChar hd
    rw [hword] at this
    cases this

lemma infix_of_append {s t : List Char} (hs : '(' ∉ s) (h : ['(', ')'] <:+: s ++ t) :
    ['(', ')'] <:+: t := by
  induction s with
  | nil => exact h
  | cons c s ih =>
    rw [List.mem_cons, not_or] at hs
    rcases List.infix_cons_iff.1 h with hpre | hinf
    · exact absurd (List.cons_prefix_cons.1 hpre).1 hs.1
    · exact ih hs.2 hinf

/-- Parentheses that touch in the text are neighbours among the chunks. -/
lemma infix_of_written {cs : List Chunk} (hvalid : ∀ c ∈ cs, c.Valid)
    (h : ['(', ')'] <:+: written cs) : [token .left ['('], token .right [')']] <:+: cs := by
  induction cs with
  | nil => simp at h
  | cons c cs ih =>
    rw [List.forall_mem_cons] at hvalid
    by_cases hc : '(' ∈ c.chars
    · obtain rfl := hvalid.1.eq_token (t := .left) hc rfl rfl (by decide)
      rcases List.infix_cons_iff.1 h with hpre | hinf
      · -- the closing parenthesis begins the next chunk
        have hright : [')'] <+: written cs := (List.cons_prefix_cons.1 hpre).2
        rcases cs with _ | ⟨c, cs⟩
        · simp at hright
        · have hc : c.Valid := hvalid.2 c List.mem_cons_self
          obtain ⟨d, ds, hcons⟩ := List.exists_cons_of_ne_nil hc.chars_ne_nil
          rw [written_cons, hcons, List.cons_append] at hright
          obtain rfl := (List.cons_prefix_cons.1 hright).1
          have hmem : ')' ∈ c.chars := by simp [hcons]
          obtain rfl := hc.eq_token (t := .right) hmem rfl rfl (by decide)
          exact (List.prefix_append [_, _] cs).isInfix
      · exact List.infix_cons (ih hvalid.2 hinf)
    · exact List.infix_cons (ih hvalid.2 (infix_of_append hc h))

end Chunk

end Clausal.Text
