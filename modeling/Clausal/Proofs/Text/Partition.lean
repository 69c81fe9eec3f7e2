import Clausal.Proofs.Text.Chunks

/-!
Where the tokens of a text stand, and what stands between them.

Every step of the scan either passes over a blank or takes the lexeme at its position, so the
positions that it has passed are those of its tokens and of blanks. **Main result**: the tokens are
pieces of the text, in order and apart; all else up to the end of the scan is blank; the scan ends
before the end of the text exactly where no token can begin; and words are taken whole.
-/

namespace Clausal.Text

open Chunk

/-! ### Lexemes -/

lemma lexeme?_eq_none_iff {cs : List Char} :
    lexeme? cs = none ↔ ∀ t w, (Chunk.token t w).Valid → ¬w <+: cs := by
  constructor
  · intro h t w hvalid hprefix
    obtain ⟨rest, rfl⟩ := hprefix
    cases hvalid with
    | operator hs =>
      rw [lexeme?, operator?_of_spelling hs] at h
      cases h
    | word hw =>
      obtain ⟨c, cs, rfl, hc, -⟩ := hw
      rw [lexeme?, List.cons_append, operator?_of_isLetter hc] at h
      simp [word?, hc] at h
  · intro h
    cases hlex : lexeme? cs with
    | none => rfl
    | some p =>
      obtain ⟨hvalid, hprefix⟩ := valid_of_lexeme? hlex
      exact absurd hprefix (h p.1 p.2 hvalid)

/-- A word is taken as far as it goes. -/
lemma isWordChar_behind_word {cs w : List Char} {t : Terminal} (h : lexeme? cs = some (t, w))
    (hw : IsWord w) {c : Char} (hc : cs[w.length]? = some c) : isWordChar c = false := by
  obtain ⟨-, rest, rfl⟩ := valid_of_lexeme? h
  obtain ⟨d, ds, rfl, hd, hds⟩ := hw
  rw [lexeme?, List.cons_append, operator?_of_isLetter hd] at h
  simp only [word?, hd, if_true, Option.some.injEq, Prod.mk.injEq, List.cons.injEq, true_and] at h
  have htake : rest.takeWhile isWordChar = [] := by
    have hds' := h.2
    rwa [List.takeWhile_append_of_pos hds, List.append_right_eq_self] at hds'
  cases rest with
  | nil => simp at hc
  | cons r rs =>
    obtain rfl : r = c := by simpa using hc
    by_contra hr
    rw [List.takeWhile_cons_of_pos (by simpa using hr)] at htake
    cases htake

/-! ### The scan along the text -/

def Scan.reach (text : List Char) (s : Scan) : Nat :=
  s.illegal.elim text.length IllegalCharacter.position

/-- The scan reads the text from the given position on. -/
inductive Scans (text : List Char) : Nat → Scan → Prop
  | done {p : Nat} : text.drop p = [] → Scans text p ⟨[], none⟩
  | blank {p : Nat} {c : Char} {s : Scan} : text[p]? = some c → isBlank c → Scans text (p + 1) s →
      Scans text p s
  | illegal {p : Nat} {c : Char} : text[p]? = some c → isBlank c = false →
      lexeme? (text.drop p) = none → Scans text p ⟨[], some ⟨c, p⟩⟩
  | token {p : Nat} {t : Terminal} {w : List Char} {s : Scan} :
      lexeme? (text.drop p) = some (t, w) → Scans text (p + w.length) s →
      Scans text p ⟨⟨t, .ofList w, p⟩ :: s.tokens, s.illegal⟩

lemma getElem?_of_drop {text rest : List Char} {p : Nat} {c : Char} (h : text.drop p = c :: rest) :
    text[p]? = some c := by
  rw [← Nat.add_zero p, ← List.getElem?_drop, h]
  rfl

lemma exists_scans {text cs : List Char} {p : Nat} (h : text.drop p = cs) (seen : List Token) :
    ∃ s, Scans text p s ∧ scanFrom cs p seen = ⟨seen.reverse ++ s.tokens, s.illegal⟩ := by
  fun_induction scanFrom cs p seen with
  | case1 p seen => exact ⟨_, .done h, by simp⟩
  | case2 p seen c rest hc ih =>
    have hrest : text.drop (p + 1) = rest := by
      rw [← List.drop_drop, h, List.drop_one, List.tail_cons]
    obtain ⟨s, hs, heq⟩ := ih hrest
    exact ⟨s, .blank (getElem?_of_drop h) hc hs, heq⟩
  | case3 p seen c rest hc hlex =>
    exact ⟨_, .illegal (getElem?_of_drop h) (by simpa using hc) (by rw [h, hlex]), by simp⟩
  | case4 p seen c rest hc t w hlex hpos ih =>
    have hrest : text.drop (p + w.length) = (c :: rest).drop w.length := by
      rw [← List.drop_drop, h]
    obtain ⟨s, hs, heq⟩ := ih hrest
    refine ⟨_, .token (by rw [h, hlex]) hs, ?_⟩
    rw [heq, List.reverse_cons, List.append_assoc, List.singleton_append]

lemma scans_scan (text : String) : Scans text.toList 0 (scan text) := by
  obtain ⟨s, hs, heq⟩ := exists_scans (List.drop_zero (l := text.toList)) []
  rw [List.reverse_nil, List.nil_append] at heq
  rwa [scan, heq]

namespace Scans

variable {text : List Char} {p : Nat} {s : Scan}

lemma lexeme (h : Scans text p s) : ∀ t ∈ s.tokens,
    lexeme? (text.drop t.start) = some (t.terminal, t.spelling.toList) := by
  induction h with
  | done _ => simp
  | blank _ _ _ ih => exact ih
  | illegal _ _ _ => simp
  | token hlex _ ih =>
    rw [List.forall_mem_cons]
    exact ⟨by rw [String.toList_ofList]; exact hlex, ih⟩

lemma le_start (h : Scans text p s) : ∀ t ∈ s.tokens, p ≤ t.start := by
  induction h with
  | done _ => simp
  | blank _ _ _ ih => exact fun t ht => (Nat.le_succ _).trans (ih t ht)
  | illegal _ _ _ => simp
  | token _ _ ih =>
    rw [List.forall_mem_cons]
    exact ⟨le_refl _, fun t ht => (Nat.le_add_right _ _).trans (ih t ht)⟩

lemma ordered (h : Scans text p s) : s.tokens.Pairwise fun a b => a.stop ≤ b.start := by
  induction h with
  | done _ => exact .nil
  | blank _ _ _ ih => exact ih
  | illegal _ _ _ => exact .nil
  | token _ hs ih =>
    refine List.pairwise_cons.2 ⟨fun t ht => ?_, ih⟩
    rw [Token.stop, String.length_ofList]
    exact hs.le_start t ht

lemma le_reach (h : Scans text p s) (hp : p ≤ text.length) : p ≤ s.reach text := by
  induction h with
  | done _ => exact hp
  | blank hc _ _ ih =>
    have := (List.getElem?_eq_some_iff.1 hc).1
    have := ih (by omega)
    omega
  | illegal _ _ _ => exact le_refl _
  | @token p t w s hlex _ ih =>
    have hlength := (valid_of_lexeme? hlex).2.length_le
    rw [List.length_drop] at hlength
    have := ih (by omega)
    change p ≤ s.reach text
    omega

lemma stop_le_reach (h : Scans text p s) : ∀ t ∈ s.tokens, t.stop ≤ s.reach text := by
  induction h with
  | done _ => simp
  | blank _ _ _ ih => exact ih
  | illegal _ _ _ => simp
  | token hlex hs ih =>
    refine List.forall_mem_cons.2 ⟨?_, ih⟩
    have hlength := (valid_of_lexeme? hlex).2.length_le
    have hpos := lexeme?_length_pos hlex
    rw [List.length_drop] at hlength
    rw [Token.stop, String.length_ofList]
    exact hs.le_reach (by omega)

lemma blank_of_passed (h : Scans text p s) {i : Nat} (hp : p ≤ i) (hi : i < s.reach text)
    (hout : ∀ t ∈ s.tokens, i < t.start ∨ t.stop ≤ i) :
    ∃ c, text[i]? = some c ∧ isBlank c := by
  induction h with
  | done hdrop =>
    have := List.drop_eq_nil_iff.1 hdrop
    simp only [Scan.reach, Option.elim_none] at hi
    omega
  | @blank p c s hc hb _ ih =>
    rcases Nat.eq_or_lt_of_le hp with rfl | hlt
    · exact ⟨c, hc, hb⟩
    · exact ih hlt hi hout
  | illegal _ _ _ =>
    simp only [Scan.reach, Option.elim_some] at hi
    omega
  | @token p t w s _ _ ih =>
    rw [List.forall_mem_cons] at hout
    obtain ⟨hfirst, hrest⟩ := hout
    have hbehind : i < p ∨ p + w.length ≤ i := by simpa [Token.stop] using hfirst
    exact ih (by omega) hi hrest

/-- The scan ends early at a character with which no lexeme begins. -/
lemma illegal_cases (h : Scans text p s) {c : Char} {i : Nat} (hs : s.illegal = some ⟨c, i⟩) :
    text[i]? = some c ∧ isBlank c = false ∧ lexeme? (text.drop i) = none := by
  induction h with
  | done _ => cases hs
  | blank _ _ _ ih => exact ih hs
  | illegal hc hb hlex =>
    cases hs
    exact ⟨hc, hb, hlex⟩
  | token _ _ ih => exact ih hs

/-- It is the first character behind the tokens that is not blank, and no other character is. -/
lemma illegal_iff (h : Scans text 0 s) {c : Char} {i : Nat} : s.illegal = some ⟨c, i⟩ ↔
    text[i]? = some c ∧ isBlank c = false ∧ (∀ t ∈ s.tokens, t.stop ≤ i) ∧
      (∀ j < i, (∀ t ∈ s.tokens, t.stop ≤ j) → ∃ d, text[j]? = some d ∧ isBlank d) ∧
      ∀ t w, (Chunk.token t w).Valid → ¬w <+: text.drop i := by
  have hbehind : ∀ j < s.reach text, (∀ t ∈ s.tokens, t.stop ≤ j) →
      ∃ d, text[j]? = some d ∧ isBlank d :=
    fun j hj hstop => h.blank_of_passed (Nat.zero_le j) hj fun t ht => .inr (hstop t ht)
  constructor
  · intro hs
    have hreach : s.reach text = i := by rw [Scan.reach, hs]; rfl
    obtain ⟨hc, hb, hlex⟩ := h.illegal_cases hs
    rw [hreach] at hbehind
    exact ⟨hc, hb, hreach ▸ h.stop_le_reach, hbehind, lexeme?_eq_none_iff.1 hlex⟩
  · rintro ⟨hc, hb, hstop, hfirst, -⟩
    -- a scan that goes further would have passed over the character
    have hle : s.reach text ≤ i := by
      by_contra hlt
      obtain ⟨d, hd, hblank⟩ := hbehind i (by omega) hstop
      cases hc.symm.trans hd
      simp [hb] at hblank
    rcases hs : s.illegal with _ | ⟨c', i'⟩
    · have hreach : s.reach text = text.length := by rw [Scan.reach, hs]; rfl
      have := (List.getElem?_eq_some_iff.1 hc).1
      omega
    · have hreach : s.reach text = i' := by rw [Scan.reach, hs]; rfl
      obtain ⟨hc', hb', -⟩ := h.illegal_cases hs
      -- and one that stops before it, at a character that is not blank either
      have hge : i ≤ i' := by
        by_contra hlt
        obtain ⟨d, hd, hblank⟩ := hfirst i' (by omega) (hreach ▸ h.stop_le_reach)
        cases hc'.symm.trans hd
        simp [hb'] at hblank
      obtain rfl : i = i' := by omega
      cases hc.symm.trans hc'
      rfl

lemma piece (h : Scans text p s) {t : Token} (ht : t ∈ s.tokens) :
    t.start < t.stop ∧ t.spelling.toList = text.extract t.start t.stop := by
  have hlex := h.lexeme t ht
  have hpos := lexeme?_length_pos hlex
  have hlength : t.stop - t.start = t.spelling.toList.length := by
    rw [Token.stop, String.length_toList]
    omega
  refine ⟨by omega, ?_⟩
  rw [List.extract_eq_take_drop, hlength]
  exact List.prefix_iff_eq_take.1 (valid_of_lexeme? hlex).2

end Scans

/-! ### The partition -/

structure Scan.Partitions (text : List Char) (s : Scan) : Prop where
  /-- A token is a piece of the text, and not empty. -/
  piece : ∀ t ∈ s.tokens, t.start < t.stop ∧ t.spelling.toList = text.extract t.start t.stop
  /-- It is spelled as its terminal is, or it is a word. -/
  spelled : ∀ t ∈ s.tokens, (Chunk.token t.terminal t.spelling.toList).Valid
  ordered : s.tokens.Pairwise fun a b => a.stop ≤ b.start
  reached : ∀ t ∈ s.tokens, t.stop ≤ s.reach text
  /-- Up to the end of the scan there are only blanks before, between and behind the tokens. -/
  blanks : ∀ i < s.reach text, (∀ t ∈ s.tokens, i < t.start ∨ t.stop ≤ i) →
    ∃ c, text[i]? = some c ∧ isBlank c
  /-- A character is illegal exactly if it is the first behind the tokens that is not blank, and no
  token is spelled from there on. -/
  illegal_iff : ∀ c i, s.illegal = some ⟨c, i⟩ ↔
    text[i]? = some c ∧ isBlank c = false ∧ (∀ t ∈ s.tokens, t.stop ≤ i) ∧
      (∀ j < i, (∀ t ∈ s.tokens, t.stop ≤ j) → ∃ d, text[j]? = some d ∧ isBlank d) ∧
      ∀ t w, (Chunk.token t w).Valid → ¬w <+: text.drop i
  /-- No character of a word follows a word. -/
  maximal : ∀ t ∈ s.tokens, t.terminal = .ident ∨ t.terminal = .verum ∨ t.terminal = .falsum →
    ∀ c, text[t.stop]? = some c → isWordChar c = false
  verum_iff : ∀ t ∈ s.tokens, t.terminal = .verum ↔ t.spelling = "true"
  falsum_iff : ∀ t ∈ s.tokens, t.terminal = .falsum ↔ t.spelling = "false"

lemma Chunk.Valid.constants {t : Terminal} {x : String} (h : (Chunk.token t x.toList).Valid) :
    (t = .verum ↔ x = "true") ∧ (t = .falsum ↔ x = "false") := by
  rw [← String.toList_inj, ← String.toList_inj]
  generalize x.toList = w at h ⊢
  cases h with
  | operator hs =>
    have hall : ∀ p ∈ Terminal.spellings, (p.1 = .verum ↔ p.2 = "true".toList) ∧
        (p.1 = .falsum ↔ p.2 = "false".toList) := by decide
    exact hall _ hs
  | word hw =>
    unfold Terminal.ofWord
    split
    · next h => subst h; decide
    · next htrue =>
      split
      · next h => subst h; decide
      · next hfalse => exact ⟨iff_of_false (by decide) htrue, iff_of_false (by decide) hfalse⟩

lemma Chunk.Valid.isWord {t : Terminal} {w : List Char} (h : (Chunk.token t w).Valid)
    (ht : t = .ident ∨ t = .verum ∨ t = .falsum) : IsWord w := by
  cases h with
  | operator hs =>
    have hall : ∀ p ∈ Terminal.spellings, ¬(p.1 = .ident ∨ p.1 = .verum ∨ p.1 = .falsum) := by
      decide
    exact absurd ht (hall _ hs)
  | word hw => exact hw

/-- **A scan partitions the text**: into tokens and blanks, up to its end or to the first character
that is neither. -/
theorem scan_partitions (text : String) : (scan text).Partitions text.toList := by
  have h := scans_scan text
  have hvalid : ∀ t ∈ (scan text).tokens, (Chunk.token t.terminal t.spelling.toList).Valid :=
    fun t ht => (valid_of_lexeme? (h.lexeme t ht)).1
  constructor
  case piece => exact fun t ht => h.piece ht
  case spelled => exact hvalid
  case ordered => exact h.ordered
  case reached => exact h.stop_le_reach
  case blanks => exact fun i hi hout => h.blank_of_passed (Nat.zero_le i) hi hout
  case illegal_iff => exact fun c i => h.illegal_iff
  case maximal =>
    intro t ht hword c hc
    refine isWordChar_behind_word (h.lexeme t ht) ((hvalid t ht).isWord hword) ?_
    rw [List.getElem?_drop, String.length_toList]
    exact hc
  case verum_iff => exact fun t ht => (hvalid t ht).constants.1
  case falsum_iff => exact fun t ht => (hvalid t ht).constants.2

-- the beginning of an arrow is no token
example : (scan "p <- true1").tokens = [⟨.ident, "p", 0⟩] ∧
    (scan "p <- true1").illegal = some ⟨'<', 2⟩ := by
  decide +kernel

end Clausal.Text
