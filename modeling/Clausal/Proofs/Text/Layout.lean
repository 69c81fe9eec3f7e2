import Clausal.Proofs.Text.Grammar
import Clausal.Proofs.Text.Partition

/-!
Texts with the same tokens.

A layout is a sequence of tokens, each in one of its spellings and with blanks in front of it; only
between two words there has to be one. No spelling goes on another and none begins a word, so that
tokens which touch are still read one by one. **Main result**: scanning a layout gives back its
tokens. So neither the blanks nor the choice among the spellings of a connective matter to the
formula that is parsed.
-/

namespace Clausal.Text

/-! ### Layouts -/

namespace Terminal

/-- The spellings of a terminal. A word that is not one of the two constants is an identifier. -/
def Accepts : Terminal → String → Prop
  | verum, x => x = "true"
  | falsum, x => x = "false"
  | ident, x => IsWord x.toList ∧ x ≠ "true" ∧ x ≠ "false"
  | neg, x => x = "¬" ∨ x = "!" ∨ x = "~"
  | conj, x => x = "∧" ∨ x = "&"
  | disj, x => x = "∨" ∨ x = "|"
  | iff, x => x = "⇔" ∨ x = "<->" ∨ x = "<=>"
  | imp, x => x = "⇒" ∨ x = "->" ∨ x = "=>"
  | left, x => x = "("
  | right, x => x = ")"

instance : (t : Terminal) → (x : String) → Decidable (t.Accepts x)
  | verum, _ | falsum, _ | left, _ | right, _ => inferInstanceAs (Decidable (_ = _))
  | ident, _ => inferInstanceAs (Decidable (_ ∧ _))
  | neg, _ | conj, _ | disj, _ | iff, _ | imp, _ => inferInstanceAs (Decidable (_ ∨ _))

/-- Identifiers and the two constants are words. -/
def isWord : Terminal → Bool
  | ident | verum | falsum => true
  | _ => false

lemma Accepts.valid {t : Terminal} {x : String} (h : t.Accepts x) :
    (Chunk.token t x.toList).Valid := by
  cases t with
  | verum => subst h; exact .word (w := "true".toList) (by decide)
  | falsum => subst h; exact .word (w := "false".toList) (by decide)
  | ident =>
    obtain ⟨hword, htrue, hfalse⟩ := h
    have htrue' : x.toList ≠ ['t', 'r', 'u', 'e'] := fun h => htrue (String.toList_inj.1 h)
    have hfalse' : x.toList ≠ ['f', 'a', 'l', 's', 'e'] := fun h => hfalse (String.toList_inj.1 h)
    have hident : ofWord x.toList = .ident := by rw [ofWord, if_neg htrue', if_neg hfalse']
    exact hident ▸ .word hword
  | neg => obtain rfl | rfl | rfl := h <;> exact .operator (by decide)
  | conj => obtain rfl | rfl := h <;> exact .operator (by decide)
  | disj => obtain rfl | rfl := h <;> exact .operator (by decide)
  | iff => obtain rfl | rfl | rfl := h <;> exact .operator (by decide)
  | imp => obtain rfl | rfl | rfl := h <;> exact .operator (by decide)
  | left => subst h; exact .operator (by decide)
  | right => subst h; exact .operator (by decide)

end Terminal

lemma Chunk.Valid.isWord_terminal {t : Terminal} {w : List Char} (h : (Chunk.token t w).Valid)
    (hw : IsWord w) : t.isWord = true := by
  cases h with
  | operator hs =>
    obtain ⟨c, cs, hcons, -, hc⟩ := Terminal.head_spelling _ hs
    dsimp only at hcons
    rw [hcons] at hw
    exact absurd hw (not_isWord_of_head hc)
  | word _ =>
    unfold Terminal.ofWord
    split
    · rfl
    · split <;> rfl

/-- A token in one of its spellings, with blanks in front of it. -/
structure Placed where
  gap : List Char
  terminal : Terminal
  spelling : String
  blank : gap.all isBlank := by decide
  accepted : terminal.Accepts spelling := by decide

namespace Placed

def content (p : Placed) : Terminal × String := (p.terminal, p.spelling)

def chars (p : Placed) : List Char := p.gap ++ p.spelling.toList

def chunks (p : Placed) : List Chunk :=
  p.gap.map .blank ++ [.token p.terminal p.spelling.toList]

/-- There is a blank between the two if both are words. -/
def Apart (p q : Placed) : Prop := p.terminal.isWord → q.terminal.isWord → q.gap ≠ []

instance (p q : Placed) : Decidable (p.Apart q) :=
  inferInstanceAs (Decidable (_ → _ → _))

end Placed

structure Layout where
  tokens : List Placed
  /-- Blanks behind the last token. -/
  rest : List Char
  blank : rest.all isBlank := by decide
  apart : tokens.IsChain Placed.Apart := by decide

namespace Layout

def text (l : Layout) : String := .ofList (l.tokens.flatMap Placed.chars ++ l.rest)

def contents (l : Layout) : List (Terminal × String) := l.tokens.map Placed.content

end Layout

/-! ### Scanning a layout -/

namespace Chunk

lemma written_blanks (g : List Char) : written (g.map .blank) = g := by
  induction g with
  | nil => rfl
  | cons c g ih => rw [List.map_cons, written_cons, ih]; rfl

lemma written_chunks (ps : List Placed) :
    written (ps.flatMap Placed.chunks) = ps.flatMap Placed.chars := by
  induction ps with
  | nil => rfl
  | cons p ps ih =>
    rw [List.flatMap_cons, written_append, ih, Placed.chunks, written_append, written_blanks]
    simp [chars, Placed.chars]

lemma not_isWord_of_isBlank {c : Char} (hc : isBlank c) : ¬IsWord (blank c).chars :=
  not_isWord_of_head (isWordChar_of_isBlank hc)

lemma Spaced.blanks {g : List Char} {cs : List Chunk} (hg : g.all isBlank) (hcs : Spaced cs) :
    Spaced (g.map .blank ++ cs) := by
  induction g with
  | nil => exact hcs
  | cons c g ih =>
    rw [List.all_cons, Bool.and_eq_true] at hg
    exact (ih hg.2).cons (.blank hg.1) (not_isWord_of_isBlank hg.1)

/-- A layout begins with a word only if its first token is one, with no blank in front of it. -/
lemma head_of_isWord {ps : List Placed} {rest : List Char} (hrest : rest.all isBlank)
    {d : Chunk} (hd : d ∈ (ps.flatMap Placed.chunks ++ rest.map Chunk.blank).head?)
    (hword : IsWord d.chars) : ∃ q ∈ ps.head?, q.terminal.isWord ∧ q.gap = [] := by
  rcases ps with _ | ⟨q, ps⟩
  · rcases rest with _ | ⟨c, rest⟩
    · cases hd
    · cases hd
      exact absurd hword (not_isWord_of_isBlank (List.all_eq_true.1 hrest c List.mem_cons_self))
  · refine ⟨q, rfl, ?_⟩
    rw [List.flatMap_cons, Placed.chunks] at hd
    rcases hgap : q.gap with _ | ⟨c, g⟩
    · rw [hgap] at hd
      cases hd
      exact ⟨q.accepted.valid.isWord_terminal hword, rfl⟩
    · have hblank := q.blank
      rw [hgap] at hd hblank
      cases hd
      exact absurd hword
        (not_isWord_of_isBlank (List.all_eq_true.1 hblank c List.mem_cons_self))

lemma spaced_placed {ps : List Placed} {rest : List Char} (hrest : rest.all isBlank)
    (hps : ps.IsChain Placed.Apart) : Spaced (ps.flatMap Placed.chunks ++ rest.map .blank) := by
  induction ps with
  | nil =>
    have hblanks : Spaced (rest.map .blank ++ []) := .blanks hrest ⟨by simp, .nil⟩
    rwa [List.append_nil] at hblanks
  | cons p ps ih =>
    have hvalid := p.accepted.valid
    have ih := ih hps.tail
    rw [List.flatMap_cons, Placed.chunks, List.append_assoc, List.append_assoc]
    refine .blanks p.blank ⟨List.forall_mem_cons.2 ⟨hvalid, ih.valid⟩, ?_⟩
    refine List.isChain_cons.2 ⟨fun d hd hwords => ?_, ih.apart⟩
    -- a word that touches this one would be the next token, but there is a blank in front of that
    obtain ⟨q, hq, hword, hgap⟩ := head_of_isWord hrest hd hwords.2
    exact (List.isChain_cons.1 hps).1 q hq (hvalid.isWord_terminal hwords.1) hword hgap

def content? : Chunk → Option (Terminal × String)
  | blank _ => none
  | token t s => some (t, .ofList s)

end Chunk

def Token.content (t : Token) : Terminal × String := (t.terminal, t.spelling)

lemma Chunk.map_content_tokensFrom (position : Nat) (cs : List Chunk) :
    (tokensFrom position cs).map Token.content = cs.filterMap content? := by
  induction cs generalizing position with
  | nil => rfl
  | cons c cs ih =>
    cases c with
    | blank c => exact ih _
    | token t s => rw [tokensFrom, List.map_cons, ih]; rfl

lemma Placed.filterMap_content? (p : Placed) :
    p.chunks.filterMap Chunk.content? = [p.content] := by
  simp [chunks, Chunk.content?, content, Function.comp_def]

namespace Layout

def chunks (l : Layout) : List Chunk := l.tokens.flatMap Placed.chunks ++ l.rest.map .blank

lemma scan_text (l : Layout) : scan l.text = ⟨Chunk.tokensFrom 0 l.chunks, none⟩ := by
  have hwritten : l.text.toList = Chunk.written l.chunks := by
    rw [text, String.toList_ofList, chunks, Chunk.written_append, Chunk.written_chunks,
      Chunk.written_blanks]
  rw [scan, hwritten]
  exact Chunk.scanFrom_written (Chunk.spaced_placed l.blank l.apart) 0

lemma filterMap_content? (l : Layout) : l.chunks.filterMap Chunk.content? = l.contents := by
  have hrest : (l.rest.map Chunk.blank).filterMap Chunk.content? = [] := by
    simp [Chunk.content?, Function.comp_def]
  rw [chunks, List.filterMap_append, hrest, List.append_nil, List.filterMap_flatMap, contents]
  simp only [Placed.filterMap_content?]
  exact List.flatMap_pure_eq_map Placed.content l.tokens

lemma contents_scan (l : Layout) : (scan l.text).tokens.map Token.content = l.contents := by
  rw [l.scan_text, Chunk.map_content_tokensFrom, l.filterMap_content?]

lemma illegal_scan (l : Layout) : (scan l.text).illegal = none := by
  rw [l.scan_text]

end Layout

/-! ### Reading tokens that are alike -/

/-- The two are the same token, but perhaps in different spellings of a connective. -/
def Alike (a b : Terminal × String) : Prop := a.1 = b.1 ∧ (a.1 = .ident → a.2 = b.2)

instance (a b : Terminal × String) : Decidable (Alike a b) := inferInstanceAs (Decidable (_ ∧ _))

namespace Reader

/-- Of a token the reader looks at the terminal, and at the spelling of an identifier. -/
lemma step_alike {t u : Token} (h : Alike t.content u.content) (r : Reader) :
    r.step t = r.step u := by
  obtain ⟨terminal, x, i⟩ := t
  obtain ⟨terminal', y, j⟩ := u
  obtain ⟨rfl, hident⟩ := h
  obtain ⟨frame, outer, operand⟩ := r
  cases operand with
  | some e => cases terminal <;> rfl
  | none =>
    cases terminal with
    | ident =>
      obtain rfl : x = y := hident rfl
      rfl
    | _ => rfl

lemma read_eq_ok_iff_alike {ts us : List Token}
    (h : List.Forall₂ Alike (ts.map Token.content) (us.map Token.content)) (r r' : Reader) :
    r.read ts = .ok r' ↔ r.read us = .ok r' := by
  rw [List.forall₂_map_left_iff, List.forall₂_map_right_iff] at h
  induction h generalizing r with
  | nil => rfl
  | @cons t u ts us htu _ ih =>
    rw [read_cons, read_cons, step_alike htu]
    cases r.step u with
    | none => simp
    | some r => exact ih r

end Reader

/-- **Scanning gives back the tokens of a layout**, with nothing left over. So two layouts of the
same tokens, with other blanks and other spellings of the connectives, are parsed to the same
formula, or both to none. -/
theorem scan_layout (l : Layout) :
    ((scan l.text).tokens.map Token.content = l.contents ∧ (scan l.text).illegal = none) ∧
    ∀ l' : Layout, List.Forall₂ Alike l.contents l'.contents →
      ∀ e, parse l.text = .ok e ↔ parse l'.text = .ok e := by
  refine ⟨⟨l.contents_scan, l.illegal_scan⟩, fun l' halike e => ?_⟩
  rw [← l.contents_scan, ← l'.contents_scan] at halike
  simp only [parse_eq_formula, Scan.formula_eq_ok_iff, l.illegal_scan, l'.illegal_scan,
    Reader.read_eq_ok_iff_alike halike]

/-- Arrows touch negations and words, and nothing of it is read as another token. -/
theorem scan_layout_touching :
    let l : Layout := .mk
      [.mk [] .left "(", .mk [] .neg "!", .mk [] .ident "true1", .mk [] .imp "=>", .mk [] .neg "~",
        .mk [] .verum "true", .mk [] .right ")", .mk [] .iff "<=>", .mk [] .ident "_"] []
    let l' : Layout := .mk
      [.mk [] .left "(", .mk [' '] .neg "¬", .mk [] .ident "true1", .mk [] .imp "->",
        .mk ['\n'] .neg "!", .mk [] .verum "true", .mk [] .right ")", .mk ['\t', ' '] .iff "⇔",
        .mk [] .ident "_"] ['\r']
    l.text = "(!true1=>~true)<=>_" ∧ l'.text = "( ¬true1->\n!true)\t ⇔_\r" ∧
    List.Forall₂ Alike l.contents l'.contents ∧
    parse l'.text = .ok (.iff (.imp (.neg (.var "true1")) (.neg (.const true))) (.var "_")) := by
  intro l l'
  have halike : List.Forall₂ Alike l.contents l'.contents := by
    decide
  refine ⟨rfl, rfl, halike, ((scan_layout l).2 l' halike _).1 ?_⟩
  decide +kernel

end Clausal.Text
