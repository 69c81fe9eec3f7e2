import Clausal.Proofs.Text.Reading

/-!
Reading back what was rendered.

The text of a formula is the text of its chunks, and if its variables are named by words other than
the two constants, the lexer gives back their tokens. **Main result**: `parse_render`. The formula
is read back without its wrappers, or the parser stops at the first empty parentheses.
-/

namespace Clausal.Text

open Chunk

/-- A word that is not one of the constants. -/
def IsName (x : String) : Prop := IsWord x.toList ∧ x ≠ "true" ∧ x ≠ "false"

instance : DecidablePred IsName := fun x =>
  inferInstanceAs (Decidable (IsWord x.toList ∧ x ≠ "true" ∧ x ≠ "false"))

/-! ### The text of the chunks -/

lemma written_intercalate (sep : List Chunk) (parts : List (List Chunk)) :
    written (sep.intercalate parts) = (written sep).intercalate (parts.map written) := by
  induction parts with
  | nil => rfl
  | cons p parts ih =>
    cases parts with
    | nil => simp
    | cons q parts =>
      rw [List.intercalate_cons_cons, written_append, written_append, ih]
      simp only [List.map_cons, List.intercalate_cons_cons]

lemma Link.toList_group (l : Link) {texts : List String} {parts : List (List Chunk)}
    (h : texts.map String.toList = parts.map written) :
    (Rendering.group (.singleton l.symbol) texts).toList = written (l.group parts) := by
  have hsep : (" " ++ String.singleton l.symbol ++ " ").toList = written l.between := by
    simp [between, chars, written]
  rw [Rendering.group, String.toList_append, String.toList_append, String.toList_intercalate, hsep,
    h, ← written_intercalate, group, written_cons, written_append]
  rfl

lemma map_toList_texts {es : List Formula}
    (h : ∀ e ∈ es, (Rendering.text e).toList = written (chunks e)) :
    (Rendering.texts es).map String.toList = (chunksAll es).map written := by
  rw [Rendering.texts_eq_map, chunksAll_eq_map, List.map_map, List.map_map]
  exact List.map_congr_left h

lemma toList_text (e : Formula) : (Rendering.text e).toList = written (chunks e) := by
  induction e with
  | const b => simp [Rendering.text, chunks, chars]
  | var x => simp [Rendering.text, chunks, chars]
  | neg e ih => rw [Rendering.text, String.toList_append, ih]; rfl
  | conj es ih => exact Link.toList_group .conj (map_toList_texts ih)
  | disj es ih => exact Link.toList_group .disj (map_toList_texts ih)
  | imp a b iha ihb => exact Link.toList_group .imp (by simp [iha, ihb])
  | iff a b iha ihb => exact Link.toList_group .iff (by simp [iha, ihb])

/-! ### Scanning the text -/

lemma Link.spaced_between (l : Link) {cs ds : List Chunk} (hcs : Spaced cs) (hds : Spaced ds) :
    Spaced (cs ++ (l.between ++ ds)) := by
  have hblank : Valid (.blank ' ') := .blank rfl
  have hnot : ¬IsWord (Chunk.blank ' ').chars := not_isWord_of_head rfl
  have hsymbol : (l.terminal, [l.symbol]) ∈ Terminal.spellings := by cases l <;> decide
  have hnot' : ¬IsWord (Chunk.token l.terminal [l.symbol]).chars :=
    not_isWord_of_head (by cases l <;> decide)
  exact hcs.append_cons hblank hnot (.cons (.operator hsymbol) hnot' (.cons hblank hnot hds))

lemma Link.spaced_group (l : Link) {parts : List (List Chunk)} (h : ∀ p ∈ parts, Spaced p) :
    Spaced (l.group parts) := by
  have hinside : Spaced (l.between.intercalate parts) := by
    induction parts with
    | nil => exact ⟨by simp, .nil⟩
    | cons p parts ih =>
      rw [List.forall_mem_cons] at h
      cases parts with
      | nil => simpa using h.1
      | cons q parts =>
        rw [List.intercalate_cons_cons, List.append_assoc]
        exact l.spaced_between h.1 (ih h.2)
  refine .cons (.operator (by decide)) (not_isWord_of_head rfl) ?_
  exact hinside.append_cons (.operator (by decide)) (not_isWord_of_head rfl) ⟨by simp, .nil⟩

lemma valid_word {t : Terminal} {w : List Char} (hw : IsWord w) (ht : Terminal.ofWord w = t) :
    Valid (.token t w) :=
  ht ▸ .word hw

lemma spaced_chunks {e : Formula} (h : ∀ x ∈ e.occurrences, IsName x) : Spaced (chunks e) := by
  induction e with
  | const b =>
    have hword : IsWord (Rendering.word b).toList := by cases b <;> decide
    exact .singleton (valid_word hword (by cases b <;> rfl))
  | var x =>
    obtain ⟨hword, htrue, hfalse⟩ := h x (by simp)
    refine .singleton (valid_word hword ?_)
    have htrue : x.toList ≠ ['t', 'r', 'u', 'e'] := fun hx => htrue (String.toList_inj.1 hx)
    have hfalse : x.toList ≠ ['f', 'a', 'l', 's', 'e'] := fun hx => hfalse (String.toList_inj.1 hx)
    rw [Terminal.ofWord, if_neg htrue, if_neg hfalse]
  | neg e ih =>
    exact .cons (.operator (by decide)) (not_isWord_of_head rfl) (ih (by simpa using h))
  | conj es ih =>
    rw [chunks, chunksAll_eq_map]
    refine Link.spaced_group .conj (List.forall_mem_map.2 fun c hc => ih c hc fun x hx => ?_)
    exact h x (Formula.mem_occurrences_of_operand hc hx)
  | disj es ih =>
    rw [chunks, chunksAll_eq_map]
    refine Link.spaced_group .disj (List.forall_mem_map.2 fun c hc => ih c hc fun x hx => ?_)
    exact h x (Formula.mem_occurrences_of_operand hc hx)
  | imp a b iha ihb =>
    rw [Formula.occurrences_imp, List.forall_mem_append] at h
    exact Link.spaced_group .imp (by simpa using ⟨iha h.1, ihb h.2⟩)
  | iff a b iha ihb =>
    rw [Formula.occurrences_iff, List.forall_mem_append] at h
    exact Link.spaced_group .iff (by simpa using ⟨iha h.1, ihb h.2⟩)

lemma scan_render {e : Formula} (h : ∀ x ∈ e.occurrences, IsName x) :
    scan e.render = ⟨tokensFrom 0 (chunks e), none⟩ := by
  rw [scan, Formula.render_eq_text, toList_text, scanFrom_written (spaced_chunks h)]

/-! ### The round trip -/

lemma parse_render_collapse {e : Formula} (h : ∀ x ∈ e.occurrences, IsName x)
    (harity : e.MinArity 1) : parse e.render = .ok e.collapse := by
  have hread : Reader.read {} (tokensFrom 0 (chunks e)) = .ok (Reader.supply {} [] e.collapse) :=
    denotes_chunks harity {} [] 0
  rw [parse_eq_formula, scan_render h, Scan.formula, Scan.formulaAfter, hread]
  rfl

/-- Empty parentheses are reported at the first place where they stand in the text. -/
lemma parse_render_empty {e : Formula} (h : ∀ x ∈ e.occurrences, IsName x)
    (harity : ¬e.MinArity 1) :
    ∃ before after, e.render.toList = before ++ '(' :: ')' :: after ∧
      ¬['(', ')'] <:+: before ++ ['('] ∧
      parse e.render = .error (.near ⟨.right, ")", before.length + 1⟩) := by
  obtain ⟨before, after, hchunks, hreads⟩ := stuck_chunks harity
  obtain ⟨frame, outer, hbefore⟩ := hreads {} []
  refine ⟨written before, written after, ?_, ?_, ?_⟩
  · rw [Formula.render_eq_text, toList_text, hchunks, written_append]
    rfl
  · -- the reader would not have come this far
    intro hinfix
    have hvalid : ∀ c ∈ before ++ [.token .left ['(']], c.Valid := by
      intro c hc
      refine (spaced_chunks h).valid c ?_
      rw [hchunks]
      rcases List.mem_append.1 hc with hc | hc
      · exact List.mem_append_left _ hc
      · simp [List.mem_singleton.1 hc]
    obtain ⟨xs, ys, heq⟩ := infix_of_written hvalid (by simpa [chars] using hinfix)
    have hleft : Reads ⟨frame, outer, none⟩ [.token .left ['(']] ⟨{}, frame :: outer, none⟩ :=
      .token fun _ => rfl
    have hall := hbefore.append hleft
    rw [← heq, List.append_assoc] at hall
    exact not_reads_empty xs ys hall
  · have hread : Reader.read {} (tokensFrom 0 (chunks e)) =
        .error ⟨.right, ")", (written before).length + 1⟩ := by
      rw [hchunks, tokensFrom_append, Reader.read_append, hbefore 0, Nat.zero_add]
      exact read_empty frame outer _ after
    rw [parse_eq_formula, scan_render h, Scan.formula, Scan.formulaAfter, hread]

/-- **What is rendered is read back.** If every conjunction and disjunction has an operand, the
text is read as the formula without its wrappers, and as the formula itself if it has none. If some
connective has no operand, the parser stops at the closing one of the first empty parentheses. -/
theorem parse_render (e : Formula) (h : ∀ x ∈ e.occurrences, IsName x) :
    (¬e.MinArity 1 → ∃ before after, e.render.toList = before ++ '(' :: ')' :: after ∧
      ¬['(', ')'] <:+: before ++ ['('] ∧
      parse e.render = .error (.near ⟨.right, ")", before.length + 1⟩)) ∧
    (e.MinArity 1 → parse e.render = .ok e.collapse) ∧
    (e.MinArity 2 → parse e.render = .ok e) := by
  refine ⟨parse_render_empty h, parse_render_collapse h, fun harity => ?_⟩
  have hone : e.MinArity 1 := harity.mono (by omega)
  rw [parse_render_collapse h hone, Formula.collapse_of_minArity harity]

/-- Two wrappers under a negation go, a conjunction inside another stays; the empty conjunction
is found behind an operand and a negation. -/
theorem parse_render_wrappers :
    (let e : Formula :=
      .imp (.neg (.conj [.disj [.imp (.var "p") (.var "_q1")]]))
        (.conj [.conj [.var "p", .const true], .disj [.var "trueish"]])
    (∀ x ∈ e.occurrences, IsName x) ∧ e.MinArity 1 ∧ parse e.render =
      .ok (.imp (.neg (.imp (.var "p") (.var "_q1")))
        (.conj [.conj [.var "p", .const true], .var "trueish"]))) ∧
    (let e : Formula := .disj [.var "p", .neg (.conj []), .disj []]
    (∀ x ∈ e.occurrences, IsName x) ∧ ¬e.MinArity 1 ∧
      ∃ before after, e.render.toList = before ++ '(' :: ')' :: after ∧
        ¬['(', ')'] <:+: before ++ ['('] ∧
        parse e.render = .error (.near ⟨.right, ")", before.length + 1⟩)) := by
  refine ⟨⟨by decide, by decide, ?_⟩, ⟨by decide, by decide, ?_⟩⟩
  · exact (parse_render _ (by decide)).2.1 (by decide)
  · exact (parse_render _ (by decide)).1 (by decide)

end Clausal.Text
