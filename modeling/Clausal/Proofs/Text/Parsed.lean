import Clausal.Proofs.Text.Grammar
import Clausal.Proofs.Text.Partition
import Clausal.Proofs.Text.RoundTrip

/-!
The formulas that come out of the parser.

A chain of one operand is the operand, so no production makes a conjunction or disjunction of fewer
than two; and a variable has its name from an identifier among the tokens, which is a word of the
text. These are the formulas that rendering can be undone for. **Main result**: what has been
parsed is rendered to a text that is parsed to the same formula.
-/

namespace Clausal.Text

open Chunk

/-! ### Tokens and the text -/

/-- A token is a valid chunk, and stands in the text at its position. -/
lemma token_of_mem_scan {text : String} {t : Token} (h : t ∈ (scan text).tokens) :
    (Chunk.token t.terminal t.spelling.toList).Valid ∧
      t.spelling.toList <+: text.toList.drop t.start :=
  valid_of_lexeme? ((scans_scan text).lexeme t h)

/-- An identifier is a word, and none of the constants. -/
lemma isName_of_ident {t : Token} (h : (Chunk.token t.terminal t.spelling.toList).Valid)
    (ht : t.terminal = .ident) : IsName t.spelling := by
  refine ⟨h.isWord (.inl ht), fun htrue => ?_, fun hfalse => ?_⟩
  · cases ht.symm.trans (h.constants.1.2 htrue)
  · cases ht.symm.trans (h.constants.2.2 hfalse)

/-! ### The values of phrases -/

/-- The formulas of a phrase: its value, or the operands of a chain. -/
def Category.formulas : (c : Category) → c.Value → List Formula
  | .disjuncts, es | .conjuncts, es => es
  | .start, e | .equivalence, e | .implication, e | .disjunction, e | .conjunction, e | .unary, e
  | .atom, e => [e]

/-- No wrappers, and names from the identifiers among the tokens. -/
structure Parsed (ts : List Token) (e : Formula) : Prop where
  minArity : e.MinArity 2
  named : ∀ x ∈ e.occurrences, ∃ t ∈ ts, t.terminal = .ident ∧ t.spelling = x

namespace Parsed

variable {ts us : List Token} {t : Token} {e : Formula}

lemma mono (h : Parsed ts e) (hsub : ts ⊆ us) : Parsed us e where
  minArity := h.minArity
  named x hx := by
    obtain ⟨t, ht, hident⟩ := h.named x hx
    exact ⟨t, hsub ht, hident⟩

lemma left (h : Parsed ts e) : Parsed (ts ++ t :: us) e :=
  h.mono (List.subset_append_left _ _)

lemma right (h : Parsed us e) : Parsed (ts ++ t :: us) e :=
  h.mono (List.subset_append_of_subset_right _ (List.subset_cons_self _ _))

lemma of_operands (hvar : e.kind ≠ .var)
    (harity : e.kind = .conj ∨ e.kind = .disj → 2 ≤ e.operands.length)
    (h : ∀ c ∈ e.operands, Parsed ts c) : Parsed ts e where
  minArity := Formula.every_iff.2 ⟨harity, fun c hc => (h c hc).minArity⟩
  named x hx := by
    rw [Formula.occurrences_of_ne_var hvar] at hx
    obtain ⟨c, hc, hx⟩ := List.mem_flatMap.1 hx
    exact (h c hc).named x hx

lemma const (b : Bool) : Parsed ts (.const b) :=
  of_operands (by simp [Formula.kind]) (by simp [Formula.kind]) (by simp [Formula.operands])

lemma binary {a b : Formula} (hkind : e.kind = .imp ∨ e.kind = .iff)
    (hoperands : e.operands = [a, b]) (ha : Parsed ts a) (hb : Parsed us b) :
    Parsed (ts ++ t :: us) e := by
  refine of_operands ?_ (fun _ => by simp [hoperands]) ?_
  · rcases hkind with hkind | hkind <;> simp [hkind]
  · simpa [hoperands] using ⟨ha.left, hb.right⟩

lemma unwrap {connect : List Formula → Formula} {es : List Formula}
    (hkind : (connect es).kind = .conj ∨ (connect es).kind = .disj)
    (hoperands : (connect es).operands = es) (hne : es ≠ []) (h : ∀ e ∈ es, Parsed ts e) :
    Parsed ts (Formula.unwrap connect es) := by
  by_cases hone : es.length = 1
  · obtain ⟨e, rfl⟩ := List.length_eq_one_iff.1 hone
    exact h e List.mem_cons_self
  · rw [Formula.unwrap_of_length hone]
    refine of_operands (by rcases hkind with hkind | hkind <;> simp [hkind]) (fun _ => ?_) ?_
    · have := List.length_pos_iff.2 hne
      rw [hoperands]
      omega
    · rwa [hoperands]

end Parsed

/-- At least one formula, and all of them parsed. -/
def ParsedAll (ts : List Token) (es : List Formula) : Prop := es ≠ [] ∧ ∀ e ∈ es, Parsed ts e

namespace ParsedAll

variable {ts us : List Token} {t : Token} {es : List Formula} {e : Formula}

@[simp] lemma singleton_iff : ParsedAll ts [e] ↔ Parsed ts e := by simp [ParsedAll]

lemma append (hes : ParsedAll ts es) (he : Parsed us e) :
    ParsedAll (ts ++ t :: us) (es ++ [e]) := by
  refine ⟨by simp, List.forall_mem_append.2 ⟨fun f hf => (hes.2 f hf).left, ?_⟩⟩
  exact List.forall_mem_singleton.2 he.right

end ParsedAll

/-- **The value of every phrase is parsed.** -/
theorem Derives.parsedAll {c : Category} {ts : List Token} {v : c.Value} (h : Derives c ts v) :
    ParsedAll ts (c.formulas v) := by
  -- a chain is never empty, so that one which is not a single operand has two
  induction h with
  | start _ ih => exact ih
  | iff _ _ _ iha ihb =>
    simp only [Category.formulas, ParsedAll.singleton_iff] at iha ihb ⊢
    exact .binary (.inr rfl) rfl iha ihb
  | implication _ ih => exact ih
  | imp _ _ _ iha ihb =>
    simp only [Category.formulas, ParsedAll.singleton_iff] at iha ihb ⊢
    exact .binary (.inl rfl) rfl iha ihb
  | disjunction _ ih => exact ih
  | disjuncts _ ih => exact ParsedAll.singleton_iff.2 (.unwrap (.inr rfl) rfl ih.1 ih.2)
  | disjunct _ ih => exact ih
  | disj _ _ _ ihes ihe => exact ihes.append (ParsedAll.singleton_iff.1 ihe)
  | conjuncts _ ih => exact ParsedAll.singleton_iff.2 (.unwrap (.inl rfl) rfl ih.1 ih.2)
  | conjunct _ ih => exact ih
  | conj _ _ _ ihes ihe => exact ihes.append (ParsedAll.singleton_iff.1 ihe)
  | neg _ _ ih =>
    simp only [Category.formulas, ParsedAll.singleton_iff] at ih ⊢
    refine .of_operands (by simp [Formula.kind]) (by simp [Formula.kind]) ?_
    exact List.forall_mem_singleton.2 (ih.mono (List.subset_cons_self _ _))
  | atom _ ih => exact ih
  | group _ _ _ ih =>
    simp only [Category.formulas, ParsedAll.singleton_iff] at ih ⊢
    exact ih.mono fun t ht => by simp [ht]
  | @ident t ht =>
    refine ParsedAll.singleton_iff.2 ⟨Formula.minArity_var _, fun x hx => ?_⟩
    obtain rfl : x = t.spelling := by simpa using hx
    exact ⟨t, List.mem_cons_self, ht, rfl⟩
  | verum _ => exact ParsedAll.singleton_iff.2 (.const true)
  | falsum _ => exact ParsedAll.singleton_iff.2 (.const false)

/-! ### Parsing what has been parsed -/

lemma parsed_of_parse {text : String} {e : Formula} (h : parse text = .ok e) :
    Parsed (scan text).tokens e := by
  rw [parse_eq_formula] at h
  obtain ⟨-, hread⟩ := Scan.formula_eq_ok_iff.1 h
  exact ParsedAll.singleton_iff.1 (read_iff_derives.1 hread).parsedAll

lemma isName_of_parse {text : String} {e : Formula} (h : parse text = .ok e) :
    ∀ x ∈ e.occurrences, IsName x := by
  intro x hx
  obtain ⟨t, ht, hident, rfl⟩ := (parsed_of_parse h).named x hx
  exact isName_of_ident (token_of_mem_scan ht).1 hident

lemma parse_render_of_minArity {e : Formula} (h : ∀ x ∈ e.occurrences, IsName x)
    (harity : e.MinArity 2) : parse e.render = .ok e := by
  rw [parse_render_collapse h (harity.mono (by omega)), Formula.collapse_of_minArity harity]

/-- **Rendering normalises what can be parsed.** A formula that has been parsed has at least two
operands wherever there may be any number, and variables named by identifiers of the text. It is
rendered to a text that is parsed to the same formula. -/
theorem parse_render_parse (text : String) (e : Formula) (h : parse text = .ok e) :
    e.MinArity 2 ∧
    (∀ x ∈ e.occurrences, IsName x ∧ ∃ t ∈ (scan text).tokens, t.terminal = .ident ∧
      t.spelling = x ∧ x.toList <+: text.toList.drop t.start) ∧
    parse e.render = .ok e := by
  have hparsed := parsed_of_parse h
  have hnames := isName_of_parse h
  refine ⟨hparsed.minArity, fun x hx => ⟨hnames x hx, ?_⟩, ?_⟩
  · obtain ⟨t, ht, hident, rfl⟩ := hparsed.named x hx
    exact ⟨t, ht, hident, rfl, (token_of_mem_scan ht).2⟩
  · exact parse_render_of_minArity hnames hparsed.minArity

/-- Parentheses and chains of one operand leave nothing behind; a name may begin like a constant. -/
theorem parse_render_parse_chains :
    let text := "((!(truely))) | (p&_9) & (p -> false)"
    let e : Formula := .disj [.neg (.var "truely"),
      .conj [.conj [.var "p", .var "_9"], .imp (.var "p") (.const false)]]
    parse text = .ok e ∧ e.MinArity 2 ∧
    (∀ x ∈ e.occurrences, IsName x ∧ ∃ t ∈ (scan text).tokens, t.terminal = .ident ∧
      t.spelling = x ∧ x.toList <+: text.toList.drop t.start) ∧
    parse e.render = .ok e := by
  intro text e
  have hparse : parse text = .ok e := by decide +kernel
  exact ⟨hparse, parse_render_parse text e hparse⟩

end Clausal.Text
