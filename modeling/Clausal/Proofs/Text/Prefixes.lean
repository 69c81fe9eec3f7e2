import Clausal.Proofs.Text.Grammar
import Mathlib.Order.Bounds.Basic

/-!
Beginnings of sentences, and the place where a text goes wrong.

Wherever the reader stands, more tokens bring it to the end of a sentence: an operand, if one is
due, and a parenthesis for every open level. **Main results**: what it reads are the beginnings of
sentences (`viable_iff`), so it stops at the first token that no sentence has there. That token is
reported if there is one, then a character that begins no token, then the end of the text.
-/

namespace Clausal.Text

/-- The tokens begin a sentence of the grammar. -/
def Viable (ts : List Token) : Prop := ∃ us e, Derives .start (ts ++ us) e

/-! ### The reader reads the beginnings of sentences -/

namespace Reader

lemma exists_closing (frame : Frame) (outer : List Frame) (e : Formula) :
    ∃ us r e', read ⟨frame, outer, some e⟩ us = .ok r ∧ r.result? = some e' := by
  induction outer generalizing frame e with
  | nil => exact ⟨[], _, _, rfl, rfl⟩
  | cons f outer ih =>
    obtain ⟨us, r, e', hread, hresult⟩ :=
      ih { f with negations := 0 } (Nat.repeat .neg f.negations (frame.formula e))
    exact ⟨⟨.right, ")", 0⟩ :: us, r, e', hread, hresult⟩

lemma exists_completion (r : Reader) :
    ∃ us r' e, r.read us = .ok r' ∧ r'.result? = some e := by
  obtain ⟨frame, outer, operand⟩ := r
  cases operand with
  | some e => exact exists_closing frame outer e
  | none =>
    obtain ⟨us, r', e, hread, hresult⟩ := exists_closing { frame with negations := 0 } outer
      (Nat.repeat .neg frame.negations (.const true))
    exact ⟨⟨.verum, "true", 0⟩ :: us, r', e, hread, hresult⟩

end Reader

/-- **The viable prefix property**: the reader gets through the tokens if and only if they begin a
sentence. -/
theorem viable_iff {ts : List Token} : Viable ts ↔ ∃ r, Reader.read {} ts = .ok r := by
  constructor
  · rintro ⟨us, e, h⟩
    obtain ⟨r, hread, -⟩ := read_iff_derives.2 h
    rw [Reader.read_append] at hread
    cases hts : Reader.read {} ts with
    | ok r' => exact ⟨r', rfl⟩
    | error t =>
      rw [hts] at hread
      cases hread
  · rintro ⟨r, hread⟩
    obtain ⟨us, r', e, hus, hresult⟩ := r.exists_completion
    refine ⟨us, e, read_iff_derives.1 ⟨r', ?_, hresult⟩⟩
    rw [Reader.read_append_of_ok hread, hus]

instance : DecidablePred Viable := fun ts =>
  decidable_of_iff ((Reader.read {} ts).isOk = true) <| by
    rw [viable_iff]
    cases Reader.read {} ts <;> simp [Except.isOk, Except.toBool]

lemma viable_nil : Viable [] := viable_iff.2 ⟨{}, rfl⟩

lemma Viable.take {ts : List Token} (h : Viable ts) (k : Nat) : Viable (ts.take k) := by
  obtain ⟨us, e, hderives⟩ := h
  exact ⟨ts.drop k ++ us, e, by rwa [← List.append_assoc, List.take_append_drop]⟩

/-! ### The first token out of place -/

/-- The reader stops at the token that takes a beginning of a sentence to something else. -/
lemma read_eq_error {ts us : List Token} {t : Token} (h : Viable ts) (ht : ¬Viable (ts ++ [t])) :
    Reader.read {} (ts ++ t :: us) = .error t := by
  obtain ⟨r, hread⟩ := viable_iff.1 h
  have hstep : r.step t = none := by
    rw [viable_iff, Reader.read_append_of_ok hread, Reader.read_cons] at ht
    cases hr : r.step t with
    | none => rfl
    | some r' => exact absurd ⟨r', by rw [hr]; rfl⟩ ht
  rw [Reader.read_append_of_ok hread, Reader.read_cons, hstep]

/-- The token is the last one of the shortest beginning that begins no sentence. -/
lemma read_eq_error_of_isLeast {ts : List Token} {k : Nat}
    (h : IsLeast {k | ¬Viable (ts.take k)} k) :
    ∃ t, ts[k - 1]? = some t ∧ Reader.read {} ts = .error t := by
  obtain ⟨hk, hleast⟩ := h
  cases k with
  | zero => exact absurd viable_nil hk
  | succ i =>
    have hbefore : Viable (ts.take i) := by
      by_contra hi
      have : i + 1 ≤ i := hleast hi
      omega
    have hlt : i < ts.length := by
      by_contra hge
      have htake : ts.take (i + 1) = ts.take i := by
        rw [List.take_of_length_le (by omega), List.take_of_length_le (by omega)]
      exact hk (htake ▸ hbefore)
    have hlast : ¬Viable (ts.take i ++ [ts[i]]) := by
      rw [List.take_append_getElem hlt]
      exact hk
    refine ⟨ts[i], List.getElem?_eq_getElem hlt, ?_⟩
    calc Reader.read {} ts = Reader.read {} (ts.take i ++ ts[i] :: ts.drop (i + 1)) := by
          rw [← List.drop_eq_getElem_cons hlt, List.take_append_drop]
      _ = .error ts[i] := read_eq_error hbefore hlast

/-! ### What is reported -/

/-- **Errors are reported where they are.** If the tokens of a text stop beginning a sentence, the
error is the first token at which they do; the characters behind it do not matter. Otherwise it is
the character that ended the scan, or the end of the text. -/
theorem parse_error_place (text : String) :
    (∀ k, IsLeast {k | ¬Viable ((scan text).tokens.take k)} k →
      ∃ t, (scan text).tokens[k - 1]? = some t ∧ parse text = .error (.near t) ∧
        (ParseError.near t).message = "Syntax error near '" ++ t.spelling ++ "' (type: " ++
          t.terminal.name ++ ") at line 1, position " ++ t.start.repr) ∧
    ((∀ k, Viable ((scan text).tokens.take k)) →
      (∀ c i, (scan text).illegal = some ⟨c, i⟩ → parse text = .error (.illegal ⟨c, i⟩) ∧
        (ParseError.illegal ⟨c, i⟩).message = "Parse failed: Illegal character '" ++ c.toString ++
          "' encountered at position " ++ i.repr) ∧
      ((scan text).illegal = none → (∀ e, parse text ≠ .ok e) →
        parse text = .error .unexpectedEnd ∧
        ParseError.unexpectedEnd.message = "Syntax error: Unexpected end of formula")) := by
  refine ⟨fun k hk => ?_, fun hviable => ?_⟩
  · obtain ⟨t, hget, hread⟩ := read_eq_error_of_isLeast hk
    exact ⟨t, hget, (parse_eq_formula text).trans (Scan.formula_of_read_error hread), rfl⟩
  · have hall : Viable (scan text).tokens := by
      simpa using hviable (scan text).tokens.length
    obtain ⟨r, hread⟩ := viable_iff.1 hall
    refine ⟨fun c i hillegal => ⟨?_, rfl⟩, ?_⟩
    · exact (parse_eq_formula text).trans (Scan.formula_of_illegal hread hillegal)
    intro hillegal hfails
    refine ⟨?_, rfl⟩
    have hformula : parse text = r.result?.elim (.error .unexpectedEnd) .ok :=
      (parse_eq_formula text).trans (Scan.formula_of_legal hread hillegal)
    cases hresult : r.result? with
    | none => rwa [hresult] at hformula
    | some e =>
      rw [hresult] at hformula
      exact absurd hformula (hfails e)

/-- A token out of place is reported although an illegal character stands behind it; the second
text has that character only, and the third ends inside a parenthesis. -/
theorem parse_error_place_order :
    (IsLeast {k | ¬Viable ((scan "(p q) $").tokens.take k)} 3 ∧
      (scan "(p q) $").illegal = some ⟨'$', 6⟩ ∧
      ∃ t, (scan "(p q) $").tokens[2]? = some t ∧ parse "(p q) $" = .error (.near t)) ∧
    ((∀ k, Viable ((scan "(p & $) q").tokens.take k)) ∧
      (scan "(p & $) q").illegal = some ⟨'$', 5⟩ ∧
      parse "(p & $) q" = .error (.illegal ⟨'$', 5⟩)) ∧
    ((∀ k, Viable ((scan "(p & q").tokens.take k)) ∧ (scan "(p & q").illegal = none ∧
      (∀ e, parse "(p & q" ≠ .ok e) ∧ parse "(p & q" = .error .unexpectedEnd) := by
  have hleast : IsLeast {k | ¬Viable ((scan "(p q) $").tokens.take k)} 3 := by
    have hbefore : ∀ k < 3, Viable ((scan "(p q) $").tokens.take k) := by decide +kernel
    have hthree : ¬Viable ((scan "(p q) $").tokens.take 3) := by decide +kernel
    exact ⟨hthree, fun k hk => by_contra fun hlt => hk (hbefore k (by omega))⟩
  have hviable : ∀ k, Viable ((scan "(p & $) q").tokens.take k) :=
    Viable.take (by decide +kernel)
  have hillegal : (scan "(p & $) q").illegal = some ⟨'$', 5⟩ := by decide +kernel
  have hviable' : ∀ k, Viable ((scan "(p & q").tokens.take k) := Viable.take (by decide +kernel)
  have hlegal : (scan "(p & q").illegal = none := by decide +kernel
  have hfails : ∀ e, parse "(p & q" ≠ .ok e := by
    intro e he
    have hno : (parse "(p & q").isOk = false := by decide +kernel
    rw [he] at hno
    cases hno
  refine ⟨⟨hleast, by decide +kernel, ?_⟩, ⟨hviable, hillegal, ?_⟩, hviable', hlegal, hfails, ?_⟩
  · obtain ⟨t, hget, hparse, -⟩ := (parse_error_place "(p q) $").1 3 hleast
    exact ⟨t, hget, hparse⟩
  · exact (((parse_error_place "(p & $) q").2 hviable).1 '$' 5 hillegal).1
  · exact (((parse_error_place "(p & q").2 hviable').2 hlegal hfails).1

end Clausal.Text
