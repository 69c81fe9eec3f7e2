import Clausal.Formula.Equality
import Clausal.Proofs.Text.Reading

/-!
The grammar of formulas, and what the reader makes of it.

A phrase is derived by the productions of its category and has a value, a formula or, for a chain
of operands, their list. The reader keeps no derivation: a frame is what is left of one when only
its beginning has been read. **Main results**: the reader takes every phrase for its value
(`Derives.reading`), and whatever it has taken is the beginning of a derivation (`Consumed.read`).
So it accepts the sentences of the grammar and nothing else, and a sentence has one value.
-/

namespace Clausal.Text

/-! ### The grammar -/

inductive Category where
  | start
  | equivalence
  | implication
  | disjunction
  | disjuncts
  | conjunction
  | conjuncts
  | unary
  | atom

/-- A chain has the list of its operands for a value, every other phrase a formula. -/
abbrev Category.Value : Category → Type
  | disjuncts | conjuncts => List Formula
  | _ => Formula

/-- The tokens are a phrase of the category, with this value; one constructor for a production. -/
inductive Derives : (c : Category) → List Token → c.Value → Prop
  | start {ts : List Token} {e : Formula} : Derives .equivalence ts e → Derives .start ts e
  | iff {ts us : List Token} {t : Token} {a b : Formula} :
      Derives .implication ts a → t.terminal = .iff → Derives .implication us b →
      Derives .equivalence (ts ++ t :: us) (.iff a b)
  | implication {ts : List Token} {e : Formula} : Derives .implication ts e →
      Derives .equivalence ts e
  | imp {ts us : List Token} {t : Token} {a b : Formula} :
      Derives .disjunction ts a → t.terminal = .imp → Derives .implication us b →
      Derives .implication (ts ++ t :: us) (.imp a b)
  | disjunction {ts : List Token} {e : Formula} : Derives .disjunction ts e →
      Derives .implication ts e
  | disjuncts {ts : List Token} {es : List Formula} : Derives .disjuncts ts es →
      Derives .disjunction ts (Formula.unwrap .disj es)
  | disjunct {ts : List Token} {e : Formula} : Derives .conjunction ts e →
      Derives .disjuncts ts [e]
  | disj {ts us : List Token} {t : Token} {es : List Formula} {e : Formula} :
      Derives .disjuncts ts es → t.terminal = .disj → Derives .conjunction us e →
      Derives .disjuncts (ts ++ t :: us) (es ++ [e])
  | conjuncts {ts : List Token} {es : List Formula} : Derives .conjuncts ts es →
      Derives .conjunction ts (Formula.unwrap .conj es)
  | conjunct {ts : List Token} {e : Formula} : Derives .unary ts e → Derives .conjuncts ts [e]
  | conj {ts us : List Token} {t : Token} {es : List Formula} {e : Formula} :
      Derives .conjuncts ts es → t.terminal = .conj → Derives .unary us e →
      Derives .conjuncts (ts ++ t :: us) (es ++ [e])
  | neg {ts : List Token} {t : Token} {e : Formula} : t.terminal = .neg → Derives .unary ts e →
      Derives .unary (t :: ts) (.neg e)
  | atom {ts : List Token} {e : Formula} : Derives .atom ts e → Derives .unary ts e
  | group {ts : List Token} {t u : Token} {e : Formula} : t.terminal = .left →
      Derives .equivalence ts e → u.terminal = .right → Derives .atom (t :: (ts ++ [u])) e
  | ident {t : Token} : t.terminal = .ident → Derives .atom [t] (.var t.spelling)
  | verum {t : Token} : t.terminal = .verum → Derives .atom [t] (.const true)
  | falsum {t : Token} : t.terminal = .falsum → Derives .atom [t] (.const false)

/-! ### Phrases are taken for their values -/

lemma Reader.read_append_of_ok {r r' : Reader} {ts : List Token} (h : r.read ts = .ok r')
    (us : List Token) : r.read (ts ++ us) = r'.read us := by
  rw [read_append, h]
  rfl

/-- The reader goes from the one frame to the other, at an operand then, whatever is around. -/
def Takes (f : Frame) (ts : List Token) (f' : Frame) (operand : Formula) : Prop :=
  ∀ outer, Reader.read ⟨f, outer, none⟩ ts = .ok ⟨f', outer, some operand⟩

lemma Takes.link {f f' g g' : Frame} {ts us : List Token} {t : Token} {a b : Formula}
    (hts : Takes f ts f' a)
    (ht : ∀ outer, Reader.step ⟨f', outer, some a⟩ t = some ⟨g, outer, none⟩)
    (hus : Takes g us g' b) : Takes f (ts ++ t :: us) g' b := by
  intro outer
  rw [Reader.read_append_of_ok (hts outer), Reader.read_cons, ht]
  exact hus outer

lemma takes_atom {t : Token} {e : Formula}
    (ht : ∀ f outer, Reader.step ⟨f, outer, none⟩ t = some (Reader.supply f outer e))
    (l : Option Formula) (as ds cs : List Formula) (n : Nat) :
    Takes ⟨l, as, ds, cs, n⟩ [t] ⟨l, as, ds, cs, 0⟩ (Nat.repeat .neg n e) := by
  intro outer
  rw [Reader.read_cons, ht]
  rfl

/-- What the reader makes of a phrase: the looser the category, the fewer of the frame's fields
may be in use where the phrase begins, and the more of them it fills. -/
def Reading : (c : Category) → List Token → c.Value → Prop
  | .start, ts, e | .equivalence, ts, e => ∃ f o, Takes {} ts f o ∧ f.formula o = e
  | .implication, ts, e => ∀ l as, ∃ f o, Takes ⟨l, as, [], [], 0⟩ ts f o ∧ f.left = l ∧
      f.implication o = as.foldl (fun e a => .imp a e) e
  | .disjunction, ts, e => ∀ l as, ∃ ds cs o,
      Takes ⟨l, as, [], [], 0⟩ ts ⟨l, as, ds, cs, 0⟩ o ∧
      Frame.disjunction ⟨l, as, ds, cs, 0⟩ o = e
  | .disjuncts, ts, es => ∀ l as, ∃ ds cs o,
      Takes ⟨l, as, [], [], 0⟩ ts ⟨l, as, ds, cs, 0⟩ o ∧
      Frame.conjunction ⟨l, as, ds, cs, 0⟩ o :: ds = es.reverse
  | .conjunction, ts, e => ∀ l as ds, ∃ cs o,
      Takes ⟨l, as, ds, [], 0⟩ ts ⟨l, as, ds, cs, 0⟩ o ∧
      Frame.conjunction ⟨l, as, ds, cs, 0⟩ o = e
  | .conjuncts, ts, es => ∀ l as ds, ∃ cs o,
      Takes ⟨l, as, ds, [], 0⟩ ts ⟨l, as, ds, cs, 0⟩ o ∧ o :: cs = es.reverse
  | .unary, ts, e | .atom, ts, e => ∀ l as ds cs n,
      Takes ⟨l, as, ds, cs, n⟩ ts ⟨l, as, ds, cs, 0⟩ (Nat.repeat .neg n e)

/-- **Every phrase is taken for its value.** -/
theorem Derives.reading {c : Category} {ts : List Token} {v : c.Value} (h : Derives c ts v) :
    Reading c ts v := by
  induction h with
  | start _ ih => exact ih
  | @iff _ _ _ a _ _ ht _ iha ihb =>
    obtain ⟨f, o, htakes, hleft, hvalue⟩ := iha none []
    obtain ⟨f', o', htakes', hleft', hvalue'⟩ := ihb (some a) []
    refine ⟨f', o', htakes.link (fun outer => ?_) htakes', ?_⟩
    · simp only [Reader.step, ht, hleft, hvalue, List.foldl_nil]
    · simp only [Frame.formula, hleft', hvalue', List.foldl_nil]
  | implication _ ih =>
    obtain ⟨f, o, htakes, hleft, hvalue⟩ := ih none []
    exact ⟨f, o, htakes, by simp only [Frame.formula, hleft, hvalue, List.foldl_nil]⟩
  | imp _ ht _ iha ihb =>
    intro l as
    obtain ⟨ds, cs, o, htakes, rfl⟩ := iha l as
    obtain ⟨f, o', htakes', hleft, hvalue⟩ := ihb l (_ :: as)
    refine ⟨f, o', htakes.link (fun outer => ?_) htakes', hleft, hvalue⟩
    simp only [Reader.step, ht]
  | disjunction _ ih =>
    intro l as
    obtain ⟨ds, cs, o, htakes, rfl⟩ := ih l as
    exact ⟨_, o, htakes, rfl, rfl⟩
  | disjuncts _ ih =>
    intro l as
    obtain ⟨ds, cs, o, htakes, hvalue⟩ := ih l as
    exact ⟨ds, cs, o, htakes, by rw [Frame.disjunction, hvalue, chain_reverse]⟩
  | disjunct _ ih =>
    intro l as
    obtain ⟨cs, o, htakes, rfl⟩ := ih l as []
    exact ⟨[], cs, o, htakes, rfl⟩
  | @disj _ _ _ es _ _ ht _ ihes ihe =>
    intro l as
    obtain ⟨ds, cs, o, htakes, hvalue⟩ := ihes l as
    obtain ⟨cs', o', htakes', rfl⟩ := ihe l as es.reverse
    refine ⟨_, cs', o', htakes.link (fun outer => ?_) htakes', ?_⟩
    · simp only [Reader.step, ht, hvalue]
    · rw [List.reverse_append]
      rfl
  | conjuncts _ ih =>
    intro l as ds
    obtain ⟨cs, o, htakes, hvalue⟩ := ih l as ds
    exact ⟨cs, o, htakes, by rw [Frame.conjunction, hvalue, chain_reverse]⟩
  | conjunct _ ih =>
    intro l as ds
    exact ⟨[], _, ih l as ds [] 0, rfl⟩
  | conj _ ht _ ihes ihe =>
    intro l as ds
    obtain ⟨cs, o, htakes, hvalue⟩ := ihes l as ds
    refine ⟨o :: cs, _, htakes.link (fun outer => ?_) (ihe l as ds (o :: cs) 0), ?_⟩
    · simp only [Reader.step, ht]
    · rw [List.reverse_append, ← hvalue]
      rfl
  | neg ht _ ih =>
    intro l as ds cs n outer
    rw [Reader.read_cons]
    simp only [Reader.step, ht]
    rw [ih l as ds cs (n + 1) outer, repeat_neg_neg, Nat.repeat]
  | atom _ ih => exact ih
  | group ht _ hu ih =>
    obtain ⟨f, o, htakes, hvalue⟩ := ih
    intro l as ds cs n outer
    rw [Reader.read_cons]
    simp only [Reader.step, ht]
    rw [Reader.read_append_of_ok (htakes _), Reader.read_cons]
    simp only [Reader.step, hu, hvalue]
    rfl
  | ident ht => exact takes_atom fun f outer => by simp only [Reader.step, ht]
  | verum ht => exact takes_atom fun f outer => by simp only [Reader.step, ht]
  | falsum ht => exact takes_atom fun f outer => by simp only [Reader.step, ht]

/-! ### What has been read begins a derivation -/

/-- The tokens of a level up to where an operand is due: complete phrases, each with the connective
that follows it, from the loosest to the tightest, and the negations before the operand. -/
inductive Begun : Frame → List Token → Prop
  | empty : Begun {} []
  | iff {ts : List Token} {t : Token} {l : Formula} : Derives .implication ts l →
      t.terminal = .iff → Begun ⟨some l, [], [], [], 0⟩ (ts ++ [t])
  | imp {ts us : List Token} {t : Token} {l : Option Formula} {a : Formula} {as : List Formula} :
      Begun ⟨l, as, [], [], 0⟩ ts → Derives .disjunction us a → t.terminal = .imp →
      Begun ⟨l, a :: as, [], [], 0⟩ (ts ++ (us ++ [t]))
  | disj {ts us : List Token} {t : Token} {l : Option Formula} {as : List Formula} {d : Formula}
      {ds : List Formula} :
      Begun ⟨l, as, [], [], 0⟩ ts → Derives .disjuncts us (d :: ds).reverse → t.terminal = .disj →
      Begun ⟨l, as, d :: ds, [], 0⟩ (ts ++ (us ++ [t]))
  | conj {ts us : List Token} {t : Token} {l : Option Formula} {as ds : List Formula} {c : Formula}
      {cs : List Formula} :
      Begun ⟨l, as, ds, [], 0⟩ ts → Derives .conjuncts us (c :: cs).reverse → t.terminal = .conj →
      Begun ⟨l, as, ds, c :: cs, 0⟩ (ts ++ (us ++ [t]))
  | neg {ts : List Token} {t : Token} {l : Option Formula} {as ds cs : List Formula} {n : Nat} :
      Begun ⟨l, as, ds, cs, n⟩ ts → t.terminal = .neg →
      Begun ⟨l, as, ds, cs, n + 1⟩ (ts ++ [t])

/-- The tokens of a level that end with a phrase of the category. -/
inductive Ends (f : Frame) (c : Category) (v : c.Value) : List Token → Prop
  | intro {ts us : List Token} : Begun f ts → Derives c us v → Ends f c v (ts ++ us)

namespace Ends

variable {l : Option Formula} {as ds cs : List Formula} {e : Formula} {ts : List Token}

lemma map {f : Frame} {c c' : Category} {v : c.Value} {v' : c'.Value} (h : Ends f c v ts)
    (hmap : ∀ us, Derives c us v → Derives c' us v') : Ends f c' v' ts := by
  obtain ⟨hf, hv⟩ := h
  exact ⟨hf, hmap _ hv⟩

/-- The negations before an operand belong to it. -/
lemma negations {n : Nat} (h : Ends ⟨l, as, ds, cs, n⟩ .unary e ts) :
    Ends ⟨l, as, ds, cs, 0⟩ .unary (Nat.repeat .neg n e) ts := by
  induction n generalizing e ts with
  | zero => exact h
  | succ n ih =>
    obtain ⟨hf, he⟩ := h
    cases hf with
    | neg hf ht =>
      rw [List.append_assoc, Nat.repeat, ← repeat_neg_neg]
      exact ih ⟨hf, .neg ht he⟩

lemma conjuncts (h : Ends ⟨l, as, ds, cs, 0⟩ .unary e ts) :
    Ends ⟨l, as, ds, [], 0⟩ .conjuncts (e :: cs).reverse ts := by
  obtain ⟨hf, he⟩ := h
  cases cs with
  | nil => exact ⟨hf, .conjunct he⟩
  | cons c cs =>
    cases hf with
    | conj hf hcs ht =>
      rw [List.append_assoc, List.append_assoc, List.reverse_cons]
      exact ⟨hf, .conj hcs ht he⟩

lemma conjunction (h : Ends ⟨l, as, ds, cs, 0⟩ .unary e ts) :
    Ends ⟨l, as, ds, [], 0⟩ .conjunction (chain .conj (e :: cs)) ts := by
  rw [← List.reverse_reverse (e :: cs), chain_reverse]
  exact h.conjuncts.map fun _ => .conjuncts

lemma disjuncts (h : Ends ⟨l, as, ds, cs, 0⟩ .unary e ts) :
    Ends ⟨l, as, [], [], 0⟩ .disjuncts (chain .conj (e :: cs) :: ds).reverse ts := by
  obtain ⟨hf, he⟩ := h.conjunction
  cases ds with
  | nil => exact ⟨hf, .disjunct he⟩
  | cons d ds =>
    cases hf with
    | disj hf hds ht =>
      rw [List.append_assoc, List.append_assoc, List.reverse_cons]
      exact ⟨hf, .disj hds ht he⟩

lemma disjunction (h : Ends ⟨l, as, ds, cs, 0⟩ .unary e ts) :
    Ends ⟨l, as, [], [], 0⟩ .disjunction (Frame.disjunction ⟨l, as, ds, cs, 0⟩ e) ts := by
  rw [Frame.disjunction, ← List.reverse_reverse (_ :: _), chain_reverse]
  exact h.disjuncts.map fun _ => .disjuncts

/-- Implications group to the right, so the newest antecedent is the first to be joined. -/
lemma antecedents (h : Ends ⟨l, as, [], [], 0⟩ .implication e ts) :
    Ends ⟨l, [], [], [], 0⟩ .implication (as.foldl (fun e a => .imp a e) e) ts := by
  induction as generalizing e ts with
  | nil => exact h
  | cons a as ih =>
    obtain ⟨hf, he⟩ := h
    cases hf with
    | imp hf ha ht =>
      rw [List.append_assoc, List.append_assoc]
      exact ih ⟨hf, .imp ha ht he⟩

lemma implication (h : Ends ⟨l, as, ds, cs, 0⟩ .unary e ts) :
    Ends ⟨l, [], [], [], 0⟩ .implication (Frame.implication ⟨l, as, ds, cs, 0⟩ e) ts :=
  (h.disjunction.map fun _ => .disjunction).antecedents

/-- A level that ends with an operand is an equivalence, that of its frame. -/
lemma equivalence (h : Ends ⟨l, as, ds, cs, 0⟩ .unary e ts) :
    Derives .equivalence ts (Frame.formula ⟨l, as, ds, cs, 0⟩ e) := by
  obtain ⟨hf, he⟩ := h.implication
  cases hf with
  | empty => exact .implication he
  | iff hl ht =>
    rw [List.append_assoc]
    exact .iff hl ht he

end Ends

/-- The tokens of the levels around, each up to a parenthesis. -/
inductive Opened : List Frame → List Token → Prop
  | nil : Opened [] []
  | cons {ts us : List Token} {t : Token} {f : Frame} {outer : List Frame} : Opened outer ts →
      Begun f us → t.terminal = .left → Opened (f :: outer) (ts ++ (us ++ [t]))

/-- The tokens that have brought the reader to where it is. -/
inductive Consumed : Reader → List Token → Prop
  | due {ts us : List Token} {f : Frame} {outer : List Frame} : Opened outer ts → Begun f us →
      Consumed ⟨f, outer, none⟩ (ts ++ us)
  | supplied {ts us : List Token} {l : Option Formula} {as ds cs : List Formula}
      {outer : List Frame} {e : Formula} : Opened outer ts →
      Ends ⟨l, as, ds, cs, 0⟩ .unary e us → Consumed ⟨⟨l, as, ds, cs, 0⟩, outer, some e⟩ (ts ++ us)

namespace Consumed

/-- An operand is complete: a token, or a level that has been closed. -/
lemma supply_atom {ts us vs : List Token} {f : Frame} {outer : List Frame} {e : Formula}
    (hts : Opened outer ts) (hus : Begun f us) (hvs : Derives .atom vs e) :
    Consumed (Reader.supply f outer e) (ts ++ us ++ vs) := by
  rw [List.append_assoc]
  exact .supplied hts (Ends.negations ⟨hus, .atom hvs⟩)

lemma step {r r' : Reader} {ts : List Token} {t : Token} (h : Consumed r ts)
    (hstep : r.step t = some r') : Consumed r' (ts ++ [t]) := by
  obtain ⟨terminal, spelling, start⟩ := t
  cases h with
  | due hopen hf =>
    cases terminal with
    | neg =>
      cases hstep
      rw [List.append_assoc]
      exact .due hopen (.neg hf rfl)
    | left =>
      cases hstep
      rw [List.append_assoc, ← List.append_nil (_ ++ _)]
      exact .due (.cons hopen hf rfl) .empty
    | ident =>
      cases hstep
      exact supply_atom hopen hf (.ident rfl)
    | verum =>
      cases hstep
      exact supply_atom hopen hf (.verum rfl)
    | falsum =>
      cases hstep
      exact supply_atom hopen hf (.falsum rfl)
    | _ => cases hstep
  | @supplied _ _ l _ _ _ _ _ hopen hends =>
    cases terminal with
    | conj =>
      cases hstep
      obtain ⟨hf, hcs⟩ := hends.conjuncts
      rw [List.append_assoc, List.append_assoc]
      exact .due hopen (.conj hf hcs rfl)
    | disj =>
      cases hstep
      obtain ⟨hf, hds⟩ := hends.disjuncts
      rw [List.append_assoc, List.append_assoc]
      exact .due hopen (.disj hf hds rfl)
    | imp =>
      cases hstep
      obtain ⟨hf, ha⟩ := hends.disjunction
      rw [List.append_assoc, List.append_assoc]
      exact .due hopen (.imp hf ha rfl)
    | iff =>
      -- a level has room for one equivalence
      cases l with
      | some l => cases hstep
      | none =>
        cases hstep
        obtain ⟨hf, hl⟩ := hends.implication
        cases hf
        rw [List.append_assoc]
        exact .due hopen (.iff hl rfl)
    | right =>
      cases hopen with
      | nil => cases hstep
      | cons hopen hf ht =>
        cases hstep
        have hgroup := Derives.group (u := ⟨.right, spelling, start⟩) ht hends.equivalence rfl
        simpa using supply_atom hopen hf hgroup
    | _ => cases hstep

lemma read {r r' : Reader} {ts us : List Token} (h : Consumed r ts)
    (hread : r.read us = .ok r') : Consumed r' (ts ++ us) := by
  induction us generalizing r ts with
  | nil =>
    cases hread
    rwa [List.append_nil]
  | cons u us ih =>
    rw [Reader.read_cons] at hread
    cases hstep : r.step u with
    | none =>
      rw [hstep] at hread
      cases hread
    | some r₁ =>
      rw [hstep] at hread
      have := ih (h.step hstep) hread
      rwa [List.append_assoc] at this

lemma derives {r : Reader} {ts : List Token} {e : Formula} (h : Consumed r ts)
    (hresult : r.result? = some e) : Derives .start ts e := by
  cases h with
  | due hopen hf => cases hopen <;> cases hresult
  | supplied hopen hends =>
    cases hopen with
    | nil =>
      cases hresult
      exact .start hends.equivalence
    | cons hopen hf ht => cases hresult

end Consumed

/-! ### The sentences of the grammar -/

/-- **The reader accepts exactly the sentences**, each with its value. -/
theorem read_iff_derives {ts : List Token} {e : Formula} :
    (∃ r, Reader.read {} ts = .ok r ∧ r.result? = some e) ↔ Derives .start ts e := by
  constructor
  · rintro ⟨r, hread, hresult⟩
    have hempty : Consumed {} [] := .due .nil .empty
    exact (hempty.read hread).derives hresult
  · intro h
    obtain ⟨f, o, htakes, rfl⟩ := h.reading
    exact ⟨_, htakes [], rfl⟩

namespace Scan

variable {s : Scan}

lemma formula_of_read_error {t : Token} (hread : Reader.read {} s.tokens = .error t) :
    s.formula = .error (.near t) := by
  rw [formula, formulaAfter, hread]

lemma formula_of_illegal {r : Reader} {i : IllegalCharacter}
    (hread : Reader.read {} s.tokens = .ok r) (hillegal : s.illegal = some i) :
    s.formula = .error (.illegal i) := by
  rw [formula, formulaAfter, hread, hillegal]

lemma formula_of_legal {r : Reader} (hread : Reader.read {} s.tokens = .ok r)
    (hillegal : s.illegal = none) : s.formula = r.result?.elim (.error .unexpectedEnd) .ok := by
  rw [formula, formulaAfter, hread, hillegal]

lemma formula_eq_ok_iff {e : Formula} : s.formula = .ok e ↔
    s.illegal = none ∧ ∃ r, Reader.read {} s.tokens = .ok r ∧ r.result? = some e := by
  cases hread : Reader.read {} s.tokens with
  | error t => simp [formula_of_read_error hread]
  | ok r =>
    cases hillegal : s.illegal with
    | some i => simp [formula_of_illegal hread hillegal]
    | none =>
      rw [formula_of_legal hread hillegal]
      cases hresult : r.result? <;> simp [hresult]

end Scan

/-- **The parser accepts exactly its grammar**: a text is read as a formula if all of it is tokens
and these are derived with that value. No tokens are derived with two values. -/
theorem parse_iff_derives (text : String) (e : Formula) :
    (parse text = .ok e ↔
      (scan text).illegal = none ∧ Derives .start (scan text).tokens e) ∧
    ∀ (ts : List Token) (a b : Formula), Derives .start ts a → Derives .start ts b → a = b := by
  refine ⟨?_, fun ts a b ha hb => ?_⟩
  · rw [parse_eq_formula, Scan.formula_eq_ok_iff, read_iff_derives]
  · obtain ⟨r, hread, hresult⟩ := read_iff_derives.2 ha
    obtain ⟨r', hread', hresult'⟩ := read_iff_derives.2 hb
    obtain rfl : r = r' := Except.ok.inj (hread.symm.trans hread')
    exact Option.some.inj (hresult.symm.trans hresult')

/-- All levels of the grammar in one text, with implications on both sides of a parenthesis. -/
theorem parse_iff_derives_levels :
    let text := "!p | q & ~~r -> s => (t -> u <-> true)"
    let e : Formula :=
      .imp (.disj [.neg (.var "p"), .conj [.var "q", .neg (.neg (.var "r"))]])
        (.imp (.var "s") (.iff (.imp (.var "t") (.var "u")) (.const true)))
    Derives .start (scan text).tokens e ∧
      ∀ e', Derives .start (scan text).tokens e' → e' = e := by
  intro text e
  have hparse : parse text = .ok e := by decide +kernel
  obtain ⟨-, hderives⟩ := (parse_iff_derives text e).1.1 hparse
  exact ⟨hderives, fun e' he' => (parse_iff_derives text e).2 _ e' e he' hderives⟩

end Clausal.Text
