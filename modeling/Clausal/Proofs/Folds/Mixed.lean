import Clausal.Folds.Mixed
import Clausal.NormalForm.Conversion
import Clausal.Proofs.Engine.Refinement

/-!
Traversals of one sort of values among those of several.

Let the values of one table be embedded in the values of another, so that the handlers of the two
correspond, kind by kind, and are missing for the same kinds. A step in the one is then the step in
the other, on an embedded buffer. **Main results**: the second table makes the same calls as the
first, in the same number of steps, and ends with the embedded value or the same fault
(`Table.Embeds.traverse_eq`). So do the forms of the passes, of the measures and of rendering for
values of several sorts, and any of them in which handlers have been replaced by corresponding ones.
-/

namespace Clausal

namespace Engine

variable {α β ε : Type} {f : α → β}

def Outcome.map (f : α → β) : Outcome α → Outcome β
  | .leaf v => .leaf (f v)
  | .expand items => .expand items

def State.map (f : α → β) (s : State α) : State β := ⟨s.stack, s.buffer.map f⟩

def Progress.map (f : α → β) : Progress α ε → Progress β ε
  | .next s => .next (s.map f)
  | .done r => .done (f <$> r)

/-- Handlers of the second sort that do to embedded values what those of the first do to values. -/
structure Handlers.Embeds (f : α → β) (H : Handlers α ε) (H' : Handlers β ε) : Prop where
  unroll : ∀ e start, H'.unroll e start = Outcome.map f <$> H.unroll e start
  assemble : ∀ kind parts, H'.assemble kind (parts.map f) = f <$> H.assemble kind parts

def Unroller.Embeds (f : α → β) (h : Unroller α ε) (h' : Unroller β ε) : Prop :=
  ∀ e start, h' e start = Outcome.map f <$> h e start

def Assembler.Embeds (f : α → β) (h : Assembler α ε) (h' : Assembler β ε) : Prop :=
  ∀ parts : List α, h' (parts.map f) = f <$> h parts

/-- The tables have handlers for the same kinds, and these correspond. -/
structure Table.Embeds (f : α → β) (T : Table α ε) (T' : Table β ε) : Prop where
  unroll : ∀ kind, Option.Rel (Unroller.Embeds f) (T.unroll kind) (T'.unroll kind)
  assemble : ∀ kind, Option.Rel (Assembler.Embeds f) (T.assemble kind) (T'.assemble kind)

/-! ### From step to run -/

section Running

variable [Raises ε] {H : Handlers α ε} {H' : Handlers β ε}

lemma finish_map (buffer : Array α) :
    finish (ε := ε) (buffer.map f) = f <$> finish buffer := by
  unfold finish
  rw [Array.toList_map]
  rcases buffer.toList with _ | ⟨v, _ | ⟨w, vs⟩⟩
  · rfl
  · rfl
  · simp [Functor.map, Except.map]

lemma extract_map (buffer : Array α) (start : Nat) :
    ((buffer.map f).extract start).toList = (buffer.extract start).toList.map f := by
  simp [List.map_take, List.map_drop]

lemma shrink_map (buffer : Array α) (start : Nat) :
    (buffer.map f).shrink start = (buffer.shrink start).map f := by
  simp

lemma Handlers.Embeds.step_map (h : H.Embeds f H') (s : State α) :
    step H' (s.map f) = (step H s).map f := by
  obtain ⟨stack, buffer⟩ := s
  rcases stack with _ | ⟨e | ⟨node, _ | start⟩, rest⟩
  · exact congrArg Progress.done (finish_map buffer)
  · have hunroll := h.unroll e buffer.size
    simp only [State.map, step, Array.size_map, hunroll]
    rcases H.unroll e buffer.size with fault | ⟨v⟩ | ⟨items⟩
    · rfl
    · simp [Functor.map, Except.map, Outcome.map, Progress.map, State.map]
    · rfl
  · rfl
  · simp only [State.map, step, extract_map, shrink_map, h.assemble]
    rcases H.assemble node.kind (buffer.extract start).toList with fault | v
    · rfl
    · simp [Functor.map, Except.map, Progress.map, State.map]

lemma State.call?_map (s : State α) : (s.map f).call? = s.call? := by
  obtain ⟨stack, buffer⟩ := s
  rcases stack with _ | ⟨e | ⟨node, _ | start⟩, rest⟩ <;> simp [State.map, State.call?]

/-- From step to run, with the calls on the way. -/
lemma Handlers.Embeds.traceFor_map (h : H.Embeds f H') (fuel : Nat) (s : State α)
    (calls : List Call) :
    traceFor H' fuel (s.map f) calls =
      (traceFor H fuel s calls).map fun p => (p.1, f <$> p.2) := by
  induction fuel generalizing s calls with
  | zero => rfl
  | succ fuel ih =>
    rw [traceFor, traceFor, h.step_map, State.call?_map]
    cases step H s with
    | next t => exact ih t _
    | done r => rfl

end Running

/-! ### Tables -/

lemma rel_cases {γ δ : Type} {R : γ → δ → Prop} {o : Option γ} {o' : Option δ}
    (h : Option.Rel R o o') :
    o = none ∧ o' = none ∨ ∃ x y, o = some x ∧ o' = some y ∧ R x y := by
  cases h with
  | none => exact .inl ⟨rfl, rfl⟩
  | some hR => exact .inr ⟨_, _, rfl, rfl, hR⟩

lemma isNone_of_rel {γ δ : Type} {R : γ → δ → Prop} {o : Option γ} {o' : Option δ}
    (h : Option.Rel R o o') : o'.isNone = o.isNone := by
  cases h with
  | none => rfl
  | some _ => rfl

namespace Table.Embeds

variable {T : Table α ε} {T' : Table β ε} (hT : T.Embeds f T')
include hT

lemma gap?_eq : T'.gap? = T.gap? := by
  simp only [gap?, isNone_of_rel (hT.unroll _), isNone_of_rel (hT.assemble _)]

lemma handlers_embeds [Raises ε] : T.handlers.Embeds f T'.handlers where
  unroll e start := by
    rcases rel_cases (hT.unroll e.kind) with ⟨h, h'⟩ | ⟨u, u', h, h', hu⟩
    · simp only [handlers, h, h']
      rfl
    · simpa only [handlers, h, h'] using hu e start
  assemble kind parts := by
    rcases rel_cases (hT.assemble kind) with ⟨h, h'⟩ | ⟨a, a', h, h', ha⟩
    · simp only [handlers, h, h']
      rfl
    · simpa only [handlers, h, h'] using ha parts

/-- **Traversals with values of several sorts** make the calls of the plain one, and end with its
value or its fault. -/
theorem traverse_eq [Raises ε] (fuel : Nat) (e : Formula) :
    T'.traverse fuel e = (T.traverse fuel e).map fun p => (p.1, f <$> p.2) := by
  unfold Table.traverse
  rw [hT.gap?_eq]
  cases T.gap? with
  | some fault => rfl
  | none =>
    have hstart : State.start e = (State.start (α := α) e).map f := by
      simp [State.start, State.map]
    simp only [hstart, hT.handlers_embeds.traceFor_map, Option.map_map]
    rfl

/-- Corresponding handlers may be put in the place of others, or both be taken out. -/
theorem setUnroll {h : Option (Unroller α ε)} {h' : Option (Unroller β ε)} (kind : Kind)
    (hh : Option.Rel (Unroller.Embeds f) h h') :
    (T.setUnroll kind h).Embeds f (T'.setUnroll kind h') where
  unroll k := by
    unfold Table.setUnroll
    by_cases hk : k = kind
    · simpa only [hk, if_true] using hh
    · simpa only [hk, if_false] using hT.unroll k
  assemble := hT.assemble

theorem setAssemble {h : Option (Assembler α ε)} {h' : Option (Assembler β ε)} (kind : Kind)
    (hh : Option.Rel (Assembler.Embeds f) h h') :
    (T.setAssemble kind h).Embeds f (T'.setAssemble kind h') where
  unroll := hT.unroll
  assemble k := by
    unfold Table.setAssemble
    by_cases hk : k = kind
    · simpa only [hk, if_true] using hh
    · simpa only [hk, if_false] using hT.assemble k

end Table.Embeds

lemma Fold.exists_traverse [Raises ε] (F : Fold α ε) (e : Formula) :
    ∃ fuel calls, F.handlers.table.traverse fuel e = some (calls, F.apply e) := by
  have hT := table_follows F.toScheme
  rw [traverse_iff_runFor hT.gap?_eq_none, hT.handlers_eq]
  exact (run_eq_iff (F.halts _) _).1 rfl

lemma Handlers.Embeds.table {H : Handlers α ε} {H' : Handlers β ε} (h : H.Embeds f H') :
    H.table.Embeds f H'.table where
  unroll _ := .some h.unroll
  assemble kind := .some (h.assemble kind)

end Engine

/-! ### The forms for values of several sorts -/

namespace Mixed

open Engine

lemma mapM_of_leftInverse {α : Type} (embed : α → Value) (sort? : Value → Option α)
    (h : ∀ x, sort? (embed x) = some x) (xs : List α) : (xs.map embed).mapM sort? = some xs := by
  induction xs with
  | nil => rfl
  | cons x xs ih => simp [h, ih]

lemma map_written_text (ts : List String) : (ts.map Value.text).map Value.written = ts := by
  simp [Function.comp_def, Value.written]

lemma relevant_map {α β : Type} (f : α → β) (kind : Kind) (xs : List α) :
    relevant kind (xs.map f) = (relevant kind xs).map f := by
  cases kind <;> simp [relevant]

/-- No more than the relevant parts is looked at, and the part of an atom is passed on. -/
structure Regular (combine : Kind → List Formula → Except Fault Formula) : Prop where
  relevant : ∀ kind ps, combine kind (relevant kind ps) = combine kind ps
  const : ∀ p ps, combine .const (p :: ps) = .ok p
  var : ∀ p ps, combine .var (p :: ps) = .ok p

lemma regular_rebuild : Regular Structural.rebuild where
  relevant kind ps := by
    cases kind <;> rcases ps with _ | ⟨a, _ | ⟨b, ps⟩⟩ <;> rfl
  const _ _ := rfl
  var _ _ := rfl

lemma regular_rebuildPlain (site : String) : Regular (Structural.rebuildPlain site) where
  relevant kind ps := by
    cases kind <;> rcases ps with _ | ⟨a, _ | ⟨b, ps⟩⟩ <;> rfl
  const _ _ := rfl
  var _ _ := rfl

lemma regular_implications : Regular NormalForm.Implications.combine where
  relevant kind ps := by
    cases kind <;> rcases ps with _ | ⟨a, _ | ⟨b, ps⟩⟩ <;> rfl
  const _ _ := rfl
  var _ _ := rfl

lemma regular_pass (p : NormalForm.Pass) : Regular p.fold.combine := by
  cases p with
  | implications => exact regular_implications
  | negations => exact regular_rebuildPlain _
  | distribution => exact regular_rebuildPlain _

lemma putTogether_formulas {combine : Kind → List Formula → Except Fault Formula}
    (h : Regular combine) (kind : Kind) (es : List Formula) :
    putTogether combine kind (es.map .formula) = .formula <$> combine kind es := by
  have hformulas := mapM_of_leftInverse .formula Value.formula? (fun _ => rfl) (relevant kind es)
  rw [← h.relevant]
  cases kind with
  | const =>
    rcases es with _ | ⟨p, ps⟩
    · rfl
    · exact (congrArg (Value.formula <$> ·) (h.const p [])).symm
  | var =>
    rcases es with _ | ⟨p, ps⟩
    · rfl
    · exact (congrArg (Value.formula <$> ·) (h.var p [])).symm
  | _ => simp only [putTogether, relevant_map, hformulas]

lemma reckon_numbers (combine : Kind → List Int → Except Fault Int) (kind : Kind) (ns : List Int) :
    reckon combine kind (ns.map .number) = .number <$> combine kind ns := by
  rw [reckon, mapM_of_leftInverse .number Value.number? fun _ => rfl]

lemma write_texts (kind : Kind) (ts : List String) :
    write kind (ts.map .text) = .text <$> Rendering.combine kind ts := by
  have htexts := mapM_of_leftInverse .text Value.text? (fun _ => rfl) ts
  have hwritten := map_written_text ts
  cases kind with
  | const =>
    rcases ts with _ | ⟨t, _ | ⟨u, ts⟩⟩
    · rfl
    · rfl
    · exact congrArg (Value.text <$> Rendering.combine .const ·) hwritten
  | var =>
    rcases ts with _ | ⟨t, _ | ⟨u, ts⟩⟩
    · rfl
    · rfl
    · exact congrArg (Value.text <$> Rendering.combine .var ·) hwritten
  | conj => simp only [write, htexts]
  | disj => simp only [write, htexts]
  | _ => simp only [write, hwritten]

/-- A fold among values of several sorts, as long as its values are put together as before. -/
lemma exists_traverse_lift {α : Type} {F : Fold α} {embed : α → Value}
    {combine : Kind → List Value → Except Fault Value}
    (h : ∀ kind ps, combine kind (ps.map embed) = embed <$> F.combine kind ps) (e : Formula) :
    ∃ fuel calls, (lift F.toScheme embed combine).handlers.table.traverse fuel e =
      some (calls, embed <$> F.apply e) := by
  have hembeds : F.handlers.table.Embeds embed (lift F.toScheme embed combine).handlers.table := by
    refine Handlers.Embeds.table ⟨fun e start => ?_, h⟩
    simp only [Scheme.handlers, lift]
    rcases F.plan e with fault | ⟨v⟩ | ⟨node, cs⟩ | ⟨c⟩ <;> rfl
  obtain ⟨fuel, calls, hplain⟩ := F.exists_traverse e
  exact ⟨fuel, calls, by rw [hembeds.traverse_eq, hplain]; rfl⟩

/-- **Every fold has its results among values of several sorts**: the passes and the fold that
rebuilds a formula give formulas, measures give numbers, rendering and the outline give texts. -/
theorem exists_traverse_mixed (e : Formula) :
    (∀ p : NormalForm.Pass, ∃ fuel calls,
      (formulas p.fold.toScheme).handlers.table.traverse fuel e =
        some (calls, .formula <$> p.apply e)) ∧
    (∃ fuel calls, (formulas Structural.fold.toScheme).handlers.table.traverse fuel e =
      some (calls, .ok (.formula e))) ∧
    (∀ F : Fold Int, ∃ fuel calls, (numbers F.toScheme).handlers.table.traverse fuel e =
      some (calls, .number <$> F.apply e)) ∧
    (∃ fuel calls, rendering.handlers.table.traverse fuel e =
      some (calls, .ok (.text (Rendering.text e)))) ∧
    ∃ fuel calls, outline.handlers.table.traverse fuel e =
      some (calls, .text <$> Measure.outline.apply e) := by
  refine ⟨fun p => ?_, ?_, fun F => exists_traverse_lift (reckon_numbers F.combine) e, ?_,
    exists_traverse_lift (fun kind ts => by rw [map_written_text]) e⟩
  · rw [p.apply_eq_fold]
    exact exists_traverse_lift (putTogether_formulas (regular_pass p)) e
  · have h := exists_traverse_lift (F := Structural.fold) (putTogether_formulas regular_rebuild) e
    rwa [Fold.apply_eq_eval, structural_eval] at h
  · have h := exists_traverse_lift (F := Rendering.fold) write_texts e
    rwa [Rendering.fold_apply] at h

end Mixed

end Clausal
