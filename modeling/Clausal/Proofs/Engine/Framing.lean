import Clausal.Folds.Measure
import Clausal.Proofs.Engine.Refinement

/-!
What the engine leaves alone while it works on a formula.

The handlers may do what they like with the formula: leave out the `process` item, ask for the
operands in another order or for some of them only, ask for other formulas, or for nothing at all.
All that matters is that parts never begin below the end of the buffer of which the handler was
told. Then no item that comes on the stack reaches below the end that the buffer had when the work
began. **Main result**: until the stack is back at what it was, it has this as its lower part, and
the buffer keeps all its results, with any number of new ones behind them; nor does the work depend
on what is there, but for the number of results.
-/

namespace Clausal.Engine

variable {α ε : Type}

/-! ### Handlers that place parts ahead -/

/-- Parts begin, if it is said where, at the end of the buffer or behind it. -/
def Unroller.Ahead (h : Unroller α ε) : Prop :=
  ∀ e start items, h e start = .ok (.expand items) →
    ∀ node place, .process node (some place) ∈ items → start ≤ place

namespace Unroller

lemma ahead_around {start place : Nat} (hplace : start ≤ place) {e node : Formula}
    {children : List Formula} {items : List Item} {i : Nat}
    (h : around (α := α) (some place) e children = .expand items)
    (hi : .process node (some i) ∈ items) : start ≤ i := by
  cases h
  obtain ⟨-, rfl⟩ : node = e ∧ i = place := by simpa using hi
  exact hplace

lemma ahead_offset {shift : Int} (hshift : 0 ≤ shift) : (offset shift : Unroller α ε).Ahead := by
  intro e start items h node place hplace
  exact ahead_around (by omega) (Except.ok.inj h) hplace

/-- The parts begin at the end of the buffer, whichever formulas they are the values of. -/
lemma ahead_of_around {h : Unroller α ε}
    (hh : ∀ e start, ∃ cs, h e start = .ok (around (some start) e cs)) : h.Ahead := by
  intro e start items hitems node place hplace
  obtain ⟨cs, hcs⟩ := hh e start
  rw [hcs] at hitems
  exact ahead_around (Nat.le_refl start) (Except.ok.inj hitems) hplace

lemma ahead_children : (children : Unroller α ε).Ahead := by
  intro e start items h node place hplace
  cases h
  simp at hplace

lemma ahead_empty : (empty : Unroller α ε).Ahead := by
  intro e start items h node place hplace
  cases h
  cases hplace

lemma ahead_replace (target : Formula) : (replace target : Unroller α ε).Ahead := by
  intro e start items h node place hplace
  cases h
  simp at hplace

lemma ahead_identity (embed : Formula → α) : (identity embed : Unroller α ε).Ahead := by
  intro e start items h
  cases h

/-- The operands in the other order, some of them only, another formula, or the operands with
nothing said of where their values begin: all this leaves alone what is below. -/
theorem ahead_variants (n : Int) (embed : Formula → α) (name : String) (target : Formula) :
    (backward : Unroller α ε).Ahead ∧ (take n : Unroller α ε).Ahead ∧
    (substitute embed name target : Unroller α ε).Ahead ∧ (unplaced : Unroller α ε).Ahead := by
  refine ⟨ahead_of_around fun e start => ⟨_, rfl⟩, ahead_of_around fun e start => ⟨_, rfl⟩, ?_, ?_⟩
  · intro e start items h
    cases e with
    | var x =>
      by_cases hx : x = name
      · simp only [substitute, hx, if_true] at h
        exact ahead_replace target _ start items h
      · simp only [substitute, hx, if_false] at h
        exact ahead_identity embed _ start items h
    | _ => exact ahead_identity embed _ start items h
  · intro e start items h node place hplace
    cases h
    simp at hplace

end Unroller

lemma Scheme.ahead (S : Scheme α ε) : Unroller.Ahead S.handlers.unroll := by
  intro e start items h node place hplace
  rcases hp : S.plan e with f | ⟨v⟩ | ⟨built, cs⟩ | ⟨c⟩ <;>
    simp only [Scheme.handlers, hp, Except.map, Plan.outcome] at h
  · cases h
  · cases h
  · exact Unroller.ahead_around (Nat.le_refl start) (Except.ok.inj h) hplace
  · cases h
    simp at hplace

variable [Raises ε]

lemma Table.ahead_setUnroll {T : Table α ε} (hT : Unroller.Ahead T.handlers.unroll) (kind : Kind)
    {h : Unroller α ε} (hh : Unroller.Ahead h) :
    Unroller.Ahead (T.setUnroll kind (some h)).handlers.unroll := by
  intro e start items hitems
  by_cases hkind : e.kind = kind
  · simp only [handlers, setUnroll, hkind, if_true] at hitems
    exact hh e start items hitems
  · simp only [handlers, setUnroll, hkind, if_false] at hitems
    exact hT e start items hitems

/-! ### Work above a part of the stack -/

/-- `t` comes after `s` in some number of steps, and in no state before `t` is the stack down to
`rest`. -/
def ReachesAbove (H : Handlers α ε) (rest : List Item) : State α → State α → Prop :=
  Relation.ReflTransGen fun s t => s.stack ≠ rest ∧ step H s = .next t

/-- None of the parts that are waited for begin below `base`. -/
def PlacedFrom (base : Nat) (pending : List Item) : Prop :=
  ∀ node place, .process node (some place) ∈ pending → base ≤ place

/-- Over any stack, and over any buffer of `base` results, a step leads from what is pending and the
values that were added to what is pending and added then. -/
def StepsOver (H : Handlers α ε) (base : Nat) (pending : List Item) (vs : List α)
    (pending' : List Item) (vs' : List α) : Prop :=
  ∀ rest (buffer : Array α), buffer.size = base →
    step H ⟨pending ++ rest, buffer ++ vs⟩ = .next ⟨pending' ++ rest, buffer ++ vs'⟩

section Frame

variable {H : Handlers α ε} {base place : Nat} {e x node : Formula} {v : α} {vs : List α}
  {items pending rest : List Item} {buffer : Array α} {t : State α}

lemma PlacedFrom.tail {i : Item} (h : PlacedFrom base (i :: pending)) : PlacedFrom base pending :=
  fun node place hplace => h node place (List.mem_cons_of_mem _ hplace)

lemma stepsOver_leaf (h : H.unroll e (base + vs.length) = .ok (.leaf v)) :
    StepsOver H base (.unroll e :: pending) vs pending (vs ++ [v]) := by
  rintro rest buffer rfl
  simp only [List.cons_append, step, size_append, h]
  rw [push_eq_append, append_append]

lemma stepsOver_expand (h : H.unroll e (base + vs.length) = .ok (.expand items)) :
    StepsOver H base (.unroll e :: pending) vs (items.reverse ++ pending) vs := by
  rintro rest buffer rfl
  simp only [List.cons_append, step, size_append, h, List.append_assoc]

/-- Only values that were added are parts, as long as the parts do not begin below. -/
lemma stepsOver_process (hplace : base ≤ place)
    (h : H.assemble node.kind (vs.drop (place - base)) = .ok v) :
    StepsOver H base (.process node (some place) :: pending) vs pending
      (vs.take (place - base) ++ [v]) := by
  rintro rest buffer rfl
  simp only [List.cons_append, step, extract_append_of_le hplace, shrink_append_of_le hplace, h]
  rw [push_eq_append, append_append]

/-- Whatever step is made while something is pending, it is made over any stack and buffer. -/
lemma exists_stepsOver (hH : Unroller.Ahead H.unroll) (h : PlacedFrom buffer.size pending)
    (hpending : pending ≠ []) (hstep : step H ⟨pending ++ rest, buffer ++ vs⟩ = .next t) :
    ∃ (pending' : List Item) (vs' : List α), PlacedFrom buffer.size pending' ∧
      StepsOver H buffer.size pending vs pending' vs' := by
  rcases pending with _ | ⟨i, pending⟩
  · exact absurd rfl hpending
  rw [List.cons_append] at hstep
  cases moves_of_step hstep with
  | leaf hunroll =>
    rw [size_append] at hunroll
    exact ⟨_, _, h.tail, stepsOver_leaf hunroll⟩
  | @expand e items _ _ hunroll =>
    rw [size_append] at hunroll
    refine ⟨_, _, fun node place hplace => ?_, stepsOver_expand hunroll⟩
    rcases List.mem_append.1 hplace with hitem | hpending
    · -- the handler was told of a buffer that had only grown
      calc buffer.size ≤ buffer.size + vs.length := Nat.le_add_right _ _
        _ ≤ place := hH e _ items hunroll node place (List.mem_reverse.1 hitem)
    · exact h.tail node place hpending
  | @process node place _ _ _ hassemble =>
    have hplace : buffer.size ≤ place := h node place List.mem_cons_self
    rw [extract_append_of_le hplace] at hassemble
    exact ⟨_, _, h.tail, stepsOver_process hplace hassemble⟩

/-- From step to run: what is above goes through the same states over any stack and buffer. -/
lemma ReachesAbove.exists_above (hH : Unroller.Ahead H.unroll)
    (h : ReachesAbove H rest ⟨.unroll x :: rest, buffer⟩ t) :
    ∃ (pending : List Item) (vs : List α), PlacedFrom buffer.size pending ∧
      t = ⟨pending ++ rest, buffer ++ vs⟩ ∧
      ∀ rest' (buffer' : Array α), buffer'.size = buffer.size →
        ReachesAbove H rest' ⟨.unroll x :: rest', buffer'⟩ ⟨pending ++ rest', buffer' ++ vs⟩ := by
  induction h with
  | refl =>
    refine ⟨[.unroll x], [], fun node place h => ?_, ?_, fun rest' buffer' _ => ?_⟩
    · simp at h
    · rw [append_nil]
      rfl
    · rw [append_nil]
      exact .refl
  | tail _ hnext ih =>
    obtain ⟨pending, vs, hplaced, rfl, hruns⟩ := ih
    obtain ⟨hne, hstep⟩ := hnext
    have hpending : pending ≠ [] := by
      rintro rfl
      exact hne rfl
    obtain ⟨pending', vs', hplaced', hover⟩ := exists_stepsOver hH hplaced hpending hstep
    -- over the stack and buffer at hand this is the step that was made
    cases (hover rest buffer rfl).symm.trans hstep
    refine ⟨pending', vs', hplaced', rfl, fun rest' buffer' hsize => ?_⟩
    refine (hruns rest' buffer' hsize).tail ⟨?_, hover rest' buffer' hsize⟩
    simpa using hpending

end Frame

/-- **The engine leaves alone what is below.** Work on a formula begins over a stack and a buffer.
As long as the stack is not back at what it was, it has this as its lower part, and the buffer has
all its results, in their places, with new ones behind them. When the stack is back for the first
time, the same work has been done that is done over any other stack and any buffer of the same
size. -/
theorem loop_frame {T : Table α ε} (hT : Unroller.Ahead T.handlers.unroll) {x : Formula}
    {rest : List Item} {buffer : Array α} {t : State α}
    (h : ReachesAbove T.handlers rest ⟨.unroll x :: rest, buffer⟩ t) :
    (∃ (pending : List Item) (vs : List α), t = ⟨pending ++ rest, buffer ++ vs⟩) ∧
    (t.stack = rest → ∃ vs : List α, t = ⟨rest, buffer ++ vs⟩ ∧
      ∀ rest' (buffer' : Array α), buffer'.size = buffer.size →
        ReachesAbove T.handlers rest' ⟨.unroll x :: rest', buffer'⟩ ⟨rest', buffer' ++ vs⟩) := by
  obtain ⟨pending, vs, -, rfl, hruns⟩ := h.exists_above hT
  refine ⟨⟨pending, vs, rfl⟩, fun hback => ?_⟩
  obtain rfl : pending = [] := by simpa using hback
  exact ⟨vs, rfl, hruns⟩

/-- A conjunction that is never put together, a disjunction whose parts begin far behind the buffer,
and a negation that leads to nothing: three results come on top of the one that was there. -/
theorem loop_frame_extra_results :
    let T := ((Measure.count.handlers.table.setUnroll .conj (some .children)).setUnroll .disj
      (some (.offset 5))).setUnroll .neg (some .empty)
    let x : Formula := .disj [.conj [.var "p", .var "q"], .neg (.var "r")]
    let rest : List Item := [.process (.conj []) (some 0)]
    let before : Array Int := #[7]
    let after : Array Int := #[7, 1, 1, 1]
    T.gap? = none ∧ Unroller.Ahead T.handlers.unroll ∧
      ReachesAbove T.handlers rest ⟨.unroll x :: rest, before⟩ ⟨rest, after⟩ ∧
      ∃ vs : List Int, State.mk rest after = ⟨rest, before ++ vs⟩ := by
  intro T x rest before after
  have hT : Unroller.Ahead T.handlers.unroll := by
    refine Table.ahead_setUnroll (Table.ahead_setUnroll (Table.ahead_setUnroll ?_ _ ?_) _ ?_) _ ?_
    · rw [(table_follows Measure.count.toScheme).handlers_eq]
      exact Measure.count.ahead
    · exact Unroller.ahead_children
    · exact Unroller.ahead_offset (by decide)
    · exact Unroller.ahead_empty
  have habove : ∀ {stack : List Item}, stack.length ≠ 1 → stack ≠ rest :=
    fun h hstack => h (congrArg List.length hstack)
  have hrun : ReachesAbove T.handlers rest ⟨.unroll x :: rest, before⟩ ⟨rest, after⟩ :=
    .head ⟨habove (by decide), rfl⟩ <| .head ⟨habove (by decide), rfl⟩ <|
      .head ⟨habove (by decide), rfl⟩ <| .head ⟨habove (by decide), rfl⟩ <|
      .head ⟨habove (by decide), rfl⟩ <| .head ⟨habove (by decide), rfl⟩ .refl
  obtain ⟨vs, ht, -⟩ := (loop_frame hT hrun).2 rfl
  exact ⟨rfl, hT, hrun, vs, ht⟩

end Clausal.Engine
