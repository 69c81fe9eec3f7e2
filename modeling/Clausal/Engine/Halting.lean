import Clausal.Engine.Machine

/-!
Running the engine to its end.

What a step can do is said once, by `Moves`, and what holds of steps is read off it. A state halts
if no infinite run begins in it. On halting states `run` gives the result, and no fuel is needed.
**Main result**: if a table unrolls every formula into lighter ones only, every state halts.
-/

namespace Clausal.Engine

variable {α ε : Type}

/-- What a step can do: add a value to the buffer, put items on the stack, or put the parts from a
place on together. -/
inductive Moves (H : Handlers α ε) : State α → State α → Prop
  | leaf {e v rest buffer} : H.unroll e buffer.size = .ok (.leaf v) →
      Moves H ⟨.unroll e :: rest, buffer⟩ ⟨rest, buffer.push v⟩
  | expand {e items rest buffer} : H.unroll e buffer.size = .ok (.expand items) →
      Moves H ⟨.unroll e :: rest, buffer⟩ ⟨items.reverse ++ rest, buffer⟩
  | process {node start rest buffer v} :
      H.assemble node.kind (buffer.extract start).toList = .ok v →
      Moves H ⟨.process node (some start) :: rest, buffer⟩ ⟨rest, (buffer.shrink start).push v⟩

variable [Raises ε]

theorem moves_of_step {H : Handlers α ε} {s t : State α} (h : step H s = .next t) :
    Moves H s t := by
  obtain ⟨stack, buffer⟩ := s
  rcases stack with _ | ⟨e | ⟨node, _ | start⟩, rest⟩
  · cases h
  · simp only [step] at h
    split at h
    · next hunroll => cases h; exact .leaf hunroll
    · next hunroll => cases h; exact .expand hunroll
    · cases h
  · cases h
  · simp only [step] at h
    split at h
    · next hassemble => cases h; exact .process hassemble
    · cases h

def Next (H : Handlers α ε) (t s : State α) : Prop := step H s = .next t

def Halts (H : Handlers α ε) (s : State α) : Prop := Acc (Next H) s

theorem Halts.next {H : Handlers α ε} {s t : State α} (h : Halts H s) (hs : step H s = .next t) :
    Halts H t :=
  Acc.inv h hs

instance (H : Handlers α ε) : WellFoundedRelation {s // Halts H s} where
  rel t s := Next H t.1 s.1
  wf := ⟨fun ⟨s, h⟩ => by
    induction h with
    | intro s hs ih => exact ⟨_, fun ⟨t, _⟩ ht => ih t ht⟩⟩

def run (H : Handlers α ε) (s : State α) (h : Halts H s) : Except ε α :=
  match hs : step H s with
  | .next t => run H t (h.next hs)
  | .done r => r
termination_by (⟨s, h⟩ : {s // Halts H s})
decreasing_by exact hs

theorem run_of_next {H : Handlers α ε} {s t : State α} (h : Halts H s) (hs : step H s = .next t) :
    run H s h = run H t (h.next hs) := by
  rw [run]
  split
  · next t' ht => cases hs.symm.trans ht; rfl
  · next r hr => cases hs.symm.trans hr

theorem run_of_done {H : Handlers α ε} {s : State α} {r : Except ε α} (h : Halts H s)
    (hs : step H s = .done r) : run H s h = r := by
  rw [run]
  split
  · next t ht => cases hs.symm.trans ht
  · next r' hr => cases hs.symm.trans hr; rfl

/-- The run of a halting state and the bounded runs agree. -/
theorem run_eq_iff {H : Handlers α ε} {s : State α} (h : Halts H s) (r : Except ε α) :
    run H s h = r ↔ ∃ fuel, runFor H fuel s = some r := by
  induction h with
  | intro s hs ih =>
    have h : Halts H s := ⟨s, hs⟩
    cases hstep : step H s with
    | next t =>
      rw [run_of_next h hstep, ih t hstep]
      constructor
      · rintro ⟨n, hn⟩
        exact ⟨n + 1, by simpa [runFor, hstep] using hn⟩
      · rintro ⟨n, hn⟩
        cases n with
        | zero => simp [runFor] at hn
        | succ n => exact ⟨n, by simpa [runFor, hstep] using hn⟩
    | done r' =>
      rw [run_of_done h hstep]
      constructor
      · rintro rfl
        exact ⟨1, by simp [runFor, hstep]⟩
      · rintro ⟨n, hn⟩
        cases n with
        | zero => simp [runFor] at hn
        | succ n => simpa [runFor, hstep] using hn

/-- Every formula that is asked for while `e` is unrolled is lighter than `e`. -/
def Handlers.Descends (H : Handlers α ε) : Prop :=
  ∀ e start items, H.unroll e start = .ok (.expand items) →
    ∀ c, .unroll c ∈ items → c.weight < e.weight

theorem halts_nil (H : Handlers α ε) (buffer : Array α) : Halts H ⟨[], buffer⟩ :=
  ⟨_, fun _ h => by cases moves_of_step h⟩

theorem halts_process {H : Handlers α ε} {rest : List Item} (h : ∀ buffer, Halts H ⟨rest, buffer⟩)
    (e : Formula) (start : Option Nat) (buffer : Array α) :
    Halts H ⟨.process e start :: rest, buffer⟩ := by
  refine ⟨_, fun t ht => ?_⟩
  cases moves_of_step ht with
  | process _ => exact h _

theorem halts_unroll {H : Handlers α ε} (hH : H.Descends) {rest : List Item}
    (h : ∀ buffer, Halts H ⟨rest, buffer⟩) (e : Formula) (buffer : Array α) :
    Halts H ⟨.unroll e :: rest, buffer⟩ := by
  induction hn : e.weight using Nat.strongRecOn generalizing e rest buffer with
  | ind n ih =>
    subst hn
    refine ⟨_, fun t ht => ?_⟩
    cases moves_of_step ht with
    | leaf _ => exact h _
    | @expand _ items _ _ hitems =>
      have hlt : ∀ c, .unroll c ∈ items.reverse → c.weight < e.weight :=
        fun c hc => hH _ _ _ hitems c (List.mem_reverse.1 hc)
      generalize items.reverse = items at hlt
      suffices ∀ buffer, Halts H ⟨items ++ rest, buffer⟩ from this _
      induction items with
      | nil => exact h
      | cons i items ihi =>
        have hrest := ihi fun c hc => hlt c (List.mem_cons_of_mem _ hc)
        intro buffer
        cases i with
        | unroll c => exact ih _ (hlt c List.mem_cons_self) hrest c buffer rfl
        | process c start => exact halts_process hrest c start buffer

/-- **Descending tables halt**, whatever is on the stack. -/
theorem Handlers.Descends.halts {H : Handlers α ε} (hH : H.Descends) (s : State α) : Halts H s := by
  obtain ⟨stack, buffer⟩ := s
  induction stack generalizing buffer with
  | nil => exact halts_nil H buffer
  | cons i rest ih =>
    cases i with
    | unroll e => exact halts_unroll hH ih e buffer
    | process e start => exact halts_process ih e start buffer

end Clausal.Engine
