import Clausal.NormalForm.Conversion
import Clausal.Proofs.Engine.Refinement
import Mathlib.Data.Nat.Factorial.Basic
import Mathlib.Tactic.Ring

/-!
How often the loop of the engine goes round.

A fold descends to lighter formulas, though these need not be parts of the one it began with: an
equivalence has both its sides copied, De Morgan's laws make new negations, and distribution copies
all the other disjuncts into every new disjunction. If a plan asks for fewer children than the
weight of its formula, a formula of weight `w` is worked off in at most `2 * w!` rounds. **Main
result**: so it is for the three passes, whatever the formula.
-/

namespace Clausal

namespace Engine

variable {α ε : Type} [Raises ε] {H : Handlers α ε}

inductive ReachesIn (H : Handlers α ε) : Nat → State α → State α → Prop
  | refl (s : State α) : ReachesIn H 0 s s
  | head {n : Nat} {s t u : State α} (hs : step H s = .next t) (ht : ReachesIn H n t u) :
      ReachesIn H (n + 1) s u

lemma ReachesIn.trans {m n : Nat} {s t u : State α} (hs : ReachesIn H m s t)
    (ht : ReachesIn H n t u) : ReachesIn H (m + n) s u := by
  induction hs with
  | refl s => rwa [Nat.zero_add]
  | @head m s t' t hstep _ ih =>
    rw [Nat.add_right_comm]
    exact .head hstep (ih ht)

lemma ReachesIn.runFor {n : Nat} {s t : State α} {r : Except ε α} (hs : ReachesIn H n s t)
    (ht : step H t = .done r) : runFor H (n + 1) s = some r := by
  induction hs with
  | refl s => simp only [Engine.runFor, ht]
  | head hstep _ ih =>
    rw [Engine.runFor, hstep]
    exact ih ht

/-- A run is over when there is nothing left on the stack, or with a fault. -/
lemma nil_or_error_of_done {s : State α} {r : Except ε α} (h : step H s = .done r) :
    s.stack = [] ∨ ∃ f, r = .error f := by
  obtain ⟨stack, buffer⟩ := s
  rcases stack with _ | ⟨e | ⟨e, _ | start⟩, rest⟩
  · exact .inl rfl
  · simp only [step] at h
    split at h <;> cases h
    exact .inr ⟨_, rfl⟩
  · cases h
    exact .inr ⟨_, rfl⟩
  · simp only [step] at h
    split at h <;> cases h
    exact .inr ⟨_, rfl⟩

/-- Within `bound` steps the stack is down to `rest`, or the run is over. -/
def Clears (H : Handlers α ε) (bound : Nat) (s : State α) (rest : List Item) : Prop :=
  ∃ n ≤ bound, ∃ t, ReachesIn H n s t ∧ (t.stack = rest ∨ ∃ r, step H t = .done r)

namespace Clears

variable {b b' : Nat} {s t : State α} {mid rest : List Item}

lemma mono (h : Clears H b s rest) (hb : b ≤ b') : Clears H b' s rest := by
  obtain ⟨n, hn, t, ht⟩ := h
  exact ⟨n, Nat.le_trans hn hb, t, ht⟩

lemma of_done {r : Except ε α} (h : step H s = .done r) : Clears H b s rest :=
  ⟨0, Nat.zero_le _, s, .refl s, .inr ⟨r, h⟩⟩

lemma of_stack (h : s.stack = rest) : Clears H b s rest :=
  ⟨0, Nat.zero_le _, s, .refl s, .inl h⟩

lemma head (hs : step H s = .next t) (ht : Clears H b t rest) : Clears H (b + 1) s rest := by
  obtain ⟨n, hn, u, hu, hend⟩ := ht
  exact ⟨n + 1, Nat.succ_le_succ hn, u, .head hs hu, hend⟩

/-- First down to `mid`, then, whatever the buffer, down to `rest`. -/
lemma trans (hs : Clears H b s mid) (hmid : ∀ buffer, Clears H b' ⟨mid, buffer⟩ rest) :
    Clears H (b + b') s rest := by
  obtain ⟨n, hn, ⟨stack, buffer⟩, ht, hstack | ⟨r, hr⟩⟩ := hs
  · cases hstack
    obtain ⟨m, hm, u, hu, hend⟩ := hmid buffer
    exact ⟨n + m, Nat.add_le_add hn hm, u, ht.trans hu, hend⟩
  · exact ⟨n, by omega, _, ht, .inr ⟨r, hr⟩⟩

lemma process (node : Formula) (start : Option Nat) (buffer : Array α) :
    Clears H 1 ⟨.process node start :: rest, buffer⟩ rest := by
  cases hstep : step H ⟨.process node start :: rest, buffer⟩ with
  | done r => exact of_done hstep
  | next t =>
    refine head hstep (of_stack ?_)
    cases moves_of_step hstep with
    | process _ => rfl

lemma children {cs : List Formula}
    (h : ∀ c ∈ cs, ∀ rest buffer, Clears H b ⟨.unroll c :: rest, buffer⟩ rest)
    (buffer : Array α) : Clears H (cs.length * b) ⟨cs.map .unroll ++ rest, buffer⟩ rest := by
  induction cs generalizing buffer with
  | nil => exact of_stack rfl
  | cons c cs ih =>
    rw [List.forall_mem_cons] at h
    rw [List.length_cons, Nat.succ_mul, Nat.add_comm]
    exact (h.1 _ buffer).trans (ih h.2)

end Clears

/-! ### Folds that ask for few children -/

/-- A plan asks for fewer children than its formula weighs. -/
def Fold.Narrow (F : Fold α ε) : Prop :=
  ∀ e p, F.plan e = .ok p → p.children.length < e.weight

lemma rounds_le {k w : Nat} (h : k < w) :
    k * (2 * (w - 1).factorial) + 2 ≤ 2 * w.factorial := by
  obtain ⟨m, rfl⟩ : ∃ m, w = m + 1 := ⟨w - 1, by omega⟩
  have hpos : 1 ≤ m.factorial := m.factorial_pos
  calc k * (2 * m.factorial) + 2
      ≤ m * (2 * m.factorial) + 2 * m.factorial :=
        Nat.add_le_add (Nat.mul_le_mul_right _ (by omega)) (by omega)
    _ = 2 * (m + 1).factorial := by rw [Nat.factorial_succ]; ring

/-- **A formula of weight `w` is worked off in at most `2 * w!` steps**, whatever is below it on the
stack and on the buffer. -/
theorem Fold.Narrow.clears {F : Fold α ε} (hF : F.Narrow) (e : Formula) (rest : List Item)
    (buffer : Array α) :
    Clears F.handlers (2 * e.weight.factorial) ⟨.unroll e :: rest, buffer⟩ rest := by
  induction hn : e.weight using Nat.strongRecOn generalizing e rest buffer with
  | ind n ih =>
    subst hn
    rcases hp : F.plan e with f | p
    · exact .of_done (F.step_of_error rest buffer hp)
    · -- the children are lighter, so each of them is worked off in the rounds of the next weight
      have hchild : ∀ c ∈ p.children, ∀ rest buffer,
          Clears F.handlers (2 * (e.weight - 1).factorial) ⟨.unroll c :: rest, buffer⟩ rest := by
        intro c hc rest buffer
        have hlt := F.descends hp hc
        have hle : c.weight.factorial ≤ (e.weight - 1).factorial :=
          Nat.factorial_le (by omega)
        exact (ih _ hlt c rest buffer rfl).mono (by omega)
      have hrounds := rounds_le (hF e p hp)
      rcases p with ⟨v⟩ | ⟨node, cs⟩ | ⟨c⟩
      · exact (Clears.of_stack rfl).head (F.step_of_value rest buffer hp) |>.mono (by omega)
      · have hnode : ∀ buffer', Clears F.handlers 1
            ⟨.process node (some buffer.size) :: rest, buffer'⟩ rest :=
          Clears.process node (some buffer.size)
        have hcs := (Clears.children hchild buffer).trans hnode
        exact (hcs.head (F.step_of_build rest buffer hp)).mono hrounds
      · have hc := (hchild c (List.mem_singleton.2 rfl) rest buffer).head
          (F.step_of_replace rest buffer hp)
        refine hc.mono ?_
        simp only [Plan.children, List.length_singleton] at hrounds
        omega

end Engine

/-! ### The passes -/

namespace Formula

lemma length_le_weights (es : List Formula) : es.length ≤ weights es := by
  induction es with
  | nil => exact Nat.le_refl 0
  | cons e es ih =>
    have := e.weight_pos
    rw [List.length_cons, weights]
    omega

lemma length_operands_lt (e : Formula) : e.operands.length < e.weight :=
  Nat.lt_of_le_of_lt (length_le_weights _) e.weights_operands_lt

end Formula

namespace NormalForm

open Engine Formula

lemma structural_narrow {e : Formula} {p : Plan Formula} (h : Structural.plan e = .ok p) :
    p.children.length < e.weight := by
  have hlt := length_operands_lt e
  cases e <;> cases h <;> exact hlt

lemma implications_narrow : Implications.fold.Narrow := by
  intro e p h
  cases e with
  | imp a b =>
    have := a.weight_pos
    have := b.weight_pos
    cases h
    simp only [Plan.node, Plan.children, operands, List.length_cons, List.length_nil, weight]
    omega
  | iff a b =>
    have := a.weight_pos
    cases h
    simp only [Plan.node, Plan.children, operands, List.length_cons, List.length_nil, weight]
    omega
  | _ => exact structural_narrow h

lemma negated_narrow {e : Formula} {p : Plan Formula} (h : Negations.negated e = .ok p) :
    p.children.length < (Formula.neg e).weight := by
  have hmap : ∀ es : List Formula, (es.map Formula.neg).length < weights es + 2 := by
    intro es
    have := length_le_weights es
    rw [List.length_map]
    omega
  cases e with
  | const b => cases h; exact weight_pos _
  | var x => cases h; exact weight_pos _
  | neg e =>
    have := e.weight_pos
    cases h
    simp only [Plan.children, List.length_singleton, weight]
    omega
  | conj es => cases h; exact hmap es
  | disj es => cases h; exact hmap es
  | imp a b => cases h
  | iff a b => cases h

lemma negations_narrow : Negations.fold.Narrow := by
  intro e p h
  cases e with
  | neg e => exact negated_narrow h
  | imp a b => cases h
  | iff a b => cases h
  | _ => exact structural_narrow h

lemma length_distribute_le (flat : List Formula) :
    (Distribution.distribute flat).operands.length ≤ weights flat := by
  unfold Distribution.distribute
  split
  · next parts after hdrop =>
    have hflat := List.takeWhile_append_dropWhile (p := fun e => !e.isConj) (l := flat)
    rw [hdrop] at hflat
    have hw := congrArg weights hflat
    have := length_le_weights parts
    simp only [operands, List.length_map]
    simp only [weights_append, weights, weight] at hw
    omega
  · exact length_le_weights flat

lemma distribution_narrow : Distribution.fold.Narrow := by
  intro e p h
  cases e with
  | disj es =>
    cases h
    have := length_distribute_le (flattenDisjuncts es)
    have := weights_flattenDisjuncts_le es
    simp only [Plan.node, Plan.children, weight]
    omega
  | neg e => exact negated_narrow h
  | imp a b => cases h
  | iff a b => cases h
  | _ => exact structural_narrow h

lemma Pass.narrow (p : Pass) : p.fold.Narrow := by
  cases p with
  | implications => exact implications_narrow
  | negations => exact negations_narrow
  | distribution => exact distribution_narrow

/-- **The loop finishes in every pass and for every formula.** After at most `2 * w!` rounds, `w`
being the weight of the formula, the stack is empty or a fault is raised, and this gives the result
of the pass. -/
theorem Pass.loop_finishes (p : Pass) (e : Formula) :
    ∃ n ≤ 2 * e.weight.factorial, ∃ t,
      ReachesIn p.fold.handlers n (.start e) t ∧ step p.fold.handlers t = .done (p.apply e) ∧
      (t.stack = [] ∨ ∃ f, p.apply e = .error f) ∧
      ∃ calls, p.fold.handlers.table.traverse (n + 1) e = some (calls, p.apply e) := by
  obtain ⟨n, hn, t, ht, hend⟩ := p.narrow.clears e [] #[]
  obtain ⟨r, hr⟩ : ∃ r, step p.fold.handlers t = .done r := by
    rcases hend with hstack | hdone
    · obtain ⟨stack, buffer⟩ := t
      cases hstack
      exact ⟨_, rfl⟩
    · exact hdone
  have hfuel : runFor p.fold.handlers (n + 1) (.start e) = some r := ht.runFor hr
  have happly : p.apply e = r := by
    rw [p.apply_eq_fold]
    exact (run_eq_iff (p.fold.halts _) r).2 ⟨n + 1, hfuel⟩
  rw [happly]
  exact ⟨n, hn, t, ht, hr, nil_or_error_of_done hr,
    (traverse_eq_iff (table_follows p.fold.toScheme).gap?_eq_none (n + 1) e r).2 hfuel⟩

end NormalForm

end Clausal
