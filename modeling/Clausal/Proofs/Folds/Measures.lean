import Clausal.Folds.Measure
import Clausal.Proofs.Engine.CallOrder
import Mathlib.Data.Int.Order.Basic
import Mathlib.Order.Bounds.Defs
import Mathlib.Tactic.Choose

/-!
What the measures measure.

**Main results**: the count is the number of subformulas, as often as they occur (`count_apply`),
and the depth is the number of connectives on the longest way down (`depth_apply`). Neither fails.
-/

namespace Clausal.Measure

open Engine Formula

/-! ### The count -/

lemma foldl_add_length (es : List Formula) (n : Int) :
    (es.map fun e => (e.subformulas.length : Int)).foldl (· + ·) n =
      n + (es.flatMap subformulas).length := by
  induction es generalizing n with
  | nil => simp
  | cons e es ih =>
    rw [List.map_cons, List.foldl_cons, ih, List.flatMap_cons, List.length_append]
    omega

/-- **The number of nodes.** -/
theorem count_apply (e : Formula) : count.apply e = .ok e.subformulas.length := by
  rw [Fold.apply_eq_eval]
  induction e using operands_induction with
  | step e ih =>
    have hnode : count.plan e = .ok (Plan.node e) →
        count.eval e = .ok e.subformulas.length := fun hplan => by
      rw [Fold.eval_of_node_ok hplan ih, subformulas_eq, List.length_cons]
      exact congrArg Except.ok ((foldl_add_length e.operands 1).trans (by omega))
    cases e with
    | const b => exact Fold.eval_const (F := count) rfl b
    | var x => exact Fold.eval_var (F := count) rfl x
    | _ => exact hnode rfl

/-! ### The depth -/

/-- A way down that begins at the root passes this many connectives. -/
inductive Descent : Formula → Int → Prop
  | stop (e : Formula) : Descent e 0
  | last {e : Formula} : Connective e.kind → Descent e 1
  | step {e c : Formula} {n : Int} : c ∈ e.operands → Descent c n → Descent e (n + 1)

lemma max?_getD_cases (ns : List Int) :
    (∀ n ∈ ns, n ≤ ns.max?.getD 0) ∧ (ns.max?.getD 0 = 0 ∨ ns.max?.getD 0 ∈ ns) := by
  cases hmax : ns.max? with
  | none => simp [List.max?_eq_none_iff.1 hmax]
  | some m =>
    obtain ⟨hmem, hle⟩ := List.max?_eq_some_iff.1 hmax
    exact ⟨hle, .inr hmem⟩

lemma isGreatest_atom {e : Formula} (h : ¬Connective e.kind) : IsGreatest {n | Descent e n} 0 := by
  refine ⟨.stop e, fun n hn => ?_⟩
  cases hn with
  | stop => exact Int.le_refl _
  | last hkind => exact absurd hkind h
  | step hc _ =>
    rw [operands_of_not_connective h] at hc
    cases hc

lemma isGreatest_node {e : Formula} (hkind : Connective e.kind) {depths : Formula → Int}
    (h : ∀ c ∈ e.operands, IsGreatest {n | Descent c n} (depths c)) :
    IsGreatest {n | Descent e n} (1 + (e.operands.map depths).max?.getD 0) := by
  obtain ⟨hle, hattained⟩ := max?_getD_cases (e.operands.map depths)
  generalize (e.operands.map depths).max?.getD 0 = m at hle hattained
  rw [List.forall_mem_map] at hle
  rw [List.mem_map] at hattained
  have hpos : 0 ≤ m := by
    obtain rfl | ⟨c, hc, rfl⟩ := hattained
    · exact Int.le_refl _
    · exact (h c hc).2 (.stop c)
  refine ⟨?_, fun n hn => ?_⟩
  · obtain rfl | ⟨c, hc, rfl⟩ := hattained
    · exact .last hkind
    · rw [Int.add_comm]
      exact Descent.step hc (h c hc).1
  · cases hn with
    | stop => omega
    | last => omega
    | step hc hn =>
      have := (h _ hc).2 hn
      have := hle _ hc
      omega

/-- **The longest way down.** -/
theorem depth_apply (e : Formula) :
    ∃ d, depth.apply e = .ok d ∧ IsGreatest {n | Descent e n} d := by
  rw [Fold.apply_eq_eval]
  induction e using operands_induction with
  | step e ih =>
    choose! depths heval hgreatest using ih
    by_cases hkind : Connective e.kind
    · have hplan : depth.plan e = .ok (Plan.node e) := by
        cases e with
        | const b => exact absurd rfl hkind.1
        | var x => exact absurd rfl hkind.2
        | _ => rfl
      exact ⟨_, Fold.eval_of_node_ok hplan heval, isGreatest_node hkind hgreatest⟩
    · refine ⟨0, ?_, isGreatest_atom hkind⟩
      obtain ⟨b, rfl⟩ | ⟨x, rfl⟩ := atom_of_not_connective hkind
      · exact Fold.eval_const (F := depth) rfl b
      · exact Fold.eval_var (F := depth) rfl x

end Clausal.Measure
