import Clausal.Folds.Structural

/-!
Eliminating implications: `a ⇒ b` becomes `¬a ∨ b`, and `a ⇔ b` becomes `(a ⇒ b) ∧ (b ⇒ a)` with
both implications eliminated in turn.
-/

namespace Clausal.NormalForm

namespace Implications

open Engine

def plan : Formula → Except Fault (Plan Formula)
  | .imp a b => .ok (.node (.disj [.neg a, b]))
  | .iff a b => .ok (.node (.conj [.imp a b, .imp b a]))
  | e => Structural.plan e

def combine : Kind → List Formula → Except Fault Formula
  | .imp, a :: b :: _ => .ok (.disj [a, b])
  | .iff, a :: b :: _ => .ok (.conj [a, b])
  | kind, ps => Structural.rebuild kind ps

theorem plan_descends {e c : Formula} {p : Plan Formula} (h : plan e = .ok p)
    (hc : c ∈ p.children) : c.weight < e.weight := by
  cases e with
  | imp a b =>
    have := a.weight_pos
    have := b.weight_pos
    cases h
    simp only [Plan.node, Plan.children, Formula.operands, List.mem_cons, List.not_mem_nil,
      or_false] at hc
    rcases hc with rfl | rfl <;> simp only [Formula.weight] <;> omega
  | iff a b =>
    cases h
    simp only [Plan.node, Plan.children, Formula.operands, List.mem_cons, List.not_mem_nil,
      or_false] at hc
    rcases hc with rfl | rfl <;> simp only [Formula.weight] <;> omega
  | _ => exact Structural.plan_descends h hc

def fold : Fold Formula where
  plan := plan
  combine := combine
  descends := plan_descends

end Implications

/-- The formula without implications and equivalences. -/
def eliminateImplications (e : Formula) : Except Fault Formula := Implications.fold.apply e

end Clausal.NormalForm
