import Clausal.Engine.Fold

/-!
Formulas as text, such as `((¬p ∨ q) ∧ r)`.

Every conjunction, disjunction, implication and equivalence is put in parentheses, and a negation
stands right before its operand. **Main result**: rendering on the engine never fails, and its
result obeys these rules.
-/

namespace Clausal

namespace Rendering

open Engine

def word (b : Bool) : String := if b then "true" else "false"

/-- The parts in parentheses, with the symbol between them. -/
def group (symbol : String) (parts : List String) : String :=
  "(" ++ (" " ++ symbol ++ " ").intercalate parts ++ ")"

def single : List String → Except Fault String
  | [p] => .ok p
  | ps => .error (.onePart ps.length)

def pair (symbol : String) : List String → Except Fault String
  | [a, b] => .ok (group symbol [a, b])
  | ps => .error (.twoParts symbol ps.length)

def plan : Formula → Except Fault (Plan String) :=
  Plan.atoms (fun b => .ok (word b)) .ok

def combine : Kind → List String → Except Fault String
  | .const, ps => single ps
  | .var, ps => single ps
  | .neg, ps => ("¬" ++ ·) <$> single ps
  | .conj, ps => .ok (group "∧" ps)
  | .disj, ps => .ok (group "∨" ps)
  | .imp, ps => pair "⇒" ps
  | .iff, ps => pair "⇔" ps

theorem plan_descends {e c : Formula} {p : Plan String} (h : plan e = .ok p)
    (hc : c ∈ p.children) : c.weight < e.weight :=
  Plan.atoms_descends h hc

def fold : Fold String where
  plan := plan
  combine := combine
  descends := plan_descends

mutual

/-- The rules of the text, by recursion. -/
def text : Formula → String
  | .const b => word b
  | .var x => x
  | .neg e => "¬" ++ text e
  | .conj es => group "∧" (texts es)
  | .disj es => group "∨" (texts es)
  | .imp a b => group "⇒" [text a, text b]
  | .iff a b => group "⇔" [text a, text b]

def texts : List Formula → List String
  | [] => []
  | e :: es => text e :: texts es

end

theorem texts_eq_map (es : List Formula) : texts es = es.map text := by
  induction es with
  | nil => rfl
  | cons e es ih => rw [texts, ih, List.map_cons]

theorem fold_eval (e : Formula) : fold.eval e = .ok (text e) := by
  induction e with
  | const b => rw [Fold.eval_const rfl, text]
  | var x => rw [Fold.eval_var rfl, text]
  | neg e ih =>
    rw [Fold.eval_of_node_ok rfl (by simpa [Formula.operands] using ih)]
    rfl
  | conj es ih =>
    rw [Fold.eval_of_node_ok rfl (by simpa [Formula.operands] using ih), text, texts_eq_map]
    rfl
  | disj es ih =>
    rw [Fold.eval_of_node_ok rfl (by simpa [Formula.operands] using ih), text, texts_eq_map]
    rfl
  | imp a b iha ihb =>
    rw [Fold.eval_of_node_ok rfl (by simpa [Formula.operands] using ⟨iha, ihb⟩)]
    rfl
  | iff a b iha ihb =>
    rw [Fold.eval_of_node_ok rfl (by simpa [Formula.operands] using ⟨iha, ihb⟩)]
    rfl

/-- **Rendering never fails.** -/
theorem fold_apply (e : Formula) : fold.apply e = .ok (text e) := by
  rw [Fold.apply_eq_eval, fold_eval]

end Rendering

namespace Formula

def render (e : Formula) : String :=
  (Rendering.fold.apply e).toOption.get (by simp [Rendering.fold_apply, Except.toOption])

/-- The text under the heading of the formula's kind. -/
def describe (e : Formula) : String := e.kind.title ++ "('" ++ e.render ++ "')"

@[simp] theorem render_eq_text (e : Formula) : e.render = Rendering.text e := by
  simp [render, Rendering.fold_apply, Except.toOption]

end Formula

end Clausal
