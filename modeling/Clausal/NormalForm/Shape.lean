import Clausal.Formula.Basic

/-!
Recognising clauses and conjunctive normal forms. Conjunctions may be nested; a lone clause or
literal counts as well. **Main result**: a conjunction is in normal form if all its operands are,
anything else if it is a clause.
-/

namespace Clausal.Formula

/-- A constant, a variable or a negated variable. -/
def isLiteral : Formula → Bool
  | const _ | var _ | neg (var _) => true
  | _ => false

/-- A literal or a disjunction of literals. -/
def isClause : Formula → Bool
  | disj es => es.all isLiteral
  | e => e.isLiteral

/-- Whether all the formulas are conjunctions, at any depth, of clauses. -/
def allCnf : List Formula → Bool
  | [] => true
  | conj es :: rest => allCnf (es ++ rest)
  | e :: rest => if e.isClause then allCnf rest else false
termination_by pending => weights pending
decreasing_by
  · simp only [weights_append, weights, weight]
    omega
  · have := e.weight_pos
    simp only [weights]
    omega

def isCnf (e : Formula) : Bool := allCnf [e]

theorem allCnf_append (es fs : List Formula) : allCnf (es ++ fs) = (allCnf es && allCnf fs) := by
  fun_induction allCnf es with
  | case1 => simp
  | case2 es rest ih =>
    rw [← ih, List.cons_append, allCnf, List.append_assoc]
  | case3 e rest he hc ih =>
    rw [← ih, List.cons_append, allCnf, if_pos hc]
    exact he
  | case4 e rest he hc =>
    rw [List.cons_append, allCnf, if_neg hc, Bool.false_and]
    exact he

theorem allCnf_eq_all (es : List Formula) : allCnf es = es.all isCnf := by
  induction es with
  | nil => simp [allCnf]
  | cons e rest ih =>
    have h := allCnf_append [e] rest
    rw [List.singleton_append] at h
    rw [h, ih, List.all_cons, isCnf]

theorem isCnf_conj (es : List Formula) : isCnf (.conj es) = es.all isCnf := by
  rw [isCnf, allCnf, List.append_nil, allCnf_eq_all]

theorem isCnf_of_ne_conj {e : Formula} (h : e.kind ≠ .conj) : e.isCnf = e.isClause := by
  cases e with
  | conj es => exact absurd rfl h
  | _ => simp [isCnf, allCnf]

end Clausal.Formula
