/-!
Propositional formulas: constants, variables, negation, conjunction and disjunction of any
number of operands, implication and equivalence.

A formula is known by its label (everything but the operands) and its operands. The weight
is the measure by which every pass of the library descends.
-/

namespace Clausal

/-- The connective, or the sort of atom, at the root of a formula. -/
inductive Kind where
  | const
  | var
  | neg
  | conj
  | disj
  | imp
  | iff
  deriving DecidableEq

namespace Kind

def all : List Kind := [const, var, neg, conj, disj, imp, iff]

/-- The word for a kind inside a message. -/
def name : Kind → String
  | const => "bool"
  | var => "var"
  | neg => "not"
  | conj => "and"
  | disj => "or"
  | imp => "implies"
  | iff => "equivalent"

def title : Kind → String
  | const => "Bool"
  | var => "Var"
  | neg => "Not"
  | conj => "And"
  | disj => "Or"
  | imp => "Implies"
  | iff => "Equivalent"

theorem mem_all (k : Kind) : k ∈ all := by cases k <;> decide

end Kind

inductive Formula where
  | const (value : Bool)
  | var (name : String)
  | neg (operand : Formula)
  | conj (operands : List Formula)
  | disj (operands : List Formula)
  | imp (left right : Formula)
  | iff (left right : Formula)
  deriving Inhabited

/-- The root of a formula without its operands; conjunctions and disjunctions keep their arity. -/
inductive Label where
  | const (value : Bool)
  | var (name : String)
  | neg
  | conj (arity : Nat)
  | disj (arity : Nat)
  | imp
  | iff
  deriving DecidableEq

namespace Formula

def kind : Formula → Kind
  | const _ => .const
  | var _ => .var
  | neg _ => .neg
  | conj _ => .conj
  | disj _ => .disj
  | imp _ _ => .imp
  | iff _ _ => .iff

def operands : Formula → List Formula
  | const _ | var _ => []
  | neg e => [e]
  | conj es | disj es => es
  | imp a b | iff a b => [a, b]

def label : Formula → Label
  | const b => .const b
  | var x => .var x
  | neg _ => .neg
  | conj es => .conj es.length
  | disj es => .disj es.length
  | imp _ _ => .imp
  | iff _ _ => .iff

/-- Induction on formulas, with the operands of a conjunction or disjunction by membership. -/
@[elab_as_elim, induction_eliminator]
theorem induction {motive : Formula → Prop}
    (const : ∀ b, motive (.const b)) (var : ∀ x, motive (.var x))
    (neg : ∀ e, motive e → motive (.neg e))
    (conj : ∀ es, (∀ e ∈ es, motive e) → motive (.conj es))
    (disj : ∀ es, (∀ e ∈ es, motive e) → motive (.disj es))
    (imp : ∀ a b, motive a → motive b → motive (.imp a b))
    (iff : ∀ a b, motive a → motive b → motive (.iff a b)) (e : Formula) : motive e :=
  let rec go : ∀ e, motive e
    | .const b => const b
    | .var x => var x
    | .neg e => neg e (go e)
    | .conj es => conj es fun e _ => go e
    | .disj es => disj es fun e _ => go e
    | .imp a b => imp a b (go a) (go b)
    | .iff a b => iff a b (go a) (go b)
  go e

mutual

/-- The number of nodes, an equivalence counting twice. -/
def weight : Formula → Nat
  | const _ => 1
  | var _ => 1
  | neg e => e.weight + 1
  | conj es => weights es + 1
  | disj es => weights es + 1
  | imp a b => a.weight + b.weight + 1
  | iff a b => a.weight + b.weight + 2

def weights : List Formula → Nat
  | [] => 0
  | e :: es => e.weight + weights es

end

@[simp] theorem weights_append (es fs : List Formula) :
    weights (es ++ fs) = weights es + weights fs := by
  induction es with
  | nil => simp [weights]
  | cons e es ih => simp [weights, ih, Nat.add_assoc]

@[simp] theorem weights_reverse (es : List Formula) : weights es.reverse = weights es := by
  induction es with
  | nil => rfl
  | cons e es ih => simp [weights, ih, Nat.add_comm]

theorem weight_pos (e : Formula) : 0 < e.weight := by
  cases e <;> simp [weight]

theorem weight_le_weights {e : Formula} {es : List Formula} (h : e ∈ es) :
    e.weight ≤ weights es := by
  induction es with
  | nil => simp at h
  | cons f es ih =>
    rcases List.mem_cons.1 h with rfl | h
    · simp [weights]
    · exact Nat.le_trans (ih h) (by simp [weights])

theorem weights_operands_lt (e : Formula) : weights e.operands < e.weight := by
  cases e <;> simp only [operands, weights, weight] <;> omega

theorem weight_lt_of_mem_operands {e f : Formula} (h : f ∈ e.operands) : f.weight < e.weight :=
  Nat.lt_of_le_of_lt (weight_le_weights h) (weights_operands_lt e)

theorem eq_of_label_eq {a b : Formula} (hl : a.label = b.label) (ho : a.operands = b.operands) :
    a = b := by
  cases a <;> cases b <;> simp_all [label, operands]

theorem length_operands_of_label_eq {a b : Formula} (h : a.label = b.label) :
    a.operands.length = b.operands.length := by
  cases a <;> cases b <;> simp_all [label, operands]

end Formula

end Clausal
