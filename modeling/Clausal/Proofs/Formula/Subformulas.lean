import Clausal.Formula.Basic
import Mathlib.Tactic.Lemma

/-!
Everything that stands inside a formula, in reading order.

What is asked of all subformulas is asked of the root and of the operands in turn. The variables
of a formula, as they occur, are read off its subformulas.
-/

namespace Clausal.Formula

/-- Induction on the operands, whatever the connective. -/
lemma operands_induction {motive : Formula → Prop}
    (step : ∀ e, (∀ c ∈ e.operands, motive c) → motive e) (e : Formula) : motive e := by
  induction hn : e.weight using Nat.strongRecOn generalizing e with
  | ind n ih =>
    subst hn
    exact step e fun c hc => ih _ (weight_lt_of_mem_operands hc) c rfl

mutual

/-- The formula and all that stands inside it, each root before its operands. -/
def subformulas : Formula → List Formula
  | const b => [const b]
  | var x => [var x]
  | neg e => neg e :: subformulas e
  | conj es => conj es :: subformulasAll es
  | disj es => disj es :: subformulasAll es
  | imp a b => imp a b :: (subformulas a ++ subformulas b)
  | iff a b => iff a b :: (subformulas a ++ subformulas b)

def subformulasAll : List Formula → List Formula
  | [] => []
  | e :: es => subformulas e ++ subformulasAll es

end

lemma subformulasAll_eq (es : List Formula) : subformulasAll es = es.flatMap subformulas := by
  induction es with
  | nil => rfl
  | cons e es ih => rw [subformulasAll, ih, List.flatMap_cons]

lemma subformulas_eq (e : Formula) : e.subformulas = e :: e.operands.flatMap subformulas := by
  cases e <;> simp [subformulas, operands, subformulasAll_eq]

/-- Every subformula has the property. -/
def Every (P : Formula → Prop) (e : Formula) : Prop := ∀ f ∈ e.subformulas, P f

instance (P : Formula → Prop) [DecidablePred P] (e : Formula) : Decidable (e.Every P) :=
  inferInstanceAs (Decidable (∀ f ∈ e.subformulas, P f))

/-- At the root, and in every operand. -/
lemma every_iff {P : Formula → Prop} {e : Formula} :
    e.Every P ↔ P e ∧ ∀ c ∈ e.operands, c.Every P := by
  unfold Every
  rw [subformulas_eq, List.forall_mem_cons]
  refine and_congr_right fun _ => ⟨fun h c hc f hf => ?_, fun h f hf => ?_⟩
  · exact h f (List.mem_flatMap.2 ⟨c, hc, hf⟩)
  · obtain ⟨c, hc, hf⟩ := List.mem_flatMap.1 hf
    exact h c hc f hf

lemma Every.root {P : Formula → Prop} {e : Formula} (h : e.Every P) : P e := (every_iff.1 h).1

lemma Every.operand {P : Formula → Prop} {e c : Formula} (h : e.Every P) (hc : c ∈ e.operands) :
    c.Every P :=
  (every_iff.1 h).2 c hc

lemma Every.mono {P Q : Formula → Prop} (hPQ : ∀ f, P f → Q f) {e : Formula} (h : e.Every P) :
    e.Every Q :=
  fun f hf => hPQ f (h f hf)

/-! ### Variables -/

def name? : Formula → Option String
  | var x => some x
  | _ => none

/-- The names of the variables as they occur, left to right, with repetitions. -/
def occurrences (e : Formula) : List String := e.subformulas.filterMap name?

lemma kind_ne_var {e : Formula} (h : ∀ x, e ≠ var x) : e.kind ≠ .var := by
  cases e with
  | var x => exact absurd rfl (h x)
  | _ => simp [kind]

lemma occurrences_of_ne_var {e : Formula} (h : e.kind ≠ .var) :
    e.occurrences = e.operands.flatMap occurrences := by
  have hroot : e.name? = none := by
    cases e with
    | var x => exact absurd rfl h
    | _ => rfl
  rw [occurrences, subformulas_eq, List.filterMap_cons, hroot, List.filterMap_flatMap]
  rfl

@[simp] lemma occurrences_const (b : Bool) : (const b).occurrences = [] := rfl

@[simp] lemma occurrences_var (x : String) : (var x).occurrences = [x] := rfl

@[simp] lemma occurrences_neg (e : Formula) : (neg e).occurrences = e.occurrences := by
  rw [occurrences_of_ne_var (by simp [kind])]
  simp [operands]

@[simp] lemma occurrences_conj (es : List Formula) :
    (conj es).occurrences = es.flatMap occurrences := by
  rw [occurrences_of_ne_var (by simp [kind])]
  simp [operands]

@[simp] lemma occurrences_disj (es : List Formula) :
    (disj es).occurrences = es.flatMap occurrences := by
  rw [occurrences_of_ne_var (by simp [kind])]
  simp [operands]

@[simp] lemma occurrences_imp (a b : Formula) :
    (imp a b).occurrences = a.occurrences ++ b.occurrences := by
  rw [occurrences_of_ne_var (by simp [kind])]
  simp [operands]

@[simp] lemma occurrences_iff (a b : Formula) :
    (iff a b).occurrences = a.occurrences ++ b.occurrences := by
  rw [occurrences_of_ne_var (by simp [kind])]
  simp [operands]

lemma mem_occurrences_of_operand {e c : Formula} {x : String} (hc : c ∈ e.operands)
    (hx : x ∈ c.occurrences) : x ∈ e.occurrences := by
  have hkind : e.kind ≠ .var := by
    rintro h
    cases e <;> simp_all [kind, operands]
  rw [occurrences_of_ne_var hkind]
  exact List.mem_flatMap.2 ⟨c, hc, hx⟩

/-! ### Arity -/

/-- Every conjunction and every disjunction has at least `n` operands. -/
def MinArity (n : Nat) : Formula → Prop :=
  Every fun f => f.kind = .conj ∨ f.kind = .disj → n ≤ f.operands.length

instance (n : Nat) (e : Formula) : Decidable (e.MinArity n) :=
  inferInstanceAs (Decidable (Every _ e))

section MinArity

variable {n : Nat}

@[simp] lemma minArity_const (b : Bool) : (const b).MinArity n :=
  every_iff.2 ⟨by simp [kind], by simp [operands]⟩

@[simp] lemma minArity_var (x : String) : (var x).MinArity n :=
  every_iff.2 ⟨by simp [kind], by simp [operands]⟩

@[simp] lemma minArity_neg {e : Formula} : (neg e).MinArity n ↔ e.MinArity n := by
  unfold MinArity
  rw [every_iff]
  simp [kind, operands]

@[simp] lemma minArity_conj {es : List Formula} :
    (conj es).MinArity n ↔ n ≤ es.length ∧ ∀ e ∈ es, e.MinArity n := by
  unfold MinArity
  rw [every_iff]
  simp [kind, operands]

@[simp] lemma minArity_disj {es : List Formula} :
    (disj es).MinArity n ↔ n ≤ es.length ∧ ∀ e ∈ es, e.MinArity n := by
  unfold MinArity
  rw [every_iff]
  simp [kind, operands]

@[simp] lemma minArity_imp {a b : Formula} :
    (imp a b).MinArity n ↔ a.MinArity n ∧ b.MinArity n := by
  unfold MinArity
  rw [every_iff]
  simp [kind, operands]

@[simp] lemma minArity_iff {a b : Formula} :
    (iff a b).MinArity n ↔ a.MinArity n ∧ b.MinArity n := by
  unfold MinArity
  rw [every_iff]
  simp [kind, operands]

end MinArity

lemma MinArity.mono {m n : Nat} (hmn : m ≤ n) {e : Formula} (h : e.MinArity n) : e.MinArity m :=
  Every.mono (fun _ hf hk => Nat.le_trans hmn (hf hk)) h

end Clausal.Formula
