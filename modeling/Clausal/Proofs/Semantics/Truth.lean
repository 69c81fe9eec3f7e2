import Clausal.Proofs.Formula.Subformulas
import Clausal.Semantics.Evaluation

/-!
Truth by recursion on the formula, for values of all variables.

The evaluation of a formula looks up names, which may have no value. **Main result**: if every
variable of the formula has one, evaluation returns the truth value. Truth depends on the variables
of the formula only.
-/

namespace Clausal

namespace Formula

mutual

/-- The truth value of a formula, every variable having one. -/
def truth (w : String → Bool) : Formula → Bool
  | const b => b
  | var x => w x
  | neg e => !truth w e
  | conj es => (truths w es).all id
  | disj es => (truths w es).any id
  | imp a b => !truth w a || truth w b
  | iff a b => truth w a == truth w b

def truths (w : String → Bool) : List Formula → List Bool
  | [] => []
  | e :: es => truth w e :: truths w es

end

variable {w w' : String → Bool}

lemma truths_eq_map (es : List Formula) : truths w es = es.map (truth w) := by
  induction es with
  | nil => rfl
  | cons e es ih => rw [truths, ih, List.map_cons]

@[simp] lemma truth_const (b : Bool) : (const b).truth w = b := rfl

@[simp] lemma truth_var (x : String) : (var x).truth w = w x := rfl

@[simp] lemma truth_neg (e : Formula) : (neg e).truth w = !e.truth w := rfl

@[simp] lemma truth_conj (es : List Formula) : (conj es).truth w = es.all (truth w) := by
  rw [truth, truths_eq_map, List.all_map]
  rfl

@[simp] lemma truth_disj (es : List Formula) : (disj es).truth w = es.any (truth w) := by
  rw [truth, truths_eq_map, List.any_map]
  rfl

@[simp] lemma truth_imp (a b : Formula) : (imp a b).truth w = (!a.truth w || b.truth w) := rfl

@[simp] lemma truth_iff (a b : Formula) : (iff a b).truth w = (a.truth w == b.truth w) := rfl

lemma truth_congr {e : Formula} (h : ∀ x ∈ e.occurrences, w x = w' x) :
    e.truth w = e.truth w' := by
  have hall : ∀ {es : List Formula}, (∀ e ∈ es, (∀ x ∈ e.occurrences, w x = w' x) →
      e.truth w = e.truth w') → (∀ x ∈ es.flatMap occurrences, w x = w' x) →
      es.map (truth w) = es.map (truth w') :=
    fun ih h => List.map_congr_left fun e he =>
      ih e he fun x hx => h x (List.mem_flatMap.2 ⟨e, he, hx⟩)
  induction e with
  | const b => rfl
  | var x => exact h x (by simp)
  | neg e ih => simp [ih (by simpa using h)]
  | conj es ih => rw [truth, truth, truths_eq_map, truths_eq_map, hall ih (by simpa using h)]
  | disj es ih => rw [truth, truth, truths_eq_map, truths_eq_map, hall ih (by simpa using h)]
  | imp a b iha ihb =>
    simp only [occurrences_imp, List.mem_append, or_imp, forall_and] at h
    simp [iha h.1, ihb h.2]
  | iff a b iha ihb =>
    simp only [occurrences_iff, List.mem_append, or_imp, forall_and] at h
    simp [iha h.1, ihb h.2]

/-- The truth tables give the truth of a connective from that of its operands. -/
lemma combine_truth {e : Formula} (hc : e.kind ≠ .const) (hv : e.kind ≠ .var) :
    Evaluation.combine e.kind (e.operands.map (truth w)) = .ok (e.truth w) := by
  cases e with
  | const b => exact absurd rfl hc
  | var x => exact absurd rfl hv
  | neg e => rfl
  | conj es => rw [truth, truths_eq_map]; rfl
  | disj es => rw [truth, truths_eq_map]; rfl
  | imp a b =>
    simp only [kind, operands, List.map_cons, List.map_nil, truth_imp]
    cases a.truth w <;> rfl
  | iff a b => rfl

end Formula

/-! ### Assignments that cover a formula -/

namespace Valuation

/-- Every variable of the formula has a value. -/
def Covers (v : Valuation) (e : Formula) : Prop := ∀ x ∈ e.occurrences, (v x).isSome

instance (v : Valuation) (e : Formula) : Decidable (v.Covers e) :=
  inferInstanceAs (Decidable (∀ x ∈ e.occurrences, _))

/-- The values, with `false` for the names that have none. -/
def total (v : Valuation) (x : String) : Bool := (v x).getD false

lemma Covers.mono {v : Valuation} {e c : Formula} (h : v.Covers e)
    (hc : c.occurrences ⊆ e.occurrences) : v.Covers c :=
  fun x hx => h x (hc hx)

end Valuation

namespace Formula

variable {e : Formula} {v : Valuation}

/-- One step for every connective: its operands are covered, hence evaluated. -/
lemma evaluate_node (hconst : e.kind ≠ .const) (hvar : e.kind ≠ .var) (h : v.Covers e)
    (ih : ∀ c ∈ e.operands, v.Covers c → c.evaluate v = .ok (c.truth v.total)) :
    e.evaluate v = .ok (e.truth v.total) := by
  have hops : ∀ c ∈ e.operands, c.evaluate v = .ok (c.truth v.total) :=
    fun c hc => ih c hc (h.mono fun x hx => mem_occurrences_of_operand hc hx)
  rw [evaluate_of_operands hconst hvar, Engine.Fold.mapM_ok hops]
  exact combine_truth hconst hvar

/-- **Evaluation returns the truth value** when all variables have values. -/
theorem evaluate_eq_truth (h : v.Covers e) : e.evaluate v = .ok (e.truth v.total) := by
  induction e with
  | const b => rw [evaluate_const, truth_const]
  | var x =>
    obtain ⟨b, hb⟩ := Option.isSome_iff_exists.1 (h x (by simp))
    rw [evaluate_var, Evaluation.lookup, truth_var, Valuation.total, hb]
    rfl
  | neg e ih =>
    exact evaluate_node (by simp [kind]) (by simp [kind]) h (by simpa [operands] using ih)
  | conj es ih => exact evaluate_node (by simp [kind]) (by simp [kind]) h ih
  | disj es ih => exact evaluate_node (by simp [kind]) (by simp [kind]) h ih
  | imp a b iha ihb =>
    exact evaluate_node (by simp [kind]) (by simp [kind]) h (by simpa [operands] using ⟨iha, ihb⟩)
  | iff a b iha ihb =>
    exact evaluate_node (by simp [kind]) (by simp [kind]) h (by simpa [operands] using ⟨iha, ihb⟩)

end Formula

end Clausal
