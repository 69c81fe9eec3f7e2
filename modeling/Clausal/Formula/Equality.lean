import Clausal.Formula.Basic

/-!
Equality of formulas, and the list of labels that stands for a formula as a key.

Both are loops over a list of what is still to be looked at, so a formula may be nested to any
depth. **Main results**: the comparison decides equality, and a signature is the label of the root
followed by the signatures of the operands.
-/

namespace Clausal.Formula

theorem weights_zip_le (es fs : List Formula) :
    weights ((es.zip fs).map Prod.fst) ≤ weights es := by
  induction es generalizing fs with
  | nil => simp [weights]
  | cons e es ih =>
    cases fs with
    | nil => simp [weights]
    | cons f fs => simpa [weights] using ih fs

/-- Whether the two sides of every pair are the same formula. -/
def equalAll : List (Formula × Formula) → Bool
  | [] => true
  | (a, b) :: rest =>
    if a.label = b.label then equalAll (a.operands.zip b.operands ++ rest) else false
termination_by pairs => weights (pairs.map Prod.fst)
decreasing_by
  have h₁ := weights_zip_le a.operands b.operands
  have h₂ := weights_operands_lt a
  simp only [List.map_append, weights_append, List.map_cons, weights]
  omega

def equal (a b : Formula) : Bool := equalAll [(a, b)]

theorem eq_iff_forall_mem_zip {es fs : List Formula} (h : es.length = fs.length) :
    es = fs ↔ ∀ p ∈ es.zip fs, p.1 = p.2 := by
  induction es generalizing fs with
  | nil => cases fs <;> simp_all
  | cons e es ih =>
    cases fs with
    | nil => simp at h
    | cons f fs => simp [ih (Nat.succ.inj h)]

theorem equalAll_iff (pairs : List (Formula × Formula)) :
    equalAll pairs = true ↔ ∀ p ∈ pairs, p.1 = p.2 := by
  fun_induction equalAll pairs with
  | case1 => simp
  | case2 a b rest hl ih =>
    rw [ih, List.forall_mem_append, List.forall_mem_cons,
      ← eq_iff_forall_mem_zip (length_operands_of_label_eq hl)]
    exact and_congr_left fun _ => ⟨eq_of_label_eq hl, congrArg operands⟩
  | case3 a b rest hl =>
    simp only [Bool.false_eq_true, List.forall_mem_cons, false_iff, not_and]
    exact fun h => absurd (congrArg label h) hl

/-- **The comparison decides equality.** -/
theorem equal_iff {a b : Formula} : equal a b = true ↔ a = b := by
  simp [equal, equalAll_iff]

instance : DecidableEq Formula := fun _ _ => decidable_of_iff _ equal_iff

/-- The labels met in reading the formulas one after the other, each root before its operands. -/
def labelsFrom : List Formula → List Label → List Label
  | [], seen => seen.reverse
  | e :: rest, seen => labelsFrom (e.operands ++ rest) (e.label :: seen)
termination_by pending => weights pending
decreasing_by
  have := weights_operands_lt e
  simp only [weights_append, weights]
  omega

/-- The labels of a formula in pre-order. They carry the arities, so they spell the formula. -/
def signature (e : Formula) : List Label := labelsFrom [e] []

theorem labelsFrom_eq (pending : List Formula) (seen : List Label) :
    labelsFrom pending seen = seen.reverse ++ labelsFrom pending [] := by
  induction hn : weights pending using Nat.strongRecOn generalizing pending seen with
  | ind n ih =>
    subst hn
    cases pending with
    | nil => simp [labelsFrom]
    | cons e rest =>
      have hlt : weights (e.operands ++ rest) < weights (e :: rest) := by
        have := weights_operands_lt e
        simp only [weights_append, weights]
        omega
      rw [labelsFrom, labelsFrom, ih _ hlt _ (e.label :: seen) rfl, ih _ hlt _ [e.label] rfl]
      simp

theorem labelsFrom_append (es fs : List Formula) :
    labelsFrom (es ++ fs) [] = labelsFrom es [] ++ labelsFrom fs [] := by
  induction hn : weights es using Nat.strongRecOn generalizing es with
  | ind n ih =>
    subst hn
    cases es with
    | nil => simp [labelsFrom]
    | cons e rest =>
      have hlt : weights (e.operands ++ rest) < weights (e :: rest) := by
        have := weights_operands_lt e
        simp only [weights_append, weights]
        omega
      rw [List.cons_append, labelsFrom, labelsFrom, labelsFrom_eq _ [e.label],
        labelsFrom_eq (e.operands ++ rest) [e.label], ← List.append_assoc, ih _ hlt _ rfl]
      simp

theorem labelsFrom_eq_flatMap (es : List Formula) : labelsFrom es [] = es.flatMap signature := by
  induction es with
  | nil => simp [labelsFrom]
  | cons e rest ih =>
    have h := labelsFrom_append [e] rest
    rw [List.singleton_append] at h
    rw [h, ih, List.flatMap_cons, signature]

/-- The label of the root, then the signatures of the operands. -/
theorem signature_eq (e : Formula) : e.signature = e.label :: e.operands.flatMap signature := by
  rw [signature, labelsFrom, List.append_nil, labelsFrom_eq, labelsFrom_eq_flatMap]
  simp

/-- For every formula of the list, the position of the first one equal to it. -/
def firstEqual (es : List Formula) : List Nat := es.map fun e => es.findIdx (equal e)

end Clausal.Formula
