import Clausal.Proofs.NormalForm.Clauses
import Clausal.Proofs.NormalForm.Outcomes

/-!
Splicing nested disjunctions, round by round and by recursion.

The splicing keeps a list of pending formulas. In every round the first of them is taken: a
disjunction is opened in front of the others, anything else is done with. What is pending gets
lighter in every round, and read together with what is done it always has the same disjuncts, at any
depth, in the same order. **Main result**: the rounds come to an end with these disjuncts. None of
them is a disjunction, a second splicing changes nothing, lists are spliced part by part, and the
outcome of evaluation stays the same.
-/

namespace Clausal

namespace Formula

/-! ### The rounds -/

/-- With these formulas pending and those done, the newest first, the rounds end after `n` of them
with the list. -/
inductive Splices : Nat → List Formula → List Formula → List Formula → Prop
  | done (flat : List Formula) : Splices 0 [] flat flat.reverse
  | splice {n es rest flat fs} : Splices n (es ++ rest) flat fs →
      Splices (n + 1) (disj es :: rest) flat fs
  | keep {n e rest flat fs} : e.kind ≠ .disj → Splices n rest (e :: flat) fs →
      Splices (n + 1) (e :: rest) flat fs

lemma exists_splices (pending flat : List Formula) :
    ∃ n ≤ weights pending, Splices n pending flat (flattenFrom pending flat) := by
  fun_induction flattenFrom pending flat with
  | case1 flat => exact ⟨0, Nat.zero_le _, .done flat⟩
  | case2 es rest flat ih =>
    obtain ⟨n, hn, hrounds⟩ := ih
    -- of a disjunction that is opened, the root is gone
    rw [weights_append] at hn
    refine ⟨n + 1, ?_, .splice hrounds⟩
    simp only [weights, weight]
    omega
  | case3 e rest flat he ih =>
    obtain ⟨n, hn, hrounds⟩ := ih
    have := e.weight_pos
    refine ⟨n + 1, ?_, .keep (kind_ne_disj he) hrounds⟩
    simp only [weights]
    omega

/-! ### The recursion -/

mutual

/-- The disjuncts of a formula at any depth, from left to right. What is no disjunction is its own
only disjunct. -/
def disjuncts : Formula → List Formula
  | disj es => disjunctsAll es
  | e => [e]

def disjunctsAll : List Formula → List Formula
  | [] => []
  | e :: es => disjuncts e ++ disjunctsAll es

end

lemma disjunctsAll_eq (es : List Formula) : disjunctsAll es = es.flatMap disjuncts := by
  induction es with
  | nil => rfl
  | cons e es ih => rw [disjunctsAll, ih, List.flatMap_cons]

lemma disjuncts_disj (es : List Formula) : (disj es).disjuncts = es.flatMap disjuncts := by
  rw [disjuncts, disjunctsAll_eq]

lemma disjuncts_of_kind_ne {e : Formula} (h : e.kind ≠ .disj) : e.disjuncts = [e] := by
  cases e with
  | disj es => exact absurd rfl h
  | _ => rfl

lemma flattenDisjuncts_eq_flatMap (es : List Formula) :
    flattenDisjuncts es = es.flatMap disjuncts := by
  induction es using flattenDisjuncts_induction with
  | nil => rw [flattenDisjuncts_nil, List.flatMap_nil]
  | disj es rest ih =>
    rw [flattenDisjuncts_disj, ih, List.flatMap_append, List.flatMap_cons, disjuncts_disj]
  | cons e rest he ih =>
    rw [flattenDisjuncts_cons he, ih, List.flatMap_cons, disjuncts_of_kind_ne he,
      List.singleton_append]

/-! ### Evaluation -/

/-- Splicing leaves the variables in their order, so the same one is the first without a value. -/
lemma flattenDisjuncts_sameFirst (es : List Formula) :
    (disj (flattenDisjuncts es)).SameFirst (disj es) := by
  apply sameFirst_of_eq
  rw [occurrences_disj, occurrences_disj, occurrences_flattenDisjuncts]

/-- **Nested disjunctions are spliced in, at any depth and in their order.** The rounds come to an
end, and what they end with is found by recursion: every disjunction is replaced by its disjuncts,
and all else stays. So no disjunction is left, what has been spliced is not changed any more, and
the parts of a list may be spliced apart. Evaluated as one disjunction, what comes out is true or
false as what went in, or the same variable lacks a value. -/
theorem flattenDisjuncts_spliced (es : List Formula) :
    (∃ n ≤ weights es, Splices n es [] (flattenDisjuncts es)) ∧
    flattenDisjuncts es = es.flatMap disjuncts ∧
    (∀ f ∈ flattenDisjuncts es, f.kind ≠ .disj) ∧
    flattenDisjuncts (flattenDisjuncts es) = flattenDisjuncts es ∧
    (∀ fs, flattenDisjuncts (es ++ fs) = flattenDisjuncts es ++ flattenDisjuncts fs) ∧
    ∀ v : Valuation, SameOutcome v (disj (flattenDisjuncts es)) (disj es) := by
  refine ⟨exists_splices es [], flattenDisjuncts_eq_flatMap es, kind_of_mem_flattenDisjuncts,
    flattenDisjuncts_of_kind_ne kind_of_mem_flattenDisjuncts, fun fs => ?_, ?_⟩
  · simp only [flattenDisjuncts_eq_flatMap, List.flatMap_append]
  · exact (flattenDisjuncts_sameFirst es).sameOutcome (flattenDisjuncts_standsFor es).truth_eq

end Formula

end Clausal
