import Clausal.Proofs.Semantics.Search
import Mathlib.Data.List.Dedup

/-!
The order in which the variables of a formula are listed.

The search takes the operands from right to left and keeps what it sees first, so of the occurrences
of a name it keeps the last one. **Main result**: the variables are listed, each once, in the order
in which the leaves of the formula have them for the last time.
-/

namespace Clausal.Formula

/-! ### Leaves -/

/-- The subformulas without operands, left to right. -/
def leaves (e : Formula) : List Formula := e.subformulas.filter fun f => f.operands.isEmpty

lemma occurrences_eq_leaves (e : Formula) : e.occurrences = e.leaves.filterMap name? := by
  rw [leaves, List.filterMap_filter]
  refine List.filterMap_congr fun f _ => ?_
  cases f <;> simp [name?, operands]

lemma mem_filterMap_name? {l : List Formula} {x : String} :
    x ∈ l.filterMap name? ↔ var x ∈ l := by
  rw [List.mem_filterMap]
  constructor
  · rintro ⟨f, hf, hname⟩
    cases f <;> cases hname
    exact hf
  · exact fun h => ⟨var x, h, rfl⟩

/-! ### The search -/

/-- What is found in the end, the newest first, is what there is to read in the stack, from its
bottom up, and what has been seen already, each name where it comes last. -/
lemma reverse_discoverFrom (pending : List Formula) {seen : List String} (h : seen.Nodup) :
    (discoverFrom pending seen).reverse =
      (pending.reverse.flatMap occurrences ++ seen).dedup := by
  fun_induction discoverFrom pending seen with
  | case1 seen =>
    rw [List.reverse_reverse, List.reverse_nil, List.flatMap_nil, List.nil_append, h.dedup]
  | case2 x rest seen ih =>
    simp only [dite_eq_ite] at ih
    have hread : (var x :: rest).reverse.flatMap occurrences ++ seen =
        rest.reverse.flatMap occurrences ++ (x :: seen) := by simp
    rw [hread]
    by_cases hx : x ∈ seen
    · -- the name comes once more among those seen, and there it is kept
      rw [if_pos (List.contains_iff_mem.2 hx)] at ih ⊢
      rw [ih h, List.dedup_append, List.dedup_append, List.dedup_cons_of_mem hx]
    · rw [if_neg (by simpa using hx)] at ih ⊢
      exact ih (List.nodup_cons.2 ⟨hx, h⟩)
  | case3 e rest seen he ih =>
    rw [ih h]
    simp [occurrences_of_ne_var (kind_ne_var he)]

lemma collectVariables_eq_dedup (e : Formula) : e.collectVariables = e.occurrences.dedup := by
  rw [collectVariables, discoverVariables, reverse_discoverFrom _ List.nodup_nil]
  simp

/-! ### Last places -/

def LastPlace (l : List Formula) (e : Formula) (i : Nat) : Prop := IsGreatest {k | l[k]? = some e} i

section LastPlace

variable {l : List Formula} {e f : Formula} {i : Nat}

lemma LastPlace.cons (h : LastPlace l e i) : LastPlace (f :: l) e (i + 1) := by
  refine ⟨h.1, fun k hk => ?_⟩
  cases k with
  | zero => exact Nat.zero_le _
  | succ k => exact Nat.succ_le_succ (h.2 hk)

lemma lastPlace_head (h : e ∉ l) : LastPlace (e :: l) e 0 := by
  refine ⟨rfl, fun k hk => ?_⟩
  cases k with
  | zero => exact Nat.le_refl 0
  | succ k =>
    have hmem : l[k]? = some e := hk
    exact absurd (List.mem_of_getElem? hmem) h

lemma exists_lastPlace (h : e ∈ l) : ∃ i, LastPlace l e i := by
  induction l with
  | nil => cases h
  | cons f l ih =>
    by_cases hl : e ∈ l
    · obtain ⟨i, hi⟩ := ih hl
      exact ⟨i + 1, hi.cons⟩
    · obtain rfl : e = f := (List.mem_cons.1 h).resolve_right hl
      exact ⟨0, lastPlace_head hl⟩

end LastPlace

/-- The last of the leaves that is `x` comes before the last one that is `y`. -/
def LastBefore (l : List Formula) (x y : String) : Prop :=
  ∃ i j, LastPlace l (var x) i ∧ LastPlace l (var y) j ∧ i < j

lemma LastBefore.cons {l : List Formula} {x y : String} (h : LastBefore l x y) (f : Formula) :
    LastBefore (f :: l) x y := by
  obtain ⟨i, j, hi, hj, hlt⟩ := h
  exact ⟨i + 1, j + 1, hi.cons, hj.cons, Nat.succ_lt_succ hlt⟩

lemma pairwise_dedup_names (l : List Formula) :
    (l.filterMap name?).dedup.Pairwise (LastBefore l) := by
  induction l with
  | nil => exact .nil
  | cons f l ih =>
    have hrest : (l.filterMap name?).dedup.Pairwise (LastBefore (f :: l)) :=
      ih.imp fun h => h.cons f
    cases hname : f.name? with
    | none => rwa [List.filterMap_cons_none hname]
    | some x =>
      obtain rfl : f = var x := by cases f <;> cases hname; rfl
      rw [List.filterMap_cons_some hname]
      by_cases hx : x ∈ l.filterMap name?
      · rwa [List.dedup_cons_of_mem hx]
      · rw [List.dedup_cons_of_notMem hx]
        refine List.pairwise_cons.2 ⟨fun y hy => ?_, hrest⟩
        have hlast : LastPlace (var x :: l) (var x) 0 :=
          lastPlace_head (mt mem_filterMap_name?.2 hx)
        obtain ⟨j, hj⟩ := exists_lastPlace (mem_filterMap_name?.1 (List.mem_dedup.1 hy))
        exact ⟨0, j + 1, hlast, hj.cons, Nat.succ_pos j⟩

/-- **The variables are listed by their last occurrences.** Each variable among the leaves is listed
once, and nothing else; of two, the one comes first whose last place among the leaves does. The
search finds them the other way round. -/
theorem collectVariables_lastBefore (e : Formula) :
    e.collectVariables.Nodup ∧ (∀ x, x ∈ e.collectVariables ↔ var x ∈ e.leaves) ∧
    e.collectVariables.Pairwise (LastBefore e.leaves) ∧
    e.discoverVariables = e.collectVariables.reverse := by
  have hdedup : e.collectVariables = (e.leaves.filterMap name?).dedup := by
    rw [collectVariables_eq_dedup, occurrences_eq_leaves]
  refine ⟨?_, fun x => ?_, ?_, (List.reverse_reverse _).symm⟩
  · rw [hdedup]
    exact List.nodup_dedup _
  · rw [hdedup, List.mem_dedup, mem_filterMap_name?]
  · rw [hdedup]
    exact pairwise_dedup_names e.leaves

-- what is read first is not listed first if it comes back later
example : (conj [var "p", neg (var "q"), var "p"]).collectVariables = ["q", "p"] := by
  decide +kernel

end Clausal.Formula
