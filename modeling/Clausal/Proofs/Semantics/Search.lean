import Clausal.Proofs.Semantics.Truth
import Clausal.Semantics.Search
import Mathlib.Algebra.Group.Nat.Defs
import Mathlib.Data.List.Nodup
import Mathlib.Data.List.Perm.Subperm
import Mathlib.Order.Bounds.Basic

/-!
The search for a satisfying assignment.

The stack of the variable search holds every occurrence that has not been seen, so that each
variable is found, and found once. Masks below `2 ^ n` stand for all values of `n` names. Since
evaluation does not fail on them, the loop stops at the least mask that makes the formula true.
**Main results**: the search returns the assignment of the least such mask and how many it has tried
(`Formula.search_cases`), and where there is none no covering assignment makes the formula true.
-/

namespace Clausal

namespace Formula

/-! ### Finding the variables -/

lemma mem_discoverFrom (pending : List Formula) (seen : List String) (x : String) :
    x ∈ discoverFrom pending seen ↔ x ∈ seen ∨ x ∈ pending.flatMap occurrences := by
  fun_induction discoverFrom pending seen with
  | case1 seen => simp
  | case2 y rest seen ih =>
    simp only [dite_eq_ite] at ih
    rw [ih, List.flatMap_cons, occurrences_var, List.mem_append, List.mem_singleton, ← or_assoc]
    refine or_congr_left ?_
    by_cases hy : seen.contains y
    · rw [if_pos hy]
      rw [List.contains_iff_mem] at hy
      exact ⟨.inl, fun h => h.elim id fun hxy => hxy ▸ hy⟩
    · rw [if_neg hy, List.mem_cons, or_comm]
  | case3 e rest seen he ih =>
    rw [ih, List.flatMap_append, List.flatMap_cons, occurrences_of_ne_var (kind_ne_var he)]
    simp only [List.mem_append, List.mem_flatMap, List.mem_reverse]

lemma nodup_discoverFrom (pending : List Formula) {seen : List String} (h : seen.Nodup) :
    (discoverFrom pending seen).Nodup := by
  fun_induction discoverFrom pending seen with
  | case1 seen => exact List.nodup_reverse.2 h
  | case2 x rest seen ih =>
    simp only [dite_eq_ite] at ih
    refine ih ?_
    by_cases hx : seen.contains x
    · rwa [if_pos hx]
    · rw [if_neg hx]
      exact List.nodup_cons.2 ⟨by simpa using hx, h⟩
  | case3 e rest seen he ih => exact ih h

lemma mem_discoverVariables {e : Formula} {x : String} :
    x ∈ e.discoverVariables ↔ x ∈ e.occurrences := by
  simp [discoverVariables, mem_discoverFrom]

lemma nodup_discoverVariables (e : Formula) : e.discoverVariables.Nodup :=
  nodup_discoverFrom [e] List.nodup_nil

lemma length_discoverVariables {e : Formula} {names : List String} (hnames : names.Nodup)
    (h : ∀ x, x ∈ e.occurrences ↔ x ∈ names) : e.discoverVariables.length = names.length := by
  refine ((List.perm_ext_iff_of_nodup e.nodup_discoverVariables hnames).2 fun x => ?_).length_eq
  rw [mem_discoverVariables, h]

/-- A formula with no other variables has no more of them. -/
lemma length_discoverVariables_le {c e : Formula} (h : c.occurrences ⊆ e.occurrences) :
    c.discoverVariables.length ≤ e.discoverVariables.length := by
  refine (List.subperm_of_subset c.nodup_discoverVariables fun x hx => ?_).length_le
  rw [mem_discoverVariables] at hx ⊢
  exact h hx

end Formula

/-! ### Masks -/

namespace Assignment

lemma entries_ofMask_cons (x : String) (names : List String) (mask : Nat) :
    (ofMask (x :: names) mask).entries =
      (x, mask.testBit 0) :: (ofMask names (mask / 2)).entries := by
  simp [ofMask, List.mapIdx_cons, Nat.testBit_succ]

lemma keys_ofMask (names : List String) (mask : Nat) :
    (ofMask names mask).entries.map Prod.fst = names := by
  induction names generalizing mask with
  | nil => rfl
  | cons x names ih => rw [entries_ofMask_cons, List.map_cons, ih]

lemma valuation_ofMask_cons (x y : String) (names : List String) (mask : Nat) :
    (ofMask (x :: names) mask).valuation y =
      if y = x then some (mask.testBit 0) else (ofMask names (mask / 2)).valuation y := by
  rw [valuation, entries_ofMask_cons, List.lookup_cons]
  by_cases hy : y = x
  · simp [hy]
  · have hbeq : (y == x) = false := by simpa using hy
    rw [hbeq, if_neg hy]
    rfl

/-- Bit `i` of the mask is the value of the `i`-th name. -/
lemma valuation_ofMask {names : List String} (h : names.Nodup) (mask i : Nat)
    (hi : i < names.length) : (ofMask names mask).valuation names[i] = some (mask.testBit i) := by
  induction names generalizing mask i with
  | nil => simp at hi
  | cons x names ih =>
    obtain ⟨hx, hnames⟩ := List.nodup_cons.1 h
    rw [valuation_ofMask_cons]
    cases i with
    | zero => simp
    | succ i =>
      have hi' : i < names.length := by simpa using hi
      have hne : names[i] ≠ x := fun heq => hx (heq ▸ List.getElem_mem hi')
      rw [List.getElem_cons_succ, if_neg hne, ih hnames _ _ hi', Nat.testBit_succ]

lemma covers_ofMask (e : Formula) (mask : Nat) :
    (ofMask e.discoverVariables mask).valuation.Covers e := by
  intro x hx
  obtain ⟨i, hi, rfl⟩ := List.getElem_of_mem (Formula.mem_discoverVariables.2 hx)
  rw [valuation_ofMask e.nodup_discoverVariables mask i hi]
  rfl

lemma exists_mask (w : String → Bool) (names : List String) :
    ∃ mask < 2 ^ names.length, ∀ x ∈ names, (ofMask names mask).valuation x = some (w x) := by
  induction names with
  | nil => exact ⟨0, by simp, by simp⟩
  | cons y names ih =>
    obtain ⟨mask, hlt, hvalues⟩ := ih
    have hbit : (2 * mask + (w y).toNat).testBit 0 = w y := by
      cases w y <;> simp [Nat.testBit_zero]
    have hhalf : (2 * mask + (w y).toNat) / 2 = mask := by
      have := (w y).toNat_lt
      omega
    refine ⟨2 * mask + (w y).toNat, ?_, fun x hx => ?_⟩
    · have := (w y).toNat_lt
      rw [List.length_cons, Nat.pow_succ]
      omega
    · rw [valuation_ofMask_cons, hbit, hhalf]
      by_cases hxy : x = y
      · rw [if_pos hxy, hxy]
      · rw [if_neg hxy]
        exact hvalues x ((List.mem_cons.1 hx).resolve_left hxy)

end Assignment

/-! ### The loop -/

namespace Formula

open Assignment

/-- The loop finds the first mask, from where it stands, that makes the formula true; if there is
none below the bound, it has tried them all. -/
lemma searchFrom_cases {e : Formula} {names : List String} {g : Nat → Bool}
    (hg : ∀ k, e.evaluate (ofMask names k).valuation = .ok (g k)) (total mask : Nat) :
    (∃ m, mask ≤ m ∧ m < total ∧ g m = true ∧ (∀ k, mask ≤ k → k < m → g k = false) ∧
      e.searchFrom names total mask = .ok ⟨some (ofMask names m), m + 1⟩) ∨
    ((∀ k, mask ≤ k → k < total → g k = false) ∧
      e.searchFrom names total mask = .ok ⟨none, total⟩) := by
  fun_induction searchFrom e names total mask with
  | case1 mask hlt a f hf => cases (hg mask).symm.trans hf
  | case2 mask hlt a ht =>
    have hmask : g mask = true := Except.ok.inj ((hg mask).symm.trans ht)
    exact .inl ⟨mask, Nat.le_refl _, hlt, hmask, fun k h₁ h₂ => by omega, rfl⟩
  | case3 mask hlt a hf ih =>
    have hmask : g mask = false := Except.ok.inj ((hg mask).symm.trans hf)
    -- what holds from the next mask on holds from this one on
    have hstep : ∀ {k : Nat}, mask ≤ k → k = mask ∨ mask + 1 ≤ k := by omega
    rcases ih with ⟨m, hm, hmt, hgm, hbefore, hfound⟩ | ⟨hall, hnone⟩
    · refine .inl ⟨m, by omega, hmt, hgm, fun k hk hkm => ?_, hfound⟩
      rcases hstep hk with rfl | hk
      · exact hmask
      · exact hbefore k hk hkm
    · refine .inr ⟨fun k hk hkt => ?_, hnone⟩
      rcases hstep hk with rfl | hk
      · exact hmask
      · exact hall k hk hkt
  | case4 mask hge => exact .inr ⟨fun k h₁ h₂ => by omega, rfl⟩

/-- The search as a whole: the least mask that makes the formula true, or none at all. -/
lemma search_cases (e : Formula) :
    (∃ m, IsLeast {m | m < 2 ^ e.discoverVariables.length ∧
        e.evaluate (ofMask e.discoverVariables m).valuation = .ok true} m ∧
      e.search = .ok ⟨some (ofMask e.discoverVariables m), m + 1⟩) ∨
    ((∀ m < 2 ^ e.discoverVariables.length,
        e.evaluate (ofMask e.discoverVariables m).valuation = .ok false) ∧
      e.search = .ok ⟨none, 2 ^ e.discoverVariables.length⟩) := by
  have hg : ∀ k, e.evaluate (ofMask e.discoverVariables k).valuation =
      .ok (e.truth (ofMask e.discoverVariables k).valuation.total) :=
    fun k => evaluate_eq_truth (covers_ofMask e k)
  rcases searchFrom_cases hg (2 ^ e.discoverVariables.length) 0 with
    ⟨m, -, hlt, hm, hbefore, hfound⟩ | ⟨hall, hnone⟩
  · refine .inl ⟨m, ⟨⟨hlt, by rw [hg, hm]⟩, fun k ⟨_, hk⟩ => ?_⟩, hfound⟩
    by_contra hlt
    rw [hg, hbefore k (Nat.zero_le k) (Nat.lt_of_not_le hlt)] at hk
    cases hk
  · exact .inr ⟨fun m hm => by rw [hg, hall m (Nat.zero_le m) hm], hnone⟩

/-- The search never fails, and tries no more than there are masks. -/
lemma exists_search (e : Formula) :
    ∃ v, e.search = .ok v ∧ v.tried ≤ 2 ^ e.discoverVariables.length := by
  rcases e.search_cases with ⟨m, hleast, hsearch⟩ | ⟨-, hsearch⟩
  · exact ⟨_, hsearch, hleast.1.1⟩
  · exact ⟨_, hsearch, Nat.le_refl _⟩

lemma evaluate_eq_false_of_masks {e : Formula}
    (h : ∀ m < 2 ^ e.discoverVariables.length,
      e.evaluate (ofMask e.discoverVariables m).valuation = .ok false)
    {v : Valuation} (hv : v.Covers e) : e.evaluate v = .ok false := by
  obtain ⟨m, hm, hvalues⟩ := exists_mask v.total e.discoverVariables
  have hagree : e.truth v.total = e.truth (ofMask e.discoverVariables m).valuation.total := by
    refine truth_congr fun x hx => ?_
    show v.total x = ((ofMask e.discoverVariables m).valuation x).getD false
    rw [hvalues x (mem_discoverVariables.2 hx), Option.getD_some]
  have hfalse := h m hm
  rw [evaluate_eq_truth (covers_ofMask e m)] at hfalse
  rw [evaluate_eq_truth hv, hagree, hfalse]

end Formula

end Clausal
