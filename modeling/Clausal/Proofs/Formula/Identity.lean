import Clausal.Formula.Equality
import Clausal.Proofs.Formula.Subformulas
import Mathlib.Data.List.Forall2
import Mathlib.Order.Bounds.Basic

/-!
When two formulas are the same, and what their signatures tell.

A signature is a list without brackets. It can be read back since every label says how many operands
follow: where one formula ends and the next begins is not a matter of what comes behind. **Main
result**: the comparison holds exactly for identical trees, and the signatures are equal exactly for
those.
-/

namespace Clausal.Formula

/-! ### Identical trees -/

/-- The value of a constant or the name of a variable. -/
def payload? : Formula → Option (Bool ⊕ String)
  | const b => some (.inl b)
  | var x => some (.inr x)
  | _ => none

/-- Of the same kind, with the same value or name, and with as many operands, pairwise identical. -/
inductive Identical : Formula → Formula → Prop
  | node {a b : Formula} : a.kind = b.kind → a.payload? = b.payload? →
      List.Forall₂ Identical a.operands b.operands → Identical a b

lemma eq_of_payload?_eq {a b : Formula} (hkind : a.kind = b.kind)
    (hpayload : a.payload? = b.payload?) (hoperands : a.operands = b.operands) : a = b := by
  cases a <;> cases b <;> simp_all [kind, payload?, operands]

lemma identical_refl (e : Formula) : e.Identical e := by
  induction e using operands_induction with
  | step e ih => exact .node rfl rfl (List.forall₂_same.2 ih)

lemma Identical.eq {a b : Formula} (h : a.Identical b) : a = b := by
  induction a using operands_induction generalizing b with
  | step a ih =>
    obtain ⟨hkind, hpayload, hoperands⟩ := h
    have heq : List.Forall₂ Eq a.operands b.operands :=
      ((List.forall₂_and_left _ _).2 ⟨ih, hoperands⟩).imp fun c d h => h.1 h.2
    rw [List.forall₂_eq_eq_eq] at heq
    exact eq_of_payload?_eq hkind hpayload heq

lemma identical_iff {a b : Formula} : a.Identical b ↔ a = b :=
  ⟨Identical.eq, fun h => h ▸ identical_refl a⟩

/-! ### Signatures -/

lemma signature_eq_map (e : Formula) : e.signature = e.subformulas.map label := by
  induction e using operands_induction with
  | step e ih =>
    rw [signature_eq, subformulas_eq, List.map_cons, List.map_flatMap]
    exact congrArg _ (List.flatMap_congr ih)

/-- **Signatures are a prefix code**: as many formulas as there are on the other side begin with the
same labels only if they are the same. -/
theorem flatMap_signature_append_inj {es fs : List Formula} {u v : List Label}
    (hlength : es.length = fs.length)
    (h : es.flatMap signature ++ u = fs.flatMap signature ++ v) : es = fs ∧ u = v := by
  induction hn : weights es using Nat.strongRecOn generalizing es fs with
  | ind n ih =>
    subst hn
    rcases es with _ | ⟨a, es⟩
    · obtain rfl := List.length_eq_zero_iff.1 hlength.symm
      exact ⟨rfl, h⟩
    · rcases fs with _ | ⟨b, fs⟩
      · cases hlength
      · simp only [List.flatMap_cons, signature_eq, List.cons_append, List.append_assoc,
          List.cons.injEq] at h
        obtain ⟨hlabel, hrest⟩ := h
        have hoperands := length_operands_of_label_eq hlabel
        -- the operands of the first formula stand before the formulas that are left
        simp only [← List.append_assoc, ← List.flatMap_append] at hrest
        have hlt : weights (a.operands ++ es) < weights (a :: es) := by
          have := weights_operands_lt a
          simp only [weights_append, weights]
          omega
        obtain ⟨heq, hu⟩ := ih _ hlt (by simpa [hoperands] using hlength) hrest rfl
        obtain ⟨hab, rfl⟩ := List.append_inj heq hoperands
        exact ⟨by rw [eq_of_label_eq hlabel hab], hu⟩

lemma signature_inj {a b : Formula} : a.signature = b.signature ↔ a = b := by
  refine ⟨fun h => ?_, congrArg signature⟩
  have hlists : [a].flatMap signature ++ [] = [b].flatMap signature ++ [] := by simpa using h
  have hlength : [a].length = [b].length := rfl
  exact List.singleton_inj.1 (flatMap_signature_append_inj hlength hlists).1

/-- **The comparison tells identical trees.** It is true of them only, so it is an equivalence; and
their signatures, the labels of all subformulas in reading order, are equal exactly then. -/
theorem equal_iff_identical (a b : Formula) :
    (equal a b = true ↔ a.Identical b) ∧ (Equivalence fun a b => equal a b = true) ∧
    (∀ e : Formula, e.signature = e.subformulas.map label) ∧
    (a.signature = b.signature ↔ equal a b = true) := by
  refine ⟨by rw [equal_iff, identical_iff], ?_, signature_eq_map, by rw [equal_iff, signature_inj]⟩
  simp only [equal_iff]
  exact eq_equivalence

/-! ### Classes of equal formulas -/

section Classes

variable {es : List Formula} {i k : Nat}

theorem length_firstEqual (es : List Formula) : (firstEqual es).length = es.length :=
  List.length_map ..

/-- **Every formula is sent to the first that is equal to it.** -/
theorem isLeast_firstEqual (h : (firstEqual es)[i]? = some k) :
    IsLeast {n | es[n]? = es[i]?} k := by
  rw [firstEqual, List.getElem?_map, Option.map_eq_some_iff] at h
  obtain ⟨e, he, rfl⟩ := h
  have hfound : es.findIdx (equal e) < es.length :=
    List.findIdx_lt_length_of_exists ⟨e, List.mem_of_getElem? he, equal_iff.2 rfl⟩
  refine ⟨?_, fun n (hn : es[n]? = es[i]?) => ?_⟩
  · have hequal : equal e es[es.findIdx (equal e)] = true := List.findIdx_getElem (w := hfound)
    change es[es.findIdx (equal e)]? = es[i]?
    rw [he, List.getElem?_eq_getElem hfound, ← equal_iff.1 hequal]
  · rw [he] at hn
    obtain ⟨_, rfl⟩ := List.getElem?_eq_some_iff.1 hn
    by_contra hlt
    have hbefore := List.not_of_lt_findIdx (Nat.lt_of_not_le hlt)
    rw [equal_iff.2 rfl] at hbefore
    cases hbefore

/-- The places tell the classes of equal formulas. -/
theorem firstEqual_inj {j l : Nat} (hi : (firstEqual es)[i]? = some k)
    (hj : (firstEqual es)[j]? = some l) : k = l ↔ es[i]? = es[j]? := by
  have hk := isLeast_firstEqual hi
  have hl := isLeast_firstEqual hj
  constructor
  · rintro rfl
    exact hk.1.symm.trans hl.1
  · intro h
    rw [h] at hk
    exact hk.unique hl

end Classes

end Clausal.Formula
