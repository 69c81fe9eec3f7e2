import Clausal.Formula.Equality
import Clausal.Proofs.NormalForm.FixedPoints
import Mathlib.Data.Multiset.Sections

/-!
The clauses of a conjunctive normal form, counted.

A clause is read as the multiset of its literals, a normal form as the multiset of its clauses. A
negation normal form is multiplied out: a disjunction has a clause for every choice of one clause
from each of its operands. The order of the operands does not matter, a nested disjunction may be
spliced in, and a conjunction among the operands may be taken apart, so no step of distribution
changes the product. **Main result**: distribution returns exactly the clauses of the product, each
as often as it is chosen.
-/

namespace Clausal

namespace Formula

/-- The literals of a clause, each as often as it stands there. -/
abbrev Clause := Multiset Formula

mutual

/-- The clauses of a conjunctive normal form, those of nested conjunctions included. -/
def clauses : Formula → Multiset Clause
  | conj es => clausesAll es
  | disj es => {(es : Clause)}
  | e => {{e}}

def clausesAll : List Formula → Multiset Clause
  | [] => 0
  | e :: es => clauses e + clausesAll es

end

/-- All unions of one clause taken from each of the given multisets of clauses. -/
def unions (S : Multiset (Multiset Clause)) : Multiset Clause := S.Sections.map Multiset.sum

mutual

/-- A negation normal form multiplied out. -/
def expand : Formula → Multiset Clause
  | conj es => (expandAll es).sum
  | disj es => unions (expandAll es)
  | e => {{e}}

def expandAll : List Formula → Multiset (Multiset Clause)
  | [] => 0
  | e :: es => expand e ::ₘ expandAll es

end

lemma clauses_conj (es : List Formula) : (conj es).clauses = (es.map clauses).sum := by
  rw [clauses]
  induction es with
  | nil => rfl
  | cons e es ih => rw [clausesAll, ih, List.map_cons, List.sum_cons]

lemma expandAll_eq (es : List Formula) :
    expandAll es = (es.map expand : List (Multiset Clause)) := by
  induction es with
  | nil => rfl
  | cons e es ih => rw [expandAll, ih, List.map_cons, Multiset.cons_coe]

lemma expand_conj (es : List Formula) : (conj es).expand = (es.map expand).sum := by
  rw [expand, expandAll_eq, Multiset.sum_coe]

lemma expand_disj (es : List Formula) :
    (disj es).expand = unions (es.map expand : List (Multiset Clause)) := by
  rw [expand, expandAll_eq]

lemma mem_expand_conj {es : List Formula} {c : Clause} :
    c ∈ (conj es).expand ↔ ∃ e ∈ es, c ∈ e.expand := by
  rw [expand, expandAll_eq, ← Multiset.join, Multiset.mem_join]
  simp

lemma expand_of_kind_ne {e : Formula} (h : e.kind ≠ .conj ∧ e.kind ≠ .disj) :
    e.expand = {{e}} := by
  cases e with
  | conj es => exact absurd rfl h.1
  | disj es => exact absurd rfl h.2
  | _ => rfl

lemma clauses_of_isLiteral {e : Formula} (h : e.isLiteral) : e.clauses = {{e}} := by
  match e, h with
  | const b, _ => rfl
  | var x, _ => rfl
  | neg (var x), _ => rfl

/-! ### Products -/

lemma unions_cons (s : Multiset Clause) (S : Multiset (Multiset Clause)) :
    unions (s ::ₘ S) = s.bind fun c => (unions S).map (c + ·) := by
  simp only [unions, Multiset.sections_cons, Multiset.map_bind, Multiset.map_map,
    Function.comp_def, Multiset.sum_cons]

/-- A product of products is the product of all their factors. -/
lemma unions_unions_cons (S T : Multiset (Multiset Clause)) :
    unions (unions S ::ₘ T) = unions (S + T) := by
  rw [unions_cons]
  simp only [unions, Multiset.sections_add, Multiset.bind_map, Multiset.map_bind, Multiset.map_map,
    Function.comp_def, Multiset.sum_add]

/-- A product with a sum for a factor is the sum of the products with its terms. -/
lemma unions_sum_cons (terms : List (Multiset Clause)) (S : Multiset (Multiset Clause)) :
    unions (terms.sum ::ₘ S) = (terms.map fun s => unions (s ::ₘ S)).sum := by
  induction terms with
  | nil => simp [unions_cons]
  | cons s terms ih =>
    rw [unions_cons] at ih
    rw [List.sum_cons, unions_cons, Multiset.add_bind, ih, List.map_cons, List.sum_cons,
      unions_cons]

lemma unions_of_kind_ne {es : List Formula} (h : ∀ e ∈ es, e.kind ≠ .conj ∧ e.kind ≠ .disj) :
    unions (es.map expand : List (Multiset Clause)) = {(es : Clause)} := by
  induction es with
  | nil => rfl
  | cons e es ih =>
    rw [List.forall_mem_cons] at h
    rw [List.map_cons, ← Multiset.cons_coe, unions_cons, ih h.2, expand_of_kind_ne h.1,
      Multiset.singleton_bind, Multiset.map_singleton, Multiset.singleton_add, Multiset.cons_coe]

lemma add_mem_unions_cons {s : Multiset Clause} {S : Multiset (Multiset Clause)} {c u : Clause}
    (hc : c ∈ s) (hu : u ∈ unions S) : c + u ∈ unions (s ::ₘ S) := by
  rw [unions_cons]
  exact Multiset.mem_bind.2 ⟨c, hc, Multiset.mem_map_of_mem _ hu⟩

lemma exists_mem_unions {S : Multiset (Multiset Clause)} (h : ∀ s ∈ S, ∃ c, c ∈ s) :
    ∃ u, u ∈ unions S := by
  induction S using Multiset.induction_on with
  | empty => exact ⟨0, by simp [unions]⟩
  | cons s S ih =>
    rw [Multiset.forall_mem_cons] at h
    obtain ⟨⟨c, hc⟩, hS⟩ := h
    obtain ⟨u, hu⟩ := ih hS
    exact ⟨c + u, add_mem_unions_cons hc hu⟩

lemma exists_mem_unions_le {S : Multiset (Multiset Clause)} (h : ∀ s ∈ S, ∃ c, c ∈ s)
    {s : Multiset Clause} (hs : s ∈ S) {c : Clause} (hc : c ∈ s) : ∃ u ∈ unions S, c ≤ u := by
  obtain ⟨T, rfl⟩ := Multiset.exists_cons_of_mem hs
  rw [Multiset.forall_mem_cons] at h
  obtain ⟨u, hu⟩ := exists_mem_unions h.2
  exact ⟨c + u, add_mem_unions_cons hc hu, Multiset.le_add_right c u⟩

/-- Splicing in a nested disjunction leaves the product as it is. -/
lemma expand_flattenDisjuncts (es : List Formula) :
    (disj (flattenDisjuncts es)).expand = (disj es).expand := by
  induction es using flattenDisjuncts_induction with
  | nil => rw [flattenDisjuncts_nil]
  | disj es rest ih =>
    calc (disj (flattenDisjuncts (disj es :: rest))).expand
        = (disj (es ++ rest)).expand := by rw [flattenDisjuncts_disj, ih]
      _ = unions ((es.map expand : List (Multiset Clause)) + (rest.map expand : List _)) := by
        rw [expand_disj, List.map_append, Multiset.coe_add]
      _ = unions ((disj es).expand ::ₘ (rest.map expand : List _)) := by
        rw [expand_disj es, unions_unions_cons]
      _ = (disj (disj es :: rest)).expand := by
        rw [expand_disj (disj es :: rest), List.map_cons, Multiset.cons_coe]
  | cons e rest he ih =>
    rw [expand_disj, expand_disj] at ih
    rw [flattenDisjuncts_cons he, expand_disj, expand_disj, List.map_cons, List.map_cons,
      ← Multiset.cons_coe, ← Multiset.cons_coe, unions_cons, unions_cons, ih]

end Formula

namespace NormalForm

open Engine Formula

lemma expand_distribute (flat : List Formula) :
    (Distribution.distribute flat).expand = (disj flat).expand := by
  rcases distribute_cases flat with ⟨before, parts, after, rfl, hd⟩ | ⟨-, hd⟩
  · -- the conjunction may as well be the first disjunct
    have hfront : ∀ p : Formula, (disj (p :: (before ++ after))).expand =
        unions (p.expand ::ₘ ((before ++ after).map expand : List (Multiset Clause))) := by
      intro p
      rw [expand_disj, List.map_cons, Multiset.cons_coe]
    have hperm : (disj (before ++ .conj parts :: after)).expand =
        (disj (.conj parts :: (before ++ after))).expand := by
      rw [expand_disj, expand_disj, Multiset.coe_eq_coe.2 (List.perm_middle.map expand)]
    rw [hd, expand_conj, List.map_map, hperm, hfront, expand_conj, unions_sum_cons, List.map_map]
    exact congrArg List.sum (List.map_congr_left fun p _ => hfront p)
  · rw [hd]

/-! ### The clauses that distribution returns -/

lemma map_expand {es fs : List Formula}
    (h : List.Forall₂ (fun e f => f.expand = e.expand) es fs) : fs.map expand = es.map expand := by
  induction h with
  | nil => rfl
  | cons hef _ ih => rw [List.map_cons, List.map_cons, hef, ih]

lemma distribution_expand : Distribution.Rules fun f e => f.expand = e.expand where
  refl _ := rfl
  trans := Eq.trans
  conj h := by rw [expand_conj, expand_conj, map_expand h]
  disj h := by rw [expand_disj, expand_disj, map_expand h]
  flatten := expand_flattenDisjuncts
  distribute := expand_distribute

/-- A conjunctive normal form is multiplied out already. -/
lemma clauses_of_cnf {e : Formula} (h : Cnf e) : e.clauses = e.expand := by
  induction h with
  | literal h =>
    rw [clauses_of_isLiteral (isLiteral_iff.2 h), expand_of_kind_ne h.kind_ne]
  | clause h => rw [clauses, expand_disj, unions_of_kind_ne fun e he => (h e he).kind_ne]
  | conj h ih => rw [clauses_conj, expand_conj, List.map_congr_left ih]

/-- **Distribution is the product expansion.** A negation normal form is turned into a conjunction
of clauses, which are those of the product: none is lost, added or duplicated, and neither is a
literal in any of them. -/
theorem distributeOrOverAnd_clauses (e : Formula) (h : e.Nnf) :
    ∃ v, distributeOrOverAnd e = .ok v ∧ v.isCnf = true ∧ v.clauses = e.expand := by
  obtain ⟨v, hv, hcnf, hexpand⟩ := distribution_expand.total h
  exact ⟨v, hv, hcnf, by rw [clauses_of_cnf (cnf_of_isCnf hcnf), hexpand]⟩

/-- Two equal conjunctions, one of them in a nested disjunction: of the four clauses two are equal,
and the first and last hold a literal twice. -/
theorem distributeOrOverAnd_clauses_repeated :
    let p : Formula := .var "p"
    let q : Formula := .var "q"
    let r : Formula := .neg (.var "r")
    let e : Formula := .disj [.conj [p, q], .disj [r, .conj [p, q]]]
    e.Nnf ∧ ∃ v, distributeOrOverAnd e = .ok v ∧ v.isCnf = true ∧
      v.clauses = {{p, p, r}, {p, q, r}, {p, q, r}, {q, q, r}} := by
  intro p q r e
  have hnnf : e.Nnf := by decide
  have hexpand : e.expand = {{p, p, r}, {p, q, r}, {p, q, r}, {q, q, r}} := by decide +kernel
  rw [← hexpand]
  exact ⟨hnnf, distributeOrOverAnd_clauses e hnnf⟩

end NormalForm

end Clausal
