import Clausal.Proofs.NormalForm.FixedPoints
import Clausal.Proofs.Semantics.Solving

/-!
Searching the conjunctive normal form in place of the formula.

The conversion may lose variables, so an assignment found for the normal form need not cover the
formula. **Main result**: the normal form has a satisfying assignment exactly if the formula has
one, and the one that is found makes the formula true whatever the missing variables are.
-/

namespace Clausal

namespace Valuation

/-- Every value of `u` is a value of `v`. -/
def Extends (v u : Valuation) : Prop := ∀ x b, u x = some b → v x = some b

lemma Extends.truth_eq {v u : Valuation} (h : v.Extends u) {e : Formula} (hu : u.Covers e) :
    e.truth v.total = e.truth u.total := by
  refine Formula.truth_congr fun x hx => ?_
  obtain ⟨b, hb⟩ := Option.isSome_iff_exists.1 (hu x hx)
  rw [total, total, hb, h x b hb]

end Valuation

namespace Formula

/-- Some assignment that covers the formula makes it true. -/
def Satisfiable (e : Formula) : Prop := ∃ v : Valuation, v.Covers e ∧ e.evaluate v = .ok true

lemma satisfiable_iff_truth {e : Formula} : e.Satisfiable ↔ ∃ w, e.truth w = true := by
  constructor
  · rintro ⟨v, hv, htrue⟩
    rw [evaluate_eq_truth hv] at htrue
    exact ⟨v.total, Except.ok.inj htrue⟩
  · rintro ⟨w, hw⟩
    have hv : Valuation.Covers (fun x => some (w x)) e := fun x _ => rfl
    exact ⟨_, hv, by rw [evaluate_eq_truth hv]; exact congrArg _ hw⟩

lemma StandsFor.satisfiable_iff {f e : Formula} (h : f.StandsFor e) :
    f.Satisfiable ↔ e.Satisfiable := by
  simp only [satisfiable_iff_truth, h.truth_eq]

end Formula

namespace Report

open Assignment Formula

section Solving

variable {threshold : Int} {e : Formula} {j : Journal}

/-- The search returns a satisfying assignment, or none because there is none, or there are too many
assignments to be counted. -/
lemma solve_cases (threshold : Int) (e : Formula) (j : Journal) :
    (2 ^ e.discoverVariables.length < 10 ^ digitLimit ∧
      ((∃ a, ((solve threshold e).run j).1 = .ok (some a) ∧ a.valuation.Covers e ∧
          e.evaluate a.valuation = .ok true) ∨
        ((solve threshold e).run j).1 = .ok none ∧ ¬e.Satisfiable)) ∨
    (10 ^ digitLimit ≤ 2 ^ e.discoverVariables.length ∧
      ((solve threshold e).run j).1 = .error .tooManyDigits) := by
  rcases Nat.lt_or_ge (2 ^ e.discoverVariables.length) (10 ^ digitLimit) with hlt | hle
  · refine .inl ⟨hlt, ?_⟩
    rcases e.search_cases with ⟨m, hleast, hsearch⟩ | ⟨hfalse, hsearch⟩
    · have hrun := reports_solve threshold hlt hsearch hleast.1.1 j
      exact .inl ⟨_, congrArg Prod.fst hrun, covers_ofMask e m, hleast.1.2⟩
    · refine .inr ⟨congrArg Prod.fst (reports_solve threshold hlt hsearch (Nat.le_refl _) j), ?_⟩
      rintro ⟨v, hv, htrue⟩
      cases (evaluate_eq_false_of_masks hfalse hv).symm.trans htrue
  · exact .inr ⟨hle, congrArg Prod.fst (run_solve_of_le threshold hle j)⟩

lemma solve_eq_none_iff (h : 2 ^ e.discoverVariables.length < 10 ^ digitLimit) :
    ((solve threshold e).run j).1 = .ok none ↔ ¬e.Satisfiable := by
  rcases solve_cases threshold e j with
    ⟨-, ⟨a, hvalue, hcovers, htrue⟩ | ⟨hvalue, hunsat⟩⟩ | ⟨hle, -⟩
  · rw [hvalue]
    exact ⟨nofun, fun h => absurd ⟨_, hcovers, htrue⟩ h⟩
  · exact ⟨fun _ => hunsat, fun _ => hvalue⟩
  · exact absurd h (Nat.not_lt.2 hle)

lemma of_solve {a : Assignment} (h : ((solve threshold e).run j).1 = .ok (some a)) :
    a.valuation.Covers e ∧ e.evaluate a.valuation = .ok true := by
  rcases solve_cases threshold e j with ⟨-, ⟨a', hvalue, hfound⟩ | ⟨hvalue, -⟩⟩ | ⟨-, hvalue⟩
  · obtain rfl : a' = a := Option.some.inj (Except.ok.inj (hvalue.symm.trans h))
    exact hfound
  · cases hvalue.symm.trans h
  · cases hvalue.symm.trans h

lemma evaluate_of_extends {c : Formula} (hstands : c.StandsFor e) {a : Assignment}
    (ha : ((solve threshold c).run j).1 = .ok (some a)) {v : Valuation}
    (hext : v.Extends a.valuation) (hv : v.Covers e) : e.evaluate v = .ok true := by
  obtain ⟨hcovers, htrue⟩ := of_solve ha
  rw [evaluate_eq_truth hcovers] at htrue
  rw [evaluate_eq_truth hv, ← hstands.truth_eq, hext.truth_eq hcovers, htrue]

end Solving

end Report

namespace NormalForm

open Report hiding toCnf

/-- **The normal form may be searched instead**, if the number of its assignments can be written.
The search of the normal form then finds nothing exactly if no assignment makes the formula true,
which is when the search of the formula finds nothing, if this can count the assignments. An
assignment that is found makes the formula true, with any values for the variables that the normal
form has lost. With too many variables in the normal form both searches fail. -/
theorem solve_toCnf (threshold : Int) (e : Formula) (j : Journal) :
    ∃ c, toCnf e = .ok c ∧
      c.discoverVariables.length ≤ e.discoverVariables.length ∧
      (∀ v : Valuation, v.Covers e → e.evaluate v = .ok (e.truth v.total)) ∧
      (2 ^ c.discoverVariables.length < 10 ^ digitLimit →
        (∃ result, ((solve threshold c).run j).1 = .ok result) ∧
        (((solve threshold c).run j).1 = .ok none ↔
          ¬∃ v : Valuation, v.Covers e ∧ e.evaluate v = .ok true) ∧
        (2 ^ e.discoverVariables.length < 10 ^ digitLimit →
          (((solve threshold c).run j).1 = .ok none ↔
            ((solve threshold e).run j).1 = .ok none))) ∧
      (10 ^ digitLimit ≤ 2 ^ c.discoverVariables.length →
        ((solve threshold c).run j).1 = .error .tooManyDigits ∧
        ((solve threshold e).run j).1 = .error .tooManyDigits) ∧
      ∀ a, ((solve threshold c).run j).1 = .ok (some a) →
        ∀ v : Valuation, v.Extends a.valuation → v.Covers e → e.evaluate v = .ok true := by
  obtain ⟨c, hc, -, hstands⟩ := toCnf_standsFor e
  have hlength := Formula.length_discoverVariables_le hstands.occurrences_subset
  refine ⟨c, hc, hlength, fun v hv => Formula.evaluate_eq_truth hv, fun hlt => ?_, fun hle => ?_,
    fun a ha v hext hv => evaluate_of_extends hstands ha hext hv⟩
  · have hnone : ((solve threshold c).run j).1 = .ok none ↔ ¬e.Satisfiable := by
      rw [solve_eq_none_iff hlt, hstands.satisfiable_iff]
    refine ⟨?_, hnone, fun hlt' => by rw [hnone, solve_eq_none_iff hlt']⟩
    rcases solve_cases threshold c j with ⟨-, ⟨a, hvalue, -⟩ | ⟨hvalue, -⟩⟩ | ⟨hle, -⟩
    · exact ⟨_, hvalue⟩
    · exact ⟨_, hvalue⟩
    · exact absurd hlt (Nat.not_lt.2 hle)
  · have hle' : 10 ^ digitLimit ≤ 2 ^ e.discoverVariables.length :=
      hle.trans (Nat.pow_le_pow_right (by decide) hlength)
    exact ⟨congrArg Prod.fst (run_solve_of_le threshold hle j),
      congrArg Prod.fst (run_solve_of_le threshold hle' j)⟩

/-- An empty conjunction takes the variable beside it out of the normal form, so that nothing is
assigned; the formula is true all the same with the variable false. So many disjuncts are their own
normal form, and too many for both searches. -/
theorem solve_toCnf_lost :
    let e : Formula := .disj [.var "p", .conj []]
    let v : Valuation := fun x => if x = "p" then some false else none
    let many : Formula := .disj ((numbered 14285).map .var)
    (∀ j : Journal, toCnf e = .ok (.conj []) ∧
      2 ^ (Formula.conj []).discoverVariables.length < 10 ^ digitLimit ∧
      2 ^ e.discoverVariables.length < 10 ^ digitLimit ∧
      (((solve 20 (.conj [])).run j).1 = .ok none ↔ ((solve 20 e).run j).1 = .ok none) ∧
      ((solve 20 (.conj [])).run j).1 = .ok (some ⟨[]⟩) ∧
      v.Extends (Assignment.valuation ⟨[]⟩) ∧ v.Covers e ∧ e.evaluate v = .ok true) ∧
    10 ^ digitLimit ≤ 2 ^ many.discoverVariables.length ∧ toCnf many = .ok many ∧
      ∀ j : Journal, ((solve 20 many).run j).1 = .error .tooManyDigits := by
  intro e v many
  have hconj : toCnf e = .ok (.conj []) := by cbv
  have hvars : (Formula.conj []).discoverVariables = [] := by
    simp [Formula.discoverVariables, Formula.discoverFrom, Formula.operands]
  have hfits : 2 ^ (Formula.conj []).discoverVariables.length < 10 ^ digitLimit :=
    two_pow_lt_iff.2 (by rw [hvars]; decide)
  have hfits' : 2 ^ e.discoverVariables.length < 10 ^ digitLimit := by
    have hvars' : e.discoverVariables = ["p"] := by
      simp [e, Formula.discoverVariables, Formula.discoverFrom, Formula.operands]
    exact two_pow_lt_iff.2 (by rw [hvars']; decide)
  have hsearch : (Formula.conj []).search = .ok ⟨some ⟨[]⟩, 1⟩ := by
    have htrue : ∀ u : Valuation, (Formula.conj []).evaluate u = .ok true := fun u =>
      Formula.evaluate_eq_truth fun x hx => absurd hx (by simp)
    rw [Formula.search, hvars, Formula.searchFrom]
    simp [htrue, Assignment.ofMask]
  have htried : 1 ≤ 2 ^ (Formula.conj []).discoverVariables.length := by
    rw [hvars]
    decide
  have hext : v.Extends (Assignment.valuation ⟨[]⟩) := by
    intro x b h
    cases h
  have hv : v.Covers e := by
    intro x hx
    obtain rfl : x = "p" := by simpa [e] using hx
    rfl
  have hmany : 10 ^ digitLimit ≤ 2 ^ many.discoverVariables.length :=
    limit_le_of_numbered mem_occurrences_disj_var
  have hself : toCnf many = .ok many := by
    refine toCnf_of_cnf (.clause fun e he => ?_)
    obtain ⟨x, -, rfl⟩ := List.mem_map.1 he
    exact .var x
  refine ⟨fun j => ?_, hmany, hself, fun j => ?_⟩
  · have hsolve : ((solve 20 (.conj [])).run j).1 = .ok (some ⟨[]⟩) :=
      congrArg Prod.fst (reports_solve 20 hfits hsearch htried j)
    obtain ⟨c, hc, -, -, hsame, -, hfound⟩ := solve_toCnf 20 e j
    obtain rfl : Formula.conj [] = c := Except.ok.inj (hconj.symm.trans hc)
    exact ⟨hconj, hfits, hfits', (hsame hfits).2.2 hfits', hsolve, hext, hv,
      hfound _ hsolve v hext hv⟩
  · obtain ⟨c, hc, -, -, -, hfails, -⟩ := solve_toCnf 20 many j
    obtain rfl : many = c := Except.ok.inj (hself.symm.trans hc)
    exact (hfails hmany).1

/-- A conjunction of 14286 literals over as many variables but one is its own normal form and is not
satisfiable. The search fails all the same, instead of finding nothing. -/
theorem solve_toCnf_many_literals :
    let e : Formula := .conj (.neg (.var "v0") :: (numbered 14285).map .var)
    toCnf e = .ok e ∧ (¬∃ v : Valuation, v.Covers e ∧ e.evaluate v = .ok true) ∧
    ∀ (threshold : Int) (j : Journal), ((solve threshold e).run j).1 = .error .tooManyDigits := by
  intro e
  have hfirst : "v0" ∈ numbered 14285 := List.mem_map.2 ⟨0, List.mem_range.2 (by decide), rfl⟩
  have hmany : 10 ^ digitLimit ≤ 2 ^ e.discoverVariables.length := by
    refine limit_le_of_numbered fun x => ?_
    simp only [e, Formula.occurrences_conj, List.flatMap_cons, List.flatMap_map, List.mem_append,
      Formula.occurrences_neg, Formula.occurrences_var, List.mem_singleton, List.flatMap_singleton']
    exact ⟨fun h => h.elim (fun hx => hx ▸ hfirst) id, .inr⟩
  refine ⟨toCnf_of_cnf (.conj fun f hf => ?_), ?_, fun threshold j =>
    congrArg Prod.fst (run_solve_of_le threshold hmany j)⟩
  · rcases List.mem_cons.1 hf with rfl | hf
    · exact .literal (.neg "v0")
    · obtain ⟨x, -, rfl⟩ := List.mem_map.1 hf
      exact .literal (.var x)
  · show ¬e.Satisfiable
    rw [Formula.satisfiable_iff_truth]
    rintro ⟨w, hw⟩
    have hall : ¬w "v0" = true ∧ ∀ x ∈ numbered 14285, w x = true := by
      simpa [e] using hw
    exact hall.1 (hall.2 _ hfirst)

end NormalForm

end Clausal
