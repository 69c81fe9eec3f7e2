import Clausal.Proofs.NormalForm.Arity
import Clausal.Proofs.NormalForm.Satisfiability

/-!
The variables of the conjunctive normal form.

The conversion brings in no variable, and where every conjunction and disjunction has an operand it
loses none. **Main result**: an assignment found for the normal form of such a formula, and so for
that of any parsed one, has a value for every variable of the formula and makes it true.
-/

namespace Clausal

namespace NormalForm

open Report hiding toCnf

/-- **Variables through the conversion.** Every variable of the normal form is one of the formula.
If no conjunction or disjunction is empty, as in a formula that has been parsed, both have the same
variables, and an assignment found for the normal form evaluates the formula to true. -/
theorem solve_toCnf_covers (threshold : Int) (e : Formula) :
    (∀ text, Text.parse text = .ok e → e.MinArity 1) ∧
    ∃ c, toCnf e = .ok c ∧ c.occurrences ⊆ e.occurrences ∧
      (e.MinArity 1 → (∀ x, x ∈ c.occurrences ↔ x ∈ e.occurrences) ∧
        ∀ a (j : Journal), ((solve threshold c).run j).1 = .ok (some a) →
          a.valuation.Covers e ∧ e.evaluate a.valuation = .ok true) := by
  refine ⟨fun text h => (Text.parsed_of_parse h).minArity.mono (by omega), ?_⟩
  obtain ⟨c, hc, hstands, hretains⟩ := toCnf_retains (le_refl 1) (by omega) e
  refine ⟨c, hc, hstands.occurrences_subset, fun harity => ?_⟩
  have hsub : e.occurrences ⊆ c.occurrences := (hretains harity).2
  refine ⟨fun x => ⟨fun hx => hstands.occurrences_subset hx, fun hx => hsub hx⟩,
    fun a j ha => ?_⟩
  have hcovers : a.valuation.Covers e := (of_solve ha).1.mono hsub
  exact ⟨hcovers, evaluate_of_extends hstands ha (fun _ _ hx => hx) hcovers⟩

/-- A parsed formula whose normal form is satisfiable. -/
theorem solve_toCnf_covers_parsed :
    let text := "p <-> q | !r"
    let e : Formula := .iff (.var "p") (.disj [.var "q", .neg (.var "r")])
    Text.parse text = .ok e ∧ e.MinArity 1 ∧ ∃ c, toCnf e = .ok c ∧
      (∀ x, x ∈ c.occurrences ↔ x ∈ e.occurrences) ∧
      ∃ a, ((solve 20 c).run {}).1 = .ok (some a) ∧
        a.valuation.Covers e ∧ e.evaluate a.valuation = .ok true := by
  intro text e
  have hparse : Text.parse text = .ok e := by decide +kernel
  have harity : e.MinArity 1 := (solve_toCnf_covers 20 e).1 text hparse
  obtain ⟨c, hc, -, hvars⟩ := (solve_toCnf_covers 20 e).2
  obtain ⟨hsame, hfound⟩ := hvars harity
  have hsat : c.Satisfiable := by
    obtain ⟨c', hc', -, hstands⟩ := toCnf_standsFor e
    obtain rfl : c' = c := Except.ok.inj (hc'.symm.trans hc)
    exact hstands.satisfiable_iff.2 (Formula.satisfiable_iff_truth.2 ⟨fun _ => true, by simp [e]⟩)
  have hfits : 2 ^ c.discoverVariables.length < 10 ^ digitLimit := by
    have hnames : ["p", "q", "r"].Nodup := by decide
    refine two_pow_lt_iff.2 ?_
    rw [Formula.length_discoverVariables hnames fun x => (hsame x).trans ?_]
    · decide
    · simp [e]
  rcases solve_cases 20 c {} with ⟨-, ⟨a, ha, -⟩ | ⟨-, hunsat⟩⟩ | ⟨hle, -⟩
  · exact ⟨hparse, harity, c, hc, hsame, a, ha, hfound a {} ha⟩
  · exact absurd hsat hunsat
  · exact absurd hfits (Nat.not_lt.2 hle)

end NormalForm

end Clausal
