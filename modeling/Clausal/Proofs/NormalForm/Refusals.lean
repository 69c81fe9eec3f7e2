import Clausal.Proofs.Engine.Faults
import Clausal.Proofs.NormalForm.FixedPoints

/-!
What pushing negations refuses, and what it returns.

Neither double negations nor De Morgan's laws change the order in which a formula is read, so the
pass comes to implications and equivalences in reading order, whatever negations stand around them.
**Main result**: it refuses the first of them, under its own name; if there is none, it returns a
negation normal form, and the formula itself exactly if it is one already.
-/

namespace Clausal

namespace Formula

variable {e f : Formula}

/-- The first implication or equivalence, a root coming before its operands. -/
def firstBinary? (e : Formula) : Option Formula :=
  e.subformulas.find? fun f => f.kind = .imp ∨ f.kind = .iff

lemma firstBinary?_eq_none_iff : e.firstBinary? = none ↔ e.Plain := by
  rw [firstBinary?, List.find?_eq_none]
  refine forall₂_congr fun f _ => ?_
  rw [decide_eq_true_eq, not_or]

lemma exists_firstBinary? (h : ¬e.Plain) : ∃ f, e.firstBinary? = some f := by
  rw [← firstBinary?_eq_none_iff] at h
  exact Option.ne_none_iff_exists'.1 h

lemma exists_binary_iff :
    (∃ f ∈ e.subformulas, f.kind = .imp ∨ f.kind = .iff) ↔ ¬e.Plain := by
  simp only [Plain, Every, not_forall, exists_prop, not_and_or, not_not]

lemma firstBinary?_eq_some_iff :
    e.firstBinary? = some f ↔ (f.kind = .imp ∨ f.kind = .iff) ∧
      ∃ before after, e.subformulas = before ++ f :: after ∧
        ∀ g ∈ before, g.kind ≠ .imp ∧ g.kind ≠ .iff := by
  rw [firstBinary?, List.find?_eq_some_iff_append, decide_eq_true_eq]
  simp only [Bool.not_eq_true', decide_eq_false_iff_not, not_or]

lemma firstBinary?_of_operands (hi : e.kind ≠ .imp) (hq : e.kind ≠ .iff) :
    e.firstBinary? = e.operands.findSome? firstBinary? := by
  have hroot : ¬(e.kind = .imp ∨ e.kind = .iff) := not_or.2 ⟨hi, hq⟩
  rw [firstBinary?, subformulas_eq, List.find?_cons_of_neg (by simpa using hroot),
    List.find?_flatMap]
  rfl

lemma firstBinary?_neg (e : Formula) : (neg e).firstBinary? = e.firstBinary? := by
  rw [firstBinary?_of_operands (by simp [kind]) (by simp [kind])]
  exact List.findSome?_singleton

end Formula

namespace NormalForm

open Engine Formula

namespace Negations

/-- The refusal that is due to the first implication or equivalence. -/
def refusal (e : Formula) : Option Fault :=
  e.firstBinary?.map fun f => .unexpectedKind f.kind site

lemma refusal_of_operands {e : Formula} (hi : e.kind ≠ .imp) (hq : e.kind ≠ .iff) :
    refusal e = e.operands.findSome? refusal := by
  rw [refusal, firstBinary?_of_operands hi hq, List.map_findSome?]
  rfl

lemma refusal_neg (e : Formula) : refusal (.neg e) = refusal e := by
  rw [refusal, firstBinary?_neg, refusal]

/-- Negated operands are refused for what the operands are. -/
lemma findSome?_refusal_map_neg (es : List Formula) :
    (es.map Formula.neg).findSome? refusal = es.findSome? refusal := by
  have hneg : refusal ∘ Formula.neg = refusal := funext refusal_neg
  rw [List.findSome?_map, hneg]

/-- A negation is refused by its plan, or for the first of the children that is refused. -/
lemma refusal_negated (e : Formula) :
    refusal (.neg e) = fold.firstFault refusal (.neg e) := by
  rw [refusal_neg]
  cases e with
  | const b => rfl
  | var x => rfl
  | neg e => exact (refusal_neg e).trans List.findSome?_singleton.symm
  | conj es | disj es =>
    -- De Morgan's laws leave the operands in their order, each under a negation
    rw [refusal_of_operands (by simp [kind]) (by simp [kind])]
    exact (findSome?_refusal_map_neg es).symm
  | imp a b => rfl
  | iff a b => rfl

lemma refusal_eq_firstFault (e : Formula) : refusal e = fold.firstFault refusal e := by
  cases e with
  | const b => rfl
  | var x => rfl
  | neg e => exact refusal_negated e
  | conj es | disj es => exact refusal_of_operands (by simp [kind]) (by simp [kind])
  | imp a b => rfl
  | iff a b => rfl

end Negations

lemma pushNegations_of_firstBinary? {e f : Formula} (h : e.firstBinary? = some f) :
    pushNegations e = .error (.unexpectedKind f.kind Negations.site) := by
  have hsettles := (Pass.fits .negations).apply_settles Negations.refusal_eq_firstFault e
  rw [Negations.refusal, h] at hsettles
  exact hsettles

lemma pushNegations_of_plain {e : Formula} (h : e.Plain) :
    ∃ r, pushNegations e = .ok r ∧ r.Nnf ∧ r.StandsFor e ∧ (r = e ↔ e.Nnf) := by
  obtain ⟨r, hr, hnnf, hstands⟩ := negations_standsFor.total h
  refine ⟨r, hr, hnnf, hstands, fun hre => hre ▸ hnnf, fun he => ?_⟩
  exact Except.ok.inj (hr.symm.trans (pushNegations_of_nnf he))

/-- **Pushing negations** refuses a formula exactly if it holds an implication or an equivalence,
and names the kind of the first one in reading order. Any other formula becomes a negation normal
form that stands for it, and stays the same exactly if it is one. -/
theorem pushNegations_outcome (e : Formula) :
    ((∃ kind site, pushNegations e = .error (.unexpectedKind kind site)) ↔
      ∃ f ∈ e.subformulas, f.kind = .imp ∨ f.kind = .iff) ∧
    (¬e.Plain → ∃ before f after, e.subformulas = before ++ f :: after ∧
      (∀ g ∈ before, g.kind ≠ .imp ∧ g.kind ≠ .iff) ∧ (f.kind = .imp ∨ f.kind = .iff) ∧
      pushNegations e = .error (.unexpectedKind f.kind "push_negations")) ∧
    (e.Plain → ∃ r, pushNegations e = .ok r ∧ r.Nnf ∧ r.StandsFor e ∧ (r = e ↔ e.Nnf)) := by
  refine ⟨⟨?_, fun h => ?_⟩, fun h => ?_, pushNegations_of_plain⟩
  · rintro ⟨kind, site, herror⟩
    rw [exists_binary_iff]
    intro hplain
    obtain ⟨r, hr, -⟩ := pushNegations_of_plain hplain
    cases herror.symm.trans hr
  · obtain ⟨f, hf⟩ := exists_firstBinary? (exists_binary_iff.1 h)
    exact ⟨_, _, pushNegations_of_firstBinary? hf⟩
  · obtain ⟨f, hf⟩ := exists_firstBinary? h
    obtain ⟨hkind, before, after, hsplit, hbefore⟩ := firstBinary?_eq_some_iff.1 hf
    exact ⟨before, f, after, hsplit, hbefore, hkind, pushNegations_of_firstBinary? hf⟩

/-- An equivalence under two negations and a conjunction, with an implication inside it and one
behind it; and two plain formulas, of which one is in negation normal form. -/
theorem pushNegations_outcome_nested :
    let e : Formula := .neg (.conj [.var "p", .neg (.iff (.imp (.var "q") (.var "p")) (.var "r")),
      .imp (.var "p") (.var "q")])
    let n : Formula := .neg (.disj [.var "p", .neg (.var "q")])
    let m : Formula := .conj [.neg (.var "p"), .var "q"]
    (¬e.Plain ∧ pushNegations e = .error (.unexpectedKind .iff "push_negations")) ∧
    (n.Plain ∧ ¬n.Nnf ∧ ∃ r, pushNegations n = .ok r ∧ r.Nnf ∧ r ≠ n) ∧
    (m.Plain ∧ m.Nnf ∧ pushNegations m = .ok m) := by
  intro e n m
  have he : ¬e.Plain := by decide
  have hn : n.Plain := by decide
  have hn' : ¬n.Nnf := by decide
  have hm : m.Plain := by decide
  have hm' : m.Nnf := by decide
  obtain ⟨-, hrefuses, -⟩ := pushNegations_outcome e
  obtain ⟨before, f, after, hsplit, hbefore, hkind, herror⟩ := hrefuses he
  have hfirst : e.firstBinary? = some f :=
    firstBinary?_eq_some_iff.2 ⟨hkind, before, after, hsplit, hbefore⟩
  have hf : f.kind = .iff := by
    cases hfirst
    rfl
  obtain ⟨r, hr, hnnf, -, hsame⟩ := (pushNegations_outcome n).2.2 hn
  obtain ⟨r', hr', -, -, hsame'⟩ := (pushNegations_outcome m).2.2 hm
  refine ⟨⟨he, hf ▸ herror⟩, ⟨hn, hn', r, hr, hnnf, fun h => hn' (hsame.1 h)⟩, hm, hm', ?_⟩
  rw [hr', hsame'.2 hm']

end NormalForm

end Clausal
