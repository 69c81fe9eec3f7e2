import Clausal.NormalForm.Implications
import Clausal.NormalForm.Negations
import Clausal.NormalForm.Shape
import Clausal.Proofs.Engine.Recursion
import Clausal.Proofs.Semantics.Truth

/-!
The first two passes of the conversion as rewriting, and formulas that may stand for others.

A pass replaces nodes by its rules and puts the operands together again. So whatever relation
contains the rules and goes up from the operands to the node holds between the result and the
formula. **Main results**: eliminating implications always returns a plain formula that is so
related to the given one, and pushing negations turns a plain formula into a negation normal form
that is. One such relation is that a formula stands for another: both are true under the same
values, and it brings in no new variable.
-/

namespace Clausal

namespace Formula

/-- `f` is true where `e` is, and has no other variables. -/
structure StandsFor (f e : Formula) : Prop where
  truth_eq : ∀ w, f.truth w = e.truth w
  occurrences_subset : f.occurrences ⊆ e.occurrences

namespace StandsFor

lemma refl (e : Formula) : e.StandsFor e := ⟨fun _ => rfl, fun _ hx => hx⟩

lemma trans {f g e : Formula} (hfg : f.StandsFor g) (hge : g.StandsFor e) : f.StandsFor e :=
  ⟨fun w => (hfg.truth_eq w).trans (hge.truth_eq w),
    fun _ hx => hge.occurrences_subset (hfg.occurrences_subset hx)⟩

lemma evaluate_eq {f e : Formula} (h : f.StandsFor e) {v : Valuation} (hv : v.Covers e) :
    f.evaluate v = e.evaluate v := by
  have hf : v.Covers f := hv.mono h.occurrences_subset
  rw [evaluate_eq_truth hf, evaluate_eq_truth hv, h.truth_eq]

section Lists

variable {es fs : List Formula} (h : List.Forall₂ (fun e f => f.StandsFor e) es fs)
include h

lemma map_truth (w : String → Bool) : fs.map (truth w) = es.map (truth w) := by
  induction h with
  | nil => rfl
  | cons hef _ ih => rw [List.map_cons, List.map_cons, hef.truth_eq, ih]

lemma flatMap_occurrences : fs.flatMap occurrences ⊆ es.flatMap occurrences := by
  induction h with
  | nil => exact fun _ hx => hx
  | cons hef _ ih =>
    intro x hx
    rw [List.flatMap_cons, List.mem_append] at hx ⊢
    exact hx.imp (fun hx => hef.occurrences_subset hx) fun hx => ih hx

lemma conj : (Formula.conj fs).StandsFor (.conj es) where
  truth_eq w := by rw [truth, truth, truths_eq_map, truths_eq_map, map_truth h]
  occurrences_subset := by simpa using flatMap_occurrences h

lemma disj : (Formula.disj fs).StandsFor (.disj es) where
  truth_eq w := by rw [truth, truth, truths_eq_map, truths_eq_map, map_truth h]
  occurrences_subset := by simpa using flatMap_occurrences h

end Lists

lemma neg {e f : Formula} (h : f.StandsFor e) : (Formula.neg f).StandsFor (.neg e) where
  truth_eq w := by rw [truth_neg, truth_neg, h.truth_eq]
  occurrences_subset := by simpa using h.occurrences_subset

end StandsFor

/-! ### Shapes -/

/-- Without implications and equivalences. -/
def Plain : Formula → Prop := Every fun f => f.kind ≠ .imp ∧ f.kind ≠ .iff

/-- Plain, with negations on variables only. -/
def Nnf : Formula → Prop :=
  Every fun f => f.kind ≠ .imp ∧ f.kind ≠ .iff ∧ (f.kind = .neg → f.isLiteral)

instance (e : Formula) : Decidable e.Plain := inferInstanceAs (Decidable (Every _ e))

instance (e : Formula) : Decidable e.Nnf := inferInstanceAs (Decidable (Every _ e))

lemma plain_of_operands {e : Formula} (hi : e.kind ≠ .imp) (hq : e.kind ≠ .iff)
    (h : ∀ c ∈ e.operands, c.Plain) : e.Plain :=
  every_iff.2 ⟨⟨hi, hq⟩, h⟩

lemma exists_operand_not_plain {e : Formula} (hi : e.kind ≠ .imp) (hq : e.kind ≠ .iff)
    (h : ¬e.Plain) : ∃ c ∈ e.operands, ¬c.Plain := by
  by_contra hnone
  push Not at hnone
  exact h (plain_of_operands hi hq hnone)

lemma not_plain_imp (a b : Formula) : ¬(imp a b).Plain := fun h => h.root.1 rfl

lemma not_plain_iff (a b : Formula) : ¬(iff a b).Plain := fun h => h.root.2 rfl

lemma nnf_of_operands {e : Formula} (hk : e.kind = .conj ∨ e.kind = .disj)
    (h : ∀ c ∈ e.operands, c.Nnf) : e.Nnf := by
  refine every_iff.2 ⟨⟨?_, ?_, ?_⟩, h⟩ <;> rcases hk with hk | hk <;> simp [hk]

lemma nnf_of_isLiteral {e : Formula} (h : e.isLiteral) : e.Nnf := by
  match e, h with
  | const b, _ => exact every_iff.2 ⟨by simp [kind], by simp [operands]⟩
  | var x, _ => exact every_iff.2 ⟨by simp [kind], by simp [operands]⟩
  | neg (var x), _ =>
    have hx : (var x).Nnf := every_iff.2 ⟨by simp [kind], by simp [operands]⟩
    refine every_iff.2 ⟨by simp [kind, isLiteral], fun c hc => ?_⟩
    rw [List.mem_singleton.1 hc]
    exact hx

lemma not_nnf_imp (a b : Formula) : ¬(imp a b).Nnf := fun h => h.root.1 rfl

lemma not_nnf_iff (a b : Formula) : ¬(iff a b).Nnf := fun h => h.root.2.1 rfl

end Formula

namespace NormalForm

open Engine Formula

/-! ### Relations that the passes keep to -/

/-- A relation between what a formula is replaced by and the formula, which may be followed into
conjunctions and disjunctions. -/
structure Congruence (R : Formula → Formula → Prop) : Prop where
  refl : ∀ e, R e e
  trans : ∀ {f g e}, R f g → R g e → R f e
  conj : ∀ {es fs}, List.Forall₂ (fun e f => R f e) es fs → R (.conj fs) (.conj es)
  disj : ∀ {es fs}, List.Forall₂ (fun e f => R f e) es fs → R (.disj fs) (.disj es)

variable {R : Formula → Formula → Prop}

lemma Congruence.node (hR : Congruence R) {n v : Formula} (hk : n.kind = .conj ∨ n.kind = .disj)
    (hv : v.kind = n.kind) (h : List.Forall₂ (fun c v => R v c) n.operands v.operands) :
    R v n := by
  cases n with
  | conj es =>
    cases v with
    | conj fs => exact hR.conj h
    | _ => cases hv
  | disj es =>
    cases v with
    | disj fs => exact hR.disj h
    | _ => cases hv
  | _ => simp [kind] at hk

/-- The kinds that the passes put together. -/
def Rebuilt (k : Kind) : Prop := k = .neg ∨ k = .conj ∨ k = .disj

/-- A node is put together from any parts, if there are as many as it has operands. -/
lemma exists_rebuild {n : Formula} {vs : List Formula} (hk : Rebuilt n.kind)
    (h : n.operands.length = vs.length) :
    ∃ v, Structural.rebuild n.kind vs = .ok v ∧ v.kind = n.kind ∧ v.operands = vs := by
  cases n with
  | neg e =>
    obtain ⟨v, rfl⟩ := List.length_eq_one_iff.1 h.symm
    exact ⟨.neg v, rfl, rfl, rfl⟩
  | conj es => exact ⟨.conj vs, rfl, rfl, rfl⟩
  | disj es => exact ⟨.disj vs, rfl, rfl, rfl⟩
  | _ => simp [Rebuilt, kind] at hk

/-- To plan for a node is to keep to any shape, and to any relation, that goes up from the operands
to the node. -/
lemma keeps_node {combine : Kind → List Formula → Except Fault Formula} {D Q : Formula → Prop}
    {n e : Formula} (hk : Rebuilt n.kind) (hcombine : combine n.kind = Structural.rebuild n.kind)
    (hD : ∀ c ∈ n.operands, D c)
    (hQ : ∀ v, v.kind = n.kind → (∀ c ∈ v.operands, Q c) → Q v)
    (hR : ∀ v, v.kind = n.kind → List.Forall₂ (fun c v => R v c) n.operands v.operands → R v e) :
    (Plan.node n).Keeps combine D (fun e v => Q v ∧ R v e) e := by
  refine ⟨hD, fun vs hvs => ?_⟩
  obtain ⟨v, hv, hkind, rfl⟩ := exists_rebuild hk hvs.length_eq
  obtain ⟨hshape, hrel⟩ := (List.forall₂_and_left _ _).1 hvs.flip
  exact ⟨v, by rw [hcombine, hv], hQ v hkind hshape, hR v hkind hrel.flip⟩

/-! ### Eliminating implications -/

/-- A congruence that contains the rules by which implications are eliminated. -/
structure Implications.Rules (R : Formula → Formula → Prop) : Prop extends Congruence R where
  neg : ∀ {e f}, R f e → R (.neg f) (.neg e)
  imp : ∀ a b, R (.disj [.neg a, b]) (.imp a b)
  iff : ∀ a b, R (.conj [.imp a b, .imp b a]) (.iff a b)

lemma plain_of_rebuilt {n : Formula} (hk : Rebuilt n.kind) (v : Formula) (hv : v.kind = n.kind)
    (hops : ∀ c ∈ v.operands, c.Plain) : v.Plain := by
  rw [← hv] at hk
  rcases hk with hk | hk | hk <;> exact plain_of_operands (by simp [hk]) (by simp [hk]) hops

lemma Implications.Rules.rebuilt (hR : Implications.Rules R) {n v : Formula} (hk : Rebuilt n.kind)
    (hv : v.kind = n.kind) (h : List.Forall₂ (fun c v => R v c) n.operands v.operands) :
    R v n := by
  rcases hk with hk | hk
  · cases n with
    | neg e =>
      cases v with
      | neg f => exact hR.neg (List.forall₂_cons.1 h).1
      | _ => cases hv
    | _ => cases hk
  · exact hR.node hk hv h

/-- **Eliminating implications** never fails; the result is plain, and related to the formula by
all that the rules are related by. -/
theorem Implications.Rules.total (hR : Implications.Rules R) (e : Formula) :
    ∃ v, eliminateImplications e = .ok v ∧ v.Plain ∧ R v e := by
  unfold eliminateImplications
  rw [Fold.apply_eq_eval]
  refine Fold.eval_total (F := Implications.fold) (D := fun _ => True)
    (P := fun e v => v.Plain ∧ R v e) (fun e _ => ?_) trivial
  -- every plan but those for atoms is one for a node that the rules relate to the formula
  have hnode : ∀ {n : Formula}, Rebuilt n.kind → R n e →
      Implications.combine n.kind = Structural.rebuild n.kind →
      (Plan.node n).Keeps Implications.combine (fun _ => True)
        (fun e v => v.Plain ∧ R v e) e := by
    intro n hk hn hcombine
    exact keeps_node hk hcombine (fun _ _ => trivial) (plain_of_rebuilt hk)
      fun v hv h => hR.trans (hR.rebuilt hk hv h) hn
  cases e with
  | const b => exact ⟨_, rfl, plain_of_operands nofun nofun nofun, hR.refl _⟩
  | var x => exact ⟨_, rfl, plain_of_operands nofun nofun nofun, hR.refl _⟩
  | neg e => exact ⟨_, rfl, hnode (.inl rfl) (hR.refl _) rfl⟩
  | conj es => exact ⟨_, rfl, hnode (.inr (.inl rfl)) (hR.refl _) rfl⟩
  | disj es => exact ⟨_, rfl, hnode (.inr (.inr rfl)) (hR.refl _) rfl⟩
  | imp a b => exact ⟨_, rfl, hnode (.inr (.inr rfl)) (hR.imp a b) rfl⟩
  | iff a b => exact ⟨_, rfl, hnode (.inr (.inl rfl)) (hR.iff a b) rfl⟩

lemma Implications.Rules.of_ok (hR : Implications.Rules R) {e v : Formula}
    (h : eliminateImplications e = .ok v) : v.Plain ∧ R v e := by
  obtain ⟨v', hv', hkeeps⟩ := hR.total e
  obtain rfl : v = v' := Except.ok.inj (h.symm.trans hv')
  exact hkeeps

/-! ### Pushing negations -/

/-- A congruence that contains the rules by which negations are pushed down. -/
structure Negations.Rules (R : Formula → Formula → Prop) : Prop extends Congruence R where
  negConst : ∀ b, R (.const !b) (.neg (.const b))
  negNeg : ∀ e, R e (.neg (.neg e))
  negConj : ∀ es, R (.disj (es.map .neg)) (.neg (.conj es))
  negDisj : ∀ es, R (.conj (es.map .neg)) (.neg (.disj es))

lemma Negations.Rules.keeps (hR : Negations.Rules R) {site : String} {n e : Formula}
    (hk : n.kind = .conj ∨ n.kind = .disj) (hn : R n e) (hD : ∀ c ∈ n.operands, c.Plain) :
    (Plan.node n).Keeps (Structural.rebuildPlain site) Plain (fun e v => v.Nnf ∧ R v e) e := by
  have hcombine : Structural.rebuildPlain site n.kind = Structural.rebuild n.kind := by
    rcases hk with hk | hk <;> rw [hk] <;> rfl
  refine keeps_node (.inr hk) hcombine hD (fun v hv => ?_) fun v hv h => ?_
  · exact nnf_of_operands (hv ▸ hk)
  · exact hR.trans (hR.node hk hv h) hn

lemma Negations.Rules.negated (hR : Negations.Rules R) {site : String} {e : Formula}
    (h : e.Plain) : ∃ p, Negations.negated e = .ok p ∧
      p.Keeps (Structural.rebuildPlain site) Plain (fun e v => v.Nnf ∧ R v e) (.neg e) := by
  have hmap : ∀ {es : List Formula}, (∀ e ∈ es, e.Plain) → ∀ c ∈ es.map Formula.neg, c.Plain := by
    intro es hes c hc
    obtain ⟨d, hd, rfl⟩ := List.mem_map.1 hc
    exact plain_of_operands nofun nofun (by simpa [operands] using hes d hd)
  cases e with
  | const b => exact ⟨_, rfl, nnf_of_isLiteral rfl, hR.negConst b⟩
  | var x => exact ⟨_, rfl, nnf_of_isLiteral rfl, hR.refl _⟩
  | neg e =>
    refine ⟨_, rfl, h.operand List.mem_cons_self, fun v hv => ⟨hv.1, ?_⟩⟩
    exact hR.trans hv.2 (hR.negNeg e)
  | conj es =>
    exact ⟨_, rfl, hR.keeps (.inr rfl) (hR.negConj es) (hmap fun e he => h.operand he)⟩
  | disj es =>
    exact ⟨_, rfl, hR.keeps (.inl rfl) (hR.negDisj es) (hmap fun e he => h.operand he)⟩
  | imp a b => exact absurd h (not_plain_imp a b)
  | iff a b => exact absurd h (not_plain_iff a b)

/-- **Pushing negations** turns a plain formula into a negation normal form, related to it by all
that the rules are related by. -/
theorem Negations.Rules.total (hR : Negations.Rules R) {e : Formula} (h : e.Plain) :
    ∃ v, pushNegations e = .ok v ∧ v.Nnf ∧ R v e := by
  unfold pushNegations
  rw [Fold.apply_eq_eval]
  refine Fold.eval_total (F := Negations.fold) (D := Plain)
    (P := fun e v => v.Nnf ∧ R v e) (fun e he => ?_) h
  cases e with
  | const b => exact ⟨_, rfl, nnf_of_isLiteral rfl, hR.refl _⟩
  | var x => exact ⟨_, rfl, nnf_of_isLiteral rfl, hR.refl _⟩
  | neg e => exact hR.negated (he.operand List.mem_cons_self)
  | conj es => exact ⟨_, rfl, hR.keeps (.inl rfl) (hR.refl _) fun c hc => he.operand hc⟩
  | disj es => exact ⟨_, rfl, hR.keeps (.inr rfl) (hR.refl _) fun c hc => he.operand hc⟩
  | imp a b => exact absurd he (not_plain_imp a b)
  | iff a b => exact absurd he (not_plain_iff a b)

lemma Negations.Rules.of_ok (hR : Negations.Rules R) {e v : Formula} (he : e.Plain)
    (h : pushNegations e = .ok v) : v.Nnf ∧ R v e := by
  obtain ⟨v', hv', hkeeps⟩ := hR.total he
  obtain rfl : v = v' := Except.ok.inj (h.symm.trans hv')
  exact hkeeps

/-! ### The rules keep truth -/

lemma congruence_standsFor : Congruence StandsFor where
  refl := .refl
  trans := .trans
  conj := StandsFor.conj
  disj := StandsFor.disj

lemma disj_standsFor_imp (a b : Formula) : (Formula.disj [.neg a, b]).StandsFor (.imp a b) where
  truth_eq w := by simp
  occurrences_subset := by simp

lemma conj_standsFor_iff (a b : Formula) :
    (Formula.conj [.imp a b, .imp b a]).StandsFor (.iff a b) where
  truth_eq w := by
    simp only [truth_conj, truth_imp, truth_iff, List.all_cons, List.all_nil]
    cases a.truth w <;> cases b.truth w <;> rfl
  occurrences_subset := by
    intro x hx
    simpa [or_comm, or_assoc, or_left_comm] using hx

lemma implications_standsFor : Implications.Rules StandsFor where
  toCongruence := congruence_standsFor
  neg := .neg
  imp := disj_standsFor_imp
  iff := conj_standsFor_iff

lemma disj_standsFor_neg_conj (es : List Formula) :
    (Formula.disj (es.map .neg)).StandsFor (.neg (.conj es)) where
  truth_eq w := by
    simp only [truth_disj, truth_neg, truth_conj, List.any_map, List.not_all_eq_any_not]
    rfl
  occurrences_subset := by simp [List.flatMap_map]

lemma conj_standsFor_neg_disj (es : List Formula) :
    (Formula.conj (es.map .neg)).StandsFor (.neg (.disj es)) where
  truth_eq w := by
    simp only [truth_disj, truth_neg, truth_conj, List.all_map, List.not_any_eq_all_not]
    rfl
  occurrences_subset := by simp [List.flatMap_map]

lemma negations_standsFor : Negations.Rules StandsFor where
  toCongruence := congruence_standsFor
  negConst b := ⟨fun w => rfl, by simp⟩
  negNeg e := ⟨fun w => by simp, by simp⟩
  negConj := disj_standsFor_neg_conj
  negDisj := conj_standsFor_neg_disj

end NormalForm

end Clausal
