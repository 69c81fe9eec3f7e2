import Clausal.Proofs.NormalForm.Expansion
import Clausal.Proofs.NormalForm.Refusals

/-!
Distribution of formulas that are in no normal form.

Negations are pushed down here by the same rules as before, only too late: a conjunction that comes
out of a negation inside a disjunction is not distributed any more. The steps keep truth all the
same. **Main results**: distribution turns any plain formula into a negation normal form that is
true alike. It refuses a formula exactly if an implication or equivalence is left when the formula
is multiplied out; beside an empty conjunction nothing is.
-/

namespace Clausal.NormalForm

open Engine Formula

/-! ### Plain formulas -/

variable {R : Formula → Formula → Prop}

lemma Distribution.Rules.total_of_plain (hR : Distribution.Rules R) (hN : Negations.Rules R)
    {e : Formula} (h : e.Plain) : ∃ v, distributeOrOverAnd e = .ok v ∧ v.Nnf ∧ R v e := by
  unfold distributeOrOverAnd
  rw [Fold.apply_eq_eval]
  refine Fold.eval_total (F := Distribution.fold) (D := Plain)
    (P := fun e v => v.Nnf ∧ R v e) (fun e he => ?_) h
  cases e with
  | const b => exact ⟨_, rfl, nnf_of_isLiteral rfl, hR.refl _⟩
  | var x => exact ⟨_, rfl, nnf_of_isLiteral rfl, hR.refl _⟩
  | neg e => exact hN.negated (he.operand List.mem_cons_self)
  | conj es => exact ⟨_, rfl, hN.keeps (.inl rfl) (hR.refl _) fun c hc => he.operand hc⟩
  | disj es =>
    have hflat : ∀ f ∈ flattenDisjuncts es, f.Plain :=
      every_flattenDisjuncts fun e he' => he.operand he'
    have hstep : R (Distribution.distribute (flattenDisjuncts es)) (.disj es) :=
      hR.trans (hR.distribute _) (hR.flatten es)
    exact ⟨_, rfl, hN.keeps (Distribution.distribute_kind _) hstep (distribute_plain hflat)⟩
  | imp a b => exact absurd he (not_plain_imp a b)
  | iff a b => exact absurd he (not_plain_iff a b)

/-- **Distribution keeps truth** on every formula without implications and equivalences, whatever
negations stand in it. What it returns is a negation normal form, which evaluates to the truth of
the formula wherever all variables of the formula have values. -/
theorem distributeOrOverAnd_equivalent (e : Formula) (h : e.Plain) :
    ∃ r, distributeOrOverAnd e = .ok r ∧ r.Nnf ∧
      ∀ v : Valuation, v.Covers e →
        e.evaluate v = .ok (e.truth v.total) ∧ r.evaluate v = .ok (e.truth v.total) := by
  obtain ⟨r, hr, hnnf, hstands⟩ := distribution_standsFor.total_of_plain negations_standsFor h
  refine ⟨r, hr, hnnf, fun v hv => ⟨evaluate_eq_truth hv, ?_⟩⟩
  rw [hstands.evaluate_eq hv, evaluate_eq_truth hv]

/-- A conjunction that is distributed over a negated disjunction, which holds a negation itself. -/
theorem distributeOrOverAnd_equivalent_negated :
    let e : Formula := .disj [.conj [.var "p", .neg (.neg (.var "q"))],
      .neg (.disj [.neg (.conj [.var "q", .var "r"]), .var "p"])]
    let v : Valuation := fun x => if x = "p" then some true else some false
    e.Plain ∧ ¬e.Nnf ∧ v.Covers e ∧ ∃ r, distributeOrOverAnd e = .ok r ∧ r.Nnf ∧
      e.evaluate v = .ok false ∧ r.evaluate v = .ok false := by
  intro e v
  have he : e.Plain := by decide
  have hnnf : ¬e.Nnf := by decide
  have hv : v.Covers e := by decide
  have hfalse : e.truth v.total = false := by simp [e, v, Valuation.total]
  obtain ⟨r, hr, hnnf', hsame⟩ := distributeOrOverAnd_equivalent e he
  have hvalues := hsame v hv
  rw [hfalse] at hvalues
  exact ⟨he, hnnf, hv, r, hr, hnnf', hvalues⟩

-- the conjunction that comes out of the negation stays where it is
example : distributeOrOverAnd (.disj [.var "p", .neg (.disj [.var "q", .var "r"])]) =
    .ok (.disj [.var "p", .conj [.neg (.var "q"), .neg (.var "r")]]) := by
  cbv

/-! ### What is left when a formula is multiplied out -/

namespace Distribution

/-- An implication or equivalence is left when the formula is multiplied out. A conjunction or
disjunction is known by the clauses of its product, so all that stands beside an empty conjunction
is lost. A negation is pushed down first, and nothing is lost under it. -/
inductive Refused : Formula → Prop
  | binary {e : Formula} : e.kind = .imp ∨ e.kind = .iff → Refused e
  | factor {e f : Formula} {c : Clause} : e.kind = .conj ∨ e.kind = .disj → c ∈ e.expand →
      f ∈ c → Refused f → Refused e
  | negBinary {e : Formula} : e.kind = .imp ∨ e.kind = .iff → Refused (.neg e)
  | negNeg {e : Formula} : Refused e → Refused (.neg (.neg e))
  | negOperand {e c : Formula} : e.kind = .conj ∨ e.kind = .disj → c ∈ e.operands →
      Refused (.neg c) → Refused (.neg e)

lemma refused_iff_expand {e : Formula} :
    Refused e ↔ ∃ c ∈ e.expand, ∃ f ∈ c, Refused f := by
  by_cases hk : e.kind = .conj ∨ e.kind = .disj
  · constructor
    · intro h
      cases h with
      | factor _ hc hf h => exact ⟨_, hc, _, hf, h⟩
      | binary hb => rcases hk with hk | hk <;> simp [hk] at hb
      | _ => simp [kind] at hk
    · rintro ⟨c, hc, f, hf, h⟩
      exact .factor hk hc hf h
  · rw [expand_of_kind_ne (not_or.1 hk)]
    simp

lemma refused_conj {es : List Formula} : Refused (.conj es) ↔ ∃ e ∈ es, Refused e := by
  rw [refused_iff_expand]
  constructor
  · rintro ⟨c, hc, f, hf, h⟩
    obtain ⟨e, he, hc⟩ := mem_expand_conj.1 hc
    exact ⟨e, he, refused_iff_expand.2 ⟨c, hc, f, hf, h⟩⟩
  · rintro ⟨e, he, h⟩
    obtain ⟨c, hc, hf⟩ := refused_iff_expand.1 h
    exact ⟨c, mem_expand_conj.2 ⟨e, he, hc⟩, hf⟩

lemma refused_disj_of_kind_ne {es : List Formula}
    (h : ∀ e ∈ es, e.kind ≠ .conj ∧ e.kind ≠ .disj) :
    Refused (.disj es) ↔ ∃ e ∈ es, Refused e := by
  rw [refused_iff_expand, expand_disj, unions_of_kind_ne h]
  simp

/-- Neither step of distribution changes what is left. -/
lemma refused_disj {es : List Formula} :
    Refused (.disj es) ↔ ∃ c ∈ (distribute (flattenDisjuncts es)).operands, Refused c := by
  have hexpand : (distribute (flattenDisjuncts es)).expand = (Formula.disj es).expand :=
    (expand_distribute _).trans (expand_flattenDisjuncts es)
  rw [refused_iff_expand, ← hexpand, ← refused_iff_expand]
  rcases distribute_cases (flattenDisjuncts es) with ⟨before, parts, after, -, hd⟩ | ⟨hnone, hd⟩
  · rw [hd]
    exact refused_conj
  · rw [hd]
    exact refused_disj_of_kind_ne fun f hf => ⟨hnone f hf, kind_of_mem_flattenDisjuncts f hf⟩

lemma refused_of_plan_error {e : Formula} {f : Fault} (h : plan e = .error f) : Refused e := by
  rcases plan_error_cases h with ⟨hk, -⟩ | ⟨d, rfl, hk, -⟩
  · exact .binary hk
  · exact .negBinary hk

lemma refused_of_child {e c : Formula} {p : Plan Formula} (h : plan e = .ok p)
    (hc : c ∈ p.children) (hr : Refused c) : Refused e := by
  rcases plan_child_cases h hc with rfl | ⟨d, rfl, hk, b, hb, rfl⟩ | ⟨es, rfl, hes⟩ | ⟨es, rfl, hes⟩
  · exact .negNeg hr
  · exact .negOperand hk hb hr
  · exact refused_conj.2 ⟨c, hes, hr⟩
  · exact refused_disj.2 ⟨c, hes, hr⟩

lemma Refused.step {e : Formula} (h : Refused e) :
    (∃ f, plan e = .error f) ∨ ∃ p, plan e = .ok p ∧ ∃ c ∈ p.children, Refused c := by
  cases h with
  | binary hk =>
    cases e with
    | imp a b => exact .inl ⟨_, rfl⟩
    | iff a b => exact .inl ⟨_, rfl⟩
    | _ => simp [kind] at hk
  | factor hk hc hf hr =>
    have h : Refused e := .factor hk hc hf hr
    cases e with
    | conj es => exact .inr ⟨_, rfl, refused_conj.1 h⟩
    | disj es => exact .inr ⟨_, rfl, refused_disj.1 h⟩
    | _ => simp [kind] at hk
  | @negBinary e hk =>
    cases e with
    | imp a b => exact .inl ⟨_, rfl⟩
    | iff a b => exact .inl ⟨_, rfl⟩
    | _ => simp [kind] at hk
  | negNeg hr => exact .inr ⟨_, rfl, _, List.mem_singleton.2 rfl, hr⟩
  | @negOperand e c hk hc hr =>
    cases e with
    | conj es => exact .inr ⟨_, rfl, _, List.mem_map_of_mem hc, hr⟩
    | disj es => exact .inr ⟨_, rfl, _, List.mem_map_of_mem hc, hr⟩
    | _ => simp [kind] at hk

lemma exists_error_iff {e : Formula} :
    (∃ kind site, distributeOrOverAnd e = .error (.unexpectedKind kind site)) ↔ Refused e := by
  constructor
  · rintro ⟨kind, site, h⟩
    exact (Pass.fits .distribution).apply_error (P := fun e _ => Refused e)
      refused_of_plan_error refused_of_child h
  · intro h
    obtain ⟨f, hf⟩ := (Pass.fits .distribution).exists_apply_error Refused.step h
    rcases Pass.apply_cases .distribution e with ⟨r, hr⟩ | ⟨-, kind, site, herror⟩
    · cases hf.symm.trans hr
    · exact ⟨kind, site, herror⟩

/-! ### Where nothing is lost -/

lemma exists_mem_expand {e : Formula} (h : e.Every (· ≠ .conj [])) : ∃ c, c ∈ e.expand := by
  induction e with
  | conj es ih =>
    cases es with
    | nil => exact absurd rfl h.root
    | cons d ds =>
      have hd : d ∈ d :: ds := List.mem_cons_self
      obtain ⟨c, hc⟩ := ih d hd (h.operand hd)
      exact ⟨c, mem_expand_conj.2 ⟨d, hd, hc⟩⟩
  | disj es ih =>
    have hes : ∀ e ∈ es, ∃ c, c ∈ e.expand := fun e he => ih e he (h.operand he)
    rw [expand_disj]
    exact exists_mem_unions (by simpa using hes)
  | _ => exact ⟨_, Multiset.mem_singleton_self _⟩

lemma refused_disj_of_operand {es : List Formula} (hes : ∀ e ∈ es, ∃ c, c ∈ e.expand)
    {e : Formula} (he : e ∈ es) (h : Refused e) : Refused (.disj es) := by
  obtain ⟨c, hc, f, hf, hr⟩ := refused_iff_expand.1 h
  have hs : e.expand ∈ (es.map expand : Multiset (Multiset Clause)) :=
    Multiset.mem_coe.2 (List.mem_map_of_mem he)
  obtain ⟨u, hu, hle⟩ := exists_mem_unions_le (by simpa using hes) hs hc
  rw [← expand_disj] at hu
  exact .factor (.inr rfl) hu (Multiset.mem_of_le hle hf) hr

/-- Without empty conjunctions every implication and equivalence is left, and so it is under a
negation. -/
lemma refused_of_not_plain {e : Formula} (h : e.Every (· ≠ .conj [])) (hplain : ¬e.Plain) :
    Refused e ∧ Refused (.neg e) := by
  induction e with
  | const b => exact absurd (nnf_of_isLiteral rfl).plain hplain
  | var x => exact absurd (nnf_of_isLiteral rfl).plain hplain
  | neg e ih =>
    obtain ⟨c, hc, hcplain⟩ := exists_operand_not_plain (by simp [kind]) (by simp [kind]) hplain
    obtain rfl : c = e := List.mem_singleton.1 hc
    obtain ⟨hr, hneg⟩ := ih (h.operand hc) hcplain
    exact ⟨hneg, .negNeg hr⟩
  | conj es ih =>
    obtain ⟨c, hc, hcplain⟩ := exists_operand_not_plain (by simp [kind]) (by simp [kind]) hplain
    obtain ⟨hr, hneg⟩ := ih c hc (h.operand hc) hcplain
    exact ⟨refused_conj.2 ⟨c, hc, hr⟩, .negOperand (.inl rfl) hc hneg⟩
  | disj es ih =>
    obtain ⟨c, hc, hcplain⟩ := exists_operand_not_plain (by simp [kind]) (by simp [kind]) hplain
    obtain ⟨hr, hneg⟩ := ih c hc (h.operand hc) hcplain
    have hes : ∀ e ∈ es, ∃ c, c ∈ e.expand := fun e he => exists_mem_expand (h.operand he)
    exact ⟨refused_disj_of_operand hes hc hr, .negOperand (.inr rfl) hc hneg⟩
  | imp a b => exact ⟨.binary (.inl rfl), .negBinary (.inl rfl)⟩
  | iff a b => exact ⟨.binary (.inr rfl), .negBinary (.inr rfl)⟩

lemma Refused.not_plain {e : Formula} (h : Refused e) : ¬e.Plain := by
  intro hplain
  obtain ⟨kind, site, herror⟩ := exists_error_iff.2 h
  obtain ⟨r, hr, -⟩ := distribution_standsFor.total_of_plain negations_standsFor hplain
  cases herror.symm.trans hr

end Distribution

/-- **Distribution refuses what is left over.** It refuses a formula exactly if an implication or
equivalence is left when the formula is multiplied out. Nothing else is refused than formulas that
hold one, and all of them are if no conjunction in them is empty. -/
theorem distributeOrOverAnd_refuses (e : Formula) :
    ((∃ kind site, distributeOrOverAnd e = .error (.unexpectedKind kind site)) ↔
      Distribution.Refused e) ∧
    (Distribution.Refused e → ∃ f ∈ e.subformulas, f.kind = .imp ∨ f.kind = .iff) ∧
    (e.Every (· ≠ .conj []) →
      ((∃ kind site, distributeOrOverAnd e = .error (.unexpectedKind kind site)) ↔
        ∃ f ∈ e.subformulas, f.kind = .imp ∨ f.kind = .iff)) := by
  rw [Distribution.exists_error_iff, exists_binary_iff]
  refine ⟨.rfl, Distribution.Refused.not_plain, fun h => ⟨Distribution.Refused.not_plain, ?_⟩⟩
  exact fun hplain => (Distribution.refused_of_not_plain h hplain).1

/-- An implication under a negation, in a disjunction with two conjunctions. -/
theorem distributeOrOverAnd_refuses_nested :
    let e : Formula := .disj [.conj [.var "p", .var "q"],
      .conj [.disj [], .neg (.disj [.var "p", .imp (.var "q") (.var "p")])]]
    e.Every (· ≠ .conj []) ∧ (∃ f ∈ e.subformulas, f.kind = .imp ∨ f.kind = .iff) ∧
      ∃ kind site, distributeOrOverAnd e = .error (.unexpectedKind kind site) := by
  intro e
  have he : e.Every (· ≠ .conj []) := by decide +kernel
  have hholds : ∃ f ∈ e.subformulas, f.kind = .imp ∨ f.kind = .iff := by decide
  exact ⟨he, hholds, ((distributeOrOverAnd_refuses e).2.2 he).2 hholds⟩

/-- Beside an empty conjunction an implication is lost, and nothing is refused. -/
theorem distributeOrOverAnd_beside_empty_conj :
    let e : Formula := .disj [.conj [], .imp (.var "p") (.var "q")]
    distributeOrOverAnd e = .ok (.conj []) ∧
      ¬((∃ kind site, distributeOrOverAnd e = .error (.unexpectedKind kind site)) ↔
        ∃ f ∈ e.subformulas, f.kind = .imp ∨ f.kind = .iff) := by
  intro e
  have hr : distributeOrOverAnd e = .ok (.conj []) := by cbv
  refine ⟨hr, fun h => ?_⟩
  obtain ⟨kind, site, herror⟩ := h.2 (by decide)
  cases hr.symm.trans herror

end Clausal.NormalForm
