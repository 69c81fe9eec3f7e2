import Clausal.Proofs.NormalForm.Clauses
import Mathlib.Tactic.TFAE

/-!
Formulas that the conversion leaves as they are.

A fold returns a formula unchanged if it plans to put it, and everything below it, together from
its own operands. **Main results**: eliminating implications leaves plain formulas alone, pushing
negations leaves negation normal forms, distribution leaves conjunctive normal forms. These are
therefore the fixed points of the conversion, and what the test of the shape recognises.
-/

namespace Clausal

namespace Formula

/-! ### The language of conjunctive normal forms -/

inductive Literal : Formula → Prop
  | const (b : Bool) : Literal (.const b)
  | var (x : String) : Literal (.var x)
  | neg (x : String) : Literal (.neg (.var x))

inductive Cnf : Formula → Prop
  | literal {e : Formula} : Literal e → Cnf e
  | clause {es : List Formula} : (∀ e ∈ es, Literal e) → Cnf (.disj es)
  | conj {es : List Formula} : (∀ e ∈ es, Cnf e) → Cnf (.conj es)

lemma isLiteral_iff {e : Formula} : e.isLiteral = true ↔ Literal e := by
  constructor
  · intro h
    match e, h with
    | .const b, _ => exact .const b
    | .var x, _ => exact .var x
    | .neg (.var x), _ => exact .neg x
  · rintro (_ | _ | _) <;> rfl

lemma cnf_of_isCnf {e : Formula} (h : e.isCnf = true) : Cnf e := by
  induction e with
  | conj es ih =>
    rw [isCnf_conj, List.all_eq_true] at h
    exact .conj fun e he => ih e he (h e he)
  | disj es ih =>
    rw [isCnf_of_ne_conj (by simp [kind]), isClause, List.all_eq_true] at h
    exact .clause fun e he => isLiteral_iff.1 (h e he)
  | _ =>
    rw [isCnf_of_ne_conj (by simp [kind])] at h
    exact .literal (isLiteral_iff.1 h)

lemma Literal.kind_ne {e : Formula} (h : Literal e) : e.kind ≠ .conj ∧ e.kind ≠ .disj := by
  cases h <;> simp [kind]

lemma Literal.nnf {e : Formula} (h : Literal e) : e.Nnf := nnf_of_isLiteral (isLiteral_iff.2 h)

lemma Cnf.nnf {e : Formula} (h : Cnf e) : e.Nnf := by
  induction h with
  | literal h => exact h.nnf
  | clause h => exact nnf_of_operands (.inr rfl) fun e he => (h e he).nnf
  | conj _ ih => exact nnf_of_operands (.inl rfl) ih

lemma Nnf.plain {e : Formula} (h : e.Nnf) : e.Plain := h.mono fun _ hf => ⟨hf.1, hf.2.1⟩

end Formula

namespace NormalForm

open Engine Formula

/-! ### What the passes leave alone -/

/-- The fold plans to give the formula back, as it is or from its own operands. -/
def Returns (F : Fold Formula) (e : Formula) : Prop :=
  F.plan e = .ok (.value e) ∨ F.plan e = .ok (.node e) ∧ F.combine e.kind e.operands = .ok e

lemma eval_eq_self {F : Fold Formula} {D : Formula → Prop} (hD : ∀ e, D e → Returns F e)
    (hoperand : ∀ e, D e → ∀ c ∈ e.operands, D c) {e : Formula} (h : D e) : F.eval e = .ok e := by
  obtain ⟨v, hv, rfl⟩ : ∃ v, F.eval e = .ok v ∧ e = v := by
    refine Fold.eval_total (D := D) (fun e he => ?_) h
    rcases hD e he with hplan | ⟨hplan, hcombine⟩
    · exact ⟨_, hplan, rfl⟩
    · refine ⟨_, hplan, hoperand e he, fun vs hvs => ?_⟩
      rw [List.forall₂_eq_eq_eq] at hvs
      exact ⟨e, hvs ▸ hcombine, rfl⟩
  exact hv

lemma eliminateImplications_of_plain {e : Formula} (h : e.Plain) :
    eliminateImplications e = .ok e := by
  rw [eliminateImplications, Fold.apply_eq_eval]
  refine eval_eq_self (D := Plain) (fun e he => ?_) (fun e he c hc => he.operand hc) h
  cases e with
  | const b => exact .inl rfl
  | var x => exact .inl rfl
  | imp a b => exact absurd he (not_plain_imp a b)
  | iff a b => exact absurd he (not_plain_iff a b)
  | _ => exact .inr ⟨rfl, rfl⟩

lemma pushNegations_of_nnf {e : Formula} (h : e.Nnf) : pushNegations e = .ok e := by
  rw [pushNegations, Fold.apply_eq_eval]
  refine eval_eq_self (D := Nnf) (fun e he => ?_) (fun e he c hc => he.operand hc) h
  cases e with
  | const b => exact .inl rfl
  | var x => exact .inl rfl
  | neg e =>
    cases isLiteral_iff.1 (he.root.2.2 rfl)
    exact .inl rfl
  | imp a b => exact absurd he (not_nnf_imp a b)
  | iff a b => exact absurd he (not_nnf_iff a b)
  | _ => exact .inr ⟨rfl, rfl⟩

/-- A clause is spliced and distributed to itself. -/
lemma distribute_of_literals {es : List Formula} (h : ∀ e ∈ es, Literal e) :
    Distribution.distribute (flattenDisjuncts es) = .disj es := by
  rw [flattenDisjuncts_of_kind_ne fun e he => (h e he).kind_ne.2]
  rcases distribute_cases es with ⟨before, parts, after, rfl, -⟩ | ⟨-, hd⟩
  · exact absurd rfl (h (.conj parts) (by simp)).kind_ne.1
  · exact hd

lemma distributeOrOverAnd_of_cnf {e : Formula} (h : Cnf e) : distributeOrOverAnd e = .ok e := by
  rw [distributeOrOverAnd, Fold.apply_eq_eval]
  refine eval_eq_self (D := Cnf) (fun e he => ?_) (fun e he c hc => ?_) h
  · cases he with
    | literal h =>
      cases h <;> exact .inl rfl
    | clause h =>
      refine .inr ⟨?_, rfl⟩
      show Except.ok (Plan.node (Distribution.distribute _)) = _
      rw [distribute_of_literals h]
    | conj h => exact .inr ⟨rfl, rfl⟩
  · cases he with
    | literal h =>
      cases h with
      | neg x => rw [List.mem_singleton.1 hc]; exact .literal (.var x)
      | _ => cases hc
    | clause h => exact .literal (h c hc)
    | conj h => exact h c hc

lemma toCnf_of_cnf {e : Formula} (h : Cnf e) : toCnf e = .ok e :=
  calc toCnf e = eliminateImplications e >>= pushNegations >>= distributeOrOverAnd :=
        toCnf_eq_bind e
    _ = pushNegations e >>= distributeOrOverAnd := by
      rw [eliminateImplications_of_plain h.nnf.plain]; rfl
    _ = distributeOrOverAnd e := by rw [pushNegations_of_nnf h.nnf]; rfl
    _ = .ok e := distributeOrOverAnd_of_cnf h

/-! ### The fixed points of the conversion -/

/-- **The test, the language and the fixed points agree.** A formula passes the test of the shape
if and only if it is a conjunctive normal form, and if and only if the conversion returns it
unchanged. So a second conversion changes nothing. -/
theorem isCnf_tfae_cnf_toCnf (e : Formula) :
    [e.isCnf = true, Cnf e, toCnf e = .ok e].TFAE ∧
      ∃ c, toCnf e = .ok c ∧ toCnf c = .ok c := by
  obtain ⟨c, hc, hcnf, -⟩ := toCnf_standsFor e
  refine ⟨?_, c, hc, toCnf_of_cnf (cnf_of_isCnf hcnf)⟩
  tfae_have 1 → 2 := cnf_of_isCnf
  tfae_have 2 → 3 := toCnf_of_cnf
  tfae_have 3 → 1 := by
    intro h
    obtain rfl : e = c := Except.ok.inj (h.symm.trans hc)
    exact hcnf
  tfae_finish

end NormalForm

end Clausal
