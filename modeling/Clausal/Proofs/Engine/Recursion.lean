import Clausal.Engine.Fold
import Mathlib.Data.List.Forall2
import Mathlib.Tactic.Lemma

/-!
Recursion along the plans of a scheme, whether or not it comes to an end.

A scheme need not descend, so its recursion is a relation: the formula and what recursion makes of
it, a value or the first fault. **Main results**: for a fold the relation is the function `eval`,
and a rule for total correctness: if every plan keeps to a domain and a postcondition, `eval` has a
value that satisfies the postcondition.
-/

namespace Clausal.Engine

variable {α ε : Type}

mutual

/-- What recursion along the plans makes of a formula. -/
inductive Scheme.Folds (S : Scheme α ε) : Formula → Except ε α → Prop
  | fault {e f} : S.plan e = .error f → S.Folds e (.error f)
  | value {e v} : S.plan e = .ok (.value v) → S.Folds e (.ok v)
  | build {e node cs vs} : S.plan e = .ok (.build node cs) → S.FoldsAll cs (.ok vs) →
      S.Folds e (S.combine node.kind vs)
  | child {e node cs f} : S.plan e = .ok (.build node cs) → S.FoldsAll cs (.error f) →
      S.Folds e (.error f)
  | replace {e c r} : S.plan e = .ok (.replace c) → S.Folds c r → S.Folds e r

/-- The values of formulas taken from left to right, up to the first fault. -/
inductive Scheme.FoldsAll (S : Scheme α ε) : List Formula → Except ε (List α) → Prop
  | nil : S.FoldsAll [] (.ok [])
  | cons {c cs v vs} : S.Folds c (.ok v) → S.FoldsAll cs (.ok vs) →
      S.FoldsAll (c :: cs) (.ok (v :: vs))
  | head {c cs f} : S.Folds c (.error f) → S.FoldsAll (c :: cs) (.error f)
  | tail {c cs v f} : S.Folds c (.ok v) → S.FoldsAll cs (.error f) →
      S.FoldsAll (c :: cs) (.error f)

end

namespace Fold

variable (F : Fold α ε)

lemma foldsAll_mapM {cs : List Formula} (h : ∀ c ∈ cs, F.Folds c (F.eval c)) :
    F.FoldsAll cs (cs.mapM F.eval) := by
  induction cs with
  | nil => exact .nil
  | cons c cs ih =>
    rw [List.forall_mem_cons] at h
    obtain ⟨hc, hcs⟩ := h
    have ih := ih hcs
    rw [List.mapM_cons]
    cases hv : F.eval c with
    | error f => exact .head (hv ▸ hc)
    | ok v =>
      cases hvs : cs.mapM F.eval with
      | error f => exact .tail (hv ▸ hc) (hvs ▸ ih)
      | ok vs => exact .cons (hv ▸ hc) (hvs ▸ ih)

lemma folds_eval (e : Formula) : F.Folds e (F.eval e) := by
  induction hn : e.weight using Nat.strongRecOn generalizing e with
  | ind n ih =>
    subst hn
    rcases hp : F.plan e with f | ⟨v⟩ | ⟨node, cs⟩ | ⟨c⟩
    · rw [F.eval_of_error hp]
      exact .fault hp
    · rw [F.eval_of_value hp]
      exact .value hp
    · have hcs : F.FoldsAll cs (cs.mapM F.eval) :=
        F.foldsAll_mapM fun c hc => ih _ (F.descends hp hc) c rfl
      rw [F.eval_of_build hp]
      cases hvs : cs.mapM F.eval with
      | error f => exact .child hp (hvs ▸ hcs)
      | ok vs => exact .build hp (hvs ▸ hcs)
    · rw [F.eval_of_replace hp]
      exact .replace hp (ih _ (F.descends hp (List.mem_singleton.2 rfl)) c rfl)

end Fold

/-! ### Total correctness -/

/-- A plan for `e` keeps to the domain `D` and the postcondition `P`: what it asks for lies in the
domain, and values that satisfy the postcondition make up one that does. -/
def Plan.Keeps (combine : Kind → List α → Except ε α) (D : Formula → Prop)
    (P : Formula → α → Prop) (e : Formula) : Plan α → Prop
  | .value v => P e v
  | .build node cs => (∀ c ∈ cs, D c) ∧
      ∀ vs, List.Forall₂ P cs vs → ∃ v, combine node.kind vs = .ok v ∧ P e v
  | .replace c => D c ∧ ∀ v, P c v → P e v

namespace Fold

variable {F : Fold α ε} {D : Formula → Prop} {P : Formula → α → Prop}

lemma mapM_total {cs : List Formula} (h : ∀ c ∈ cs, ∃ v, F.eval c = .ok v ∧ P c v) :
    ∃ vs, cs.mapM F.eval = .ok vs ∧ List.Forall₂ P cs vs := by
  induction cs with
  | nil => exact ⟨[], rfl, .nil⟩
  | cons c cs ih =>
    rw [List.forall_mem_cons] at h
    obtain ⟨⟨v, hv, hP⟩, hcs⟩ := h
    obtain ⟨vs, hvs, hPs⟩ := ih hcs
    exact ⟨v :: vs, by rw [List.mapM_cons, hv, hvs]; rfl, .cons hP hPs⟩

/-- **Total correctness**: on a domain that all plans keep to, a fold returns a value with the
postcondition. -/
theorem eval_total (h : ∀ e, D e → ∃ p, F.plan e = .ok p ∧ p.Keeps F.combine D P e)
    {e : Formula} (he : D e) : ∃ v, F.eval e = .ok v ∧ P e v := by
  induction hn : e.weight using Nat.strongRecOn generalizing e with
  | ind n ih =>
    subst hn
    obtain ⟨p, hp, hkeeps⟩ := h e he
    cases p with
    | value v => exact ⟨v, F.eval_of_value hp, hkeeps⟩
    | build node cs =>
      obtain ⟨hD, hbuild⟩ := hkeeps
      have hcs : ∀ c ∈ cs, ∃ v, F.eval c = .ok v ∧ P c v :=
        fun c hc => ih _ (F.descends hp hc) (hD c hc) rfl
      obtain ⟨vs, hvs, hPs⟩ := mapM_total hcs
      obtain ⟨v, hv, hP⟩ := hbuild vs hPs
      exact ⟨v, by rw [F.eval_of_build hp, hvs]; exact hv, hP⟩
    | replace c =>
      obtain ⟨hD, hreplace⟩ := hkeeps
      obtain ⟨v, hv, hP⟩ := ih _ (F.descends hp (List.mem_singleton.2 rfl)) hD rfl
      exact ⟨v, by rw [F.eval_of_replace hp, hv], hreplace v hP⟩

end Fold

end Clausal.Engine
