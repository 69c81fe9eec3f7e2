import Clausal.Proofs.Engine.Bookkeeping

/-!
Where a fold fails.

A fold whose nodes can always be put together fails only at a formula for which it has no plan.
Values are computed from left to right, so it fails at the first such formula that it comes to.
**Main results**: a function that names, for every formula, the fault of its plan, or else the first
fault that it names among the children of the plan, names the fault of the fold
(`Scheme.Fits.apply_settles`); whatever holds of the faults of plans, and goes up from the children
of a plan, holds of the faults of the fold (`Scheme.Fits.apply_error`).
-/

namespace Clausal.Engine

variable {α ε : Type} {F : Fold α ε} {K : Kind → Prop} {fault? : Formula → Option ε}

/-- The fault of the plan, or else the first one that `fault?` names among its children. -/
def Fold.firstFault (F : Fold α ε) (fault? : Formula → Option ε) (e : Formula) : Option ε :=
  match F.plan e with
  | .error f => some f
  | .ok p => p.children.findSome? fault?

lemma Fold.firstFault_of_error {e : Formula} {f : ε} (h : F.plan e = .error f) :
    F.firstFault fault? e = some f := by
  simp only [firstFault, h]

lemma Fold.firstFault_of_ok {e : Formula} {p : Plan α} (h : F.plan e = .ok p) :
    F.firstFault fault? e = p.children.findSome? fault? := by
  simp only [firstFault, h]

/-- The result is the named fault, and a value if none is named. -/
def Settles (r : Except ε α) : Option ε → Prop
  | some f => r = .error f
  | none => ∃ v, r = .ok v

section Children

variable {cs : List Formula} (h : ∀ c ∈ cs, Settles (F.eval c) (fault? c))
include h

lemma mapM_of_findSome?_none (hnone : cs.findSome? fault? = none) :
    ∃ vs, cs.mapM F.eval = .ok vs ∧ vs.length = cs.length := by
  rw [List.findSome?_eq_none_iff] at hnone
  have hvalues : ∀ c ∈ cs, ∃ v, F.eval c = .ok v ∧ True := by
    intro c hc
    have hsettles := h c hc
    rw [hnone c hc] at hsettles
    obtain ⟨v, hv⟩ := hsettles
    exact ⟨v, hv, trivial⟩
  obtain ⟨vs, hvs, hlength⟩ := Fold.mapM_total (P := fun _ _ => True) hvalues
  exact ⟨vs, hvs, hlength.length_eq.symm⟩

/-- The children before the one with the first fault have values; those behind it are not looked
at. -/
lemma mapM_of_findSome?_some {f : ε} (hsome : cs.findSome? fault? = some f) :
    cs.mapM F.eval = .error f := by
  obtain ⟨before, c, after, rfl, hc, hbefore⟩ := List.findSome?_eq_some_iff.1 hsome
  rw [List.forall_mem_append, List.forall_mem_cons] at h
  obtain ⟨hvalues, hfault, -⟩ := h
  obtain ⟨vs, hvs, -⟩ := mapM_of_findSome?_none hvalues (List.findSome?_eq_none_iff.2 hbefore)
  have hc : F.eval c = .error f := by
    rw [hc] at hfault
    exact hfault
  rw [List.mapM_append, hvs, List.mapM_cons, hc]
  rfl

end Children

/-- One step: if the children of a plan settle as named, so does the formula it is for. -/
lemma Scheme.Fits.settles_firstFault (hF : F.Fits K) {e : Formula}
    (h : ∀ p, F.plan e = .ok p → ∀ c ∈ p.children, Settles (F.eval c) (fault? c)) :
    Settles (F.eval e) (F.firstFault fault? e) := by
  rcases hp : F.plan e with f | ⟨v⟩ | ⟨node, cs⟩ | ⟨c⟩
  · rw [Fold.firstFault_of_error hp]
    exact F.eval_of_error hp
  · rw [Fold.firstFault_of_ok hp]
    exact ⟨v, F.eval_of_value hp⟩
  · have hcs : ∀ c ∈ cs, Settles (F.eval c) (fault? c) := h _ hp
    obtain ⟨hkind, hlength⟩ := hF.build hp
    rw [Fold.firstFault_of_ok hp, F.eval_of_build hp, Plan.children]
    cases hfirst : cs.findSome? fault? with
    | some f =>
      rw [mapM_of_findSome?_some hcs hfirst]
      rfl
    | none =>
      -- all children have values, and there are as many as the node has operands
      obtain ⟨vs, hvs, hcount⟩ := mapM_of_findSome?_none hcs hfirst
      rw [hvs]
      exact hF.combine hkind (hcount.trans hlength)
  · have hc : Settles (F.eval c) (fault? c) := h _ hp c (List.mem_singleton.2 rfl)
    rw [Fold.firstFault_of_ok hp, F.eval_of_replace hp, Plan.children, List.findSome?_singleton]
    exact hc

lemma Scheme.Fits.eval_settles (hF : F.Fits K) (h : ∀ e, fault? e = F.firstFault fault? e)
    (e : Formula) : Settles (F.eval e) (fault? e) := by
  induction hn : e.weight using Nat.strongRecOn generalizing e with
  | ind n ih =>
    subst hn
    rw [h e]
    exact hF.settles_firstFault fun p hp c hc => ih _ (F.descends hp hc) c rfl

/-- **The first fault** that is named is the one that the fold raises, and where none is named the
fold has a value. -/
theorem Scheme.Fits.apply_settles [Raises ε] (hF : F.Fits K)
    (h : ∀ e, fault? e = F.firstFault fault? e) (e : Formula) : Settles (F.apply e) (fault? e) := by
  rw [F.apply_eq_eval]
  exact hF.eval_settles h e

/-! ### What a fault is due to -/

def Fold.raised? (F : Fold α ε) (e : Formula) : Option ε :=
  match F.eval e with
  | .error f => some f
  | .ok _ => none

lemma Fold.settles_iff {e : Formula} {o : Option ε} :
    Settles (F.eval e) o ↔ F.raised? e = o := by
  unfold Fold.raised?
  cases F.eval e <;> cases o <;> simp [Settles]

lemma Fold.raised?_eq_some_iff [Raises ε] {e : Formula} {f : ε} :
    F.raised? e = some f ↔ F.apply e = .error f := by
  rw [← settles_iff, F.apply_eq_eval]
  rfl

namespace Scheme.Fits

variable (hF : F.Fits K)
include hF

lemma raised?_eq_firstFault (e : Formula) : F.raised? e = F.firstFault F.raised? e :=
  Fold.settles_iff.1 (hF.settles_firstFault fun _ _ _ _ => Fold.settles_iff.2 rfl)

lemma raised?_cases {e : Formula} {f : ε} (h : F.raised? e = some f) :
    F.plan e = .error f ∨ ∃ p, F.plan e = .ok p ∧ ∃ c ∈ p.children, F.raised? c = some f := by
  rw [hF.raised?_eq_firstFault] at h
  cases hp : F.plan e with
  | error g =>
    rw [Fold.firstFault_of_error hp] at h
    cases h
    exact .inl rfl
  | ok p =>
    rw [Fold.firstFault_of_ok hp] at h
    exact .inr ⟨p, rfl, List.exists_of_findSome?_eq_some h⟩

/-- **What a fault is due to**: a property of formulas and faults that the faults of plans have,
and that goes up from the children of a plan, holds of every fault that the fold raises. -/
theorem apply_error [Raises ε] {P : Formula → ε → Prop}
    (hplan : ∀ {e f}, F.plan e = .error f → P e f)
    (hchild : ∀ {e p c f}, F.plan e = .ok p → c ∈ p.children → P c f → P e f) {e : Formula}
    {f : ε} (h : F.apply e = .error f) : P e f := by
  rw [← Fold.raised?_eq_some_iff] at h
  induction hn : e.weight using Nat.strongRecOn generalizing e with
  | ind n ih =>
    subst hn
    rcases hF.raised?_cases h with hp | ⟨p, hp, c, hc, hfault⟩
    · exact hplan hp
    · exact hchild hp hc (ih _ (F.descends hp hc) hfault rfl)

/-- **What leads to a fault**: a property of formulas that have no plan, or a child with the
property. -/
theorem exists_apply_error [Raises ε] {P : Formula → Prop}
    (h : ∀ {e}, P e →
      (∃ f, F.plan e = .error f) ∨ ∃ p, F.plan e = .ok p ∧ ∃ c ∈ p.children, P c)
    {e : Formula} (he : P e) : ∃ f, F.apply e = .error f := by
  suffices hsome : (F.raised? e).isSome by
    obtain ⟨f, hf⟩ := Option.isSome_iff_exists.1 hsome
    exact ⟨f, Fold.raised?_eq_some_iff.1 hf⟩
  induction hn : e.weight using Nat.strongRecOn generalizing e with
  | ind n ih =>
    subst hn
    rw [hF.raised?_eq_firstFault]
    rcases h he with ⟨f, hp⟩ | ⟨p, hp, c, hc, hPc⟩
    · rw [Fold.firstFault_of_error hp]
      rfl
    · rw [Fold.firstFault_of_ok hp, List.findSome?_isSome_iff]
      exact ⟨c, hc, ih _ (F.descends hp hc) hPc rfl⟩

end Scheme.Fits

end Clausal.Engine
