import Clausal.Engine.Halting

/-!
Folds that say, formula by formula, what to do, and leave the bookkeeping to the engine.

A scheme plans each formula: it has a value already, it is built from the values of other
formulas, or it is replaced by another formula. A fold is a scheme that only ever descends to
lighter formulas. **Main result**: running a fold on the engine gives what recursion along its
plans gives, faults included.
-/

namespace Clausal.Engine

variable {α ε : Type}

inductive Plan (α : Type) where
  /-- The formula has this value. -/
  | value (v : α)
  /-- The value is assembled, under the kind of `node`, from the values of the children. -/
  | build (node : Formula) (children : List Formula)
  /-- The value is that of another formula. -/
  | replace (e : Formula)

namespace Plan

def node (e : Formula) : Plan α := .build e e.operands

def children : Plan α → List Formula
  | value _ => []
  | build _ cs => cs
  | replace e => [e]

def map {β : Type} (f : α → β) : Plan α → Plan β
  | value v => .value (f v)
  | build e cs => .build e cs
  | replace e => .replace e

/-- The plan as work for the engine, when the buffer has `start` results. -/
def outcome (start : Nat) : Plan α → Outcome α
  | value v => .leaf v
  | build e cs => .expand (.process e (some start) :: cs.reverse.map .unroll)
  | replace e => .expand [.unroll e]

/-- Values at the constants and variables, and every other formula from its own operands. -/
def atoms (onConst : Bool → Except ε α) (onVar : String → Except ε α) :
    Formula → Except ε (Plan α)
  | .const b => value <$> onConst b
  | .var x => value <$> onVar x
  | e => .ok (node e)

theorem mem_children_of_outcome {p : Plan α} {start : Nat} {items : List Item} {c : Formula}
    (h : p.outcome start = .expand items) (hc : .unroll c ∈ items) : c ∈ p.children := by
  cases p with
  | value v => simp [outcome] at h
  | build e cs => cases h; simpa [children] using hc
  | replace e => cases h; simpa [children] using hc

theorem atoms_descends {onConst : Bool → Except ε α} {onVar : String → Except ε α}
    {e c : Formula} {p : Plan α} (h : atoms onConst onVar e = .ok p) (hc : c ∈ p.children) :
    c.weight < e.weight := by
  cases e with
  | const b =>
    cases hb : onConst b <;> simp [atoms, hb, Functor.map, Except.map] at h
    subst h; simp [children] at hc
  | var x =>
    cases hx : onVar x <;> simp [atoms, hx, Functor.map, Except.map] at h
    subst h; simp [children] at hc
  | _ => cases h; exact Formula.weight_lt_of_mem_operands hc

end Plan

structure Scheme (α : Type) (ε : Type := Fault) where
  plan : Formula → Except ε (Plan α)
  combine : Kind → List α → Except ε α

def Scheme.handlers (S : Scheme α ε) : Handlers α ε where
  unroll e start := (S.plan e).map (Plan.outcome start)
  assemble := S.combine

/-! ### One step of a scheme -/

theorem size_append (buffer : Array α) (vs : List α) :
    (buffer ++ vs).size = buffer.size + vs.length := by
  rw [← Array.length_toList]
  simp

section Place

variable {buffer : Array α} {start : Nat} (h : buffer.size ≤ start) (vs : List α)
include h

theorem extract_append_of_le :
    ((buffer ++ vs).extract start).toList = vs.drop (start - buffer.size) := by
  have hbelow : buffer.toList.drop start = [] := List.drop_eq_nil_of_le h
  simp only [Array.toList_extract, Array.toList_appendList, List.extract_eq_take_drop,
    List.drop_append, Array.length_toList, hbelow, List.nil_append, size_append]
  apply List.take_of_length_le
  rw [List.length_drop]
  omega

/-- Going back to a place among the added values takes away nothing that was there before them. -/
theorem shrink_append_of_le :
    (buffer ++ vs).shrink start = buffer ++ vs.take (start - buffer.size) := by
  have hbelow : buffer.toList.take start = buffer.toList := List.take_of_length_le h
  apply Array.toList_inj.1
  simp [List.take_append, hbelow]

end Place

/-- The values added to a buffer are what lies behind its former end. -/
theorem extract_append (buffer : Array α) (vs : List α) :
    ((buffer ++ vs).extract buffer.size).toList = vs := by
  rw [extract_append_of_le (Nat.le_refl _), Nat.sub_self, List.drop_zero]

theorem shrink_append (buffer : Array α) (vs : List α) :
    (buffer ++ vs).shrink buffer.size = buffer := by
  rw [shrink_append_of_le (Nat.le_refl _), Nat.sub_self, List.take_zero]
  apply Array.toList_inj.1
  simp

namespace Scheme

variable [Raises ε] (S : Scheme α ε) {e : Formula} (rest : List Item) (buffer : Array α)

theorem step_of_error {f : ε} (h : S.plan e = .error f) :
    step S.handlers ⟨.unroll e :: rest, buffer⟩ = .done (.error f) := by
  simp [step, handlers, h, Except.map]

theorem step_of_value {v : α} (h : S.plan e = .ok (.value v)) :
    step S.handlers ⟨.unroll e :: rest, buffer⟩ = .next ⟨rest, buffer.push v⟩ := by
  simp [step, handlers, h, Except.map, Plan.outcome]

theorem step_of_build {node : Formula} {cs : List Formula}
    (h : S.plan e = .ok (.build node cs)) :
    step S.handlers ⟨.unroll e :: rest, buffer⟩ =
      .next ⟨cs.map .unroll ++ .process node (some buffer.size) :: rest, buffer⟩ := by
  simp [step, handlers, h, Except.map, Plan.outcome]

theorem step_of_replace {c : Formula} (h : S.plan e = .ok (.replace c)) :
    step S.handlers ⟨.unroll e :: rest, buffer⟩ = .next ⟨.unroll c :: rest, buffer⟩ := by
  simp [step, handlers, h, Except.map, Plan.outcome]

/-- What lies behind the place of a `process` item is what is put together. -/
theorem step_process (node : Formula) (vs : List α) :
    step S.handlers ⟨.process node (some buffer.size) :: rest, buffer ++ vs⟩ =
      match S.combine node.kind vs with
      | .ok v => .next ⟨rest, buffer.push v⟩
      | .error f => .done (.error f) := by
  cases hcombine : S.combine node.kind vs <;>
    simp only [step, handlers, extract_append, shrink_append, hcombine]

end Scheme

structure Fold (α : Type) (ε : Type := Fault) extends Scheme α ε where
  descends : ∀ {e p c}, plan e = .ok p → c ∈ p.children → c.weight < e.weight

namespace Fold

variable (F : Fold α ε)

theorem handlers_descends : F.handlers.Descends := by
  intro e start items h c hc
  cases hp : F.plan e with
  | error f => simp [Scheme.handlers, hp, Except.map] at h
  | ok p =>
    simp only [Scheme.handlers, hp, Except.map, Except.ok.injEq] at h
    exact F.descends hp (Plan.mem_children_of_outcome h hc)

theorem halts [Raises ε] (s : State α) : Halts F.handlers s := F.handlers_descends.halts s

def apply [Raises ε] (e : Formula) : Except ε α := run F.handlers (.start e) (F.halts _)

/-- The value of a formula, by recursion along the plans. -/
def eval (e : Formula) : Except ε α :=
  match h : F.plan e with
  | .error f => .error f
  | .ok (.value v) => .ok v
  | .ok (.build node cs) => do
    let vs ← cs.attach.mapM fun ⟨c, hc⟩ =>
      have : c.weight < e.weight := F.descends h hc
      eval c
    F.combine node.kind vs
  | .ok (.replace c) =>
    have : c.weight < e.weight := F.descends h (List.mem_singleton.2 rfl)
    eval c
termination_by e.weight

theorem mapM_ok {β γ ε : Type} {f : β → Except ε γ} {g : β → γ} {xs : List β}
    (h : ∀ x ∈ xs, f x = .ok (g x)) : xs.mapM f = .ok (xs.map g) := by
  induction xs with
  | nil => rfl
  | cons x xs ih =>
    rw [List.forall_mem_cons] at h
    rw [List.mapM_cons, h.1, ih h.2]
    rfl

theorem eval_of_error {e : Formula} {f : ε} (h : F.plan e = .error f) :
    F.eval e = .error f := by
  rw [eval]; split <;> simp_all

theorem eval_of_value {e : Formula} {v : α} (h : F.plan e = .ok (.value v)) :
    F.eval e = .ok v := by
  rw [eval]; split <;> simp_all

theorem eval_of_build {e node : Formula} {cs : List Formula} (h : F.plan e = .ok (.build node cs)) :
    F.eval e = (do F.combine node.kind (← cs.mapM F.eval)) := by
  rw [eval]
  split
  · next hp => cases h.symm.trans hp
  · next hp => cases h.symm.trans hp
  · next hp =>
    cases h.symm.trans hp
    rw [List.mapM_subtype (fun _ _ => rfl), List.unattach_attach]
  · next hp => cases h.symm.trans hp

theorem eval_of_replace {e c : Formula} (h : F.plan e = .ok (.replace c)) :
    F.eval e = F.eval c := by
  rw [eval]; split <;> simp_all

/-! ### The engine and the recursion -/

section Running

variable [Raises ε]

/-- What is left to do when a formula has been given its value. -/
def resume (rest : List Item) (buffer : Array α) : Except ε α → Except ε α
  | .ok v => run F.handlers ⟨rest, buffer.push v⟩ (F.halts _)
  | .error f => .error f

/-- What is left to do when several formulas have been given their values. -/
def resumeAll (rest : List Item) (buffer : Array α) : Except ε (List α) → Except ε α
  | .ok vs => run F.handlers ⟨rest, buffer ++ vs⟩ (F.halts _)
  | .error f => .error f

theorem run_children {cs : List Formula} {rest : List Item}
    (h : ∀ c ∈ cs, ∀ rest buffer, run F.handlers ⟨.unroll c :: rest, buffer⟩ (F.halts _) =
      F.resume rest buffer (F.eval c)) (buffer : Array α) :
    run F.handlers ⟨cs.map .unroll ++ rest, buffer⟩ (F.halts _) =
      F.resumeAll rest buffer (cs.mapM F.eval) := by
  induction cs generalizing buffer with
  | nil => simp [resumeAll, pure, Except.pure]
  | cons c cs ih =>
    rw [List.forall_mem_cons] at h
    simp only [List.map_cons, List.cons_append, h.1, List.mapM_cons]
    cases F.eval c with
    | error f => rfl
    | ok v =>
      simp only [resume, ih h.2]
      cases hvs : cs.mapM F.eval with
      | error f => simp [resumeAll, bind, Except.bind]
      | ok vs => simp [resumeAll, bind, Except.bind, pure, Except.pure]

theorem run_process (node : Formula) (vs : List α) (rest : List Item) (buffer : Array α) :
    run F.handlers ⟨.process node (some buffer.size) :: rest, buffer ++ vs⟩ (F.halts _) =
      F.resume rest buffer (F.combine node.kind vs) := by
  have hstep := F.step_process rest buffer node vs
  cases hv : F.combine node.kind vs with
  | ok v =>
    rw [hv] at hstep
    rw [run_of_next _ hstep]; rfl
  | error f =>
    rw [hv] at hstep
    rw [run_of_done _ hstep]; rfl

theorem run_unroll (e : Formula) (rest : List Item) (buffer : Array α) :
    run F.handlers ⟨.unroll e :: rest, buffer⟩ (F.halts _) = F.resume rest buffer (F.eval e) := by
  induction hn : e.weight using Nat.strongRecOn generalizing e rest buffer with
  | ind n ih =>
    subst hn
    cases hp : F.plan e with
    | error f => rw [run_of_done _ (F.step_of_error rest buffer hp), F.eval_of_error hp]; rfl
    | ok p =>
      cases p with
      | value v => rw [run_of_next _ (F.step_of_value rest buffer hp), F.eval_of_value hp]; rfl
      | build node cs =>
        have hcs : ∀ c ∈ cs, ∀ rest buffer,
            run F.handlers ⟨.unroll c :: rest, buffer⟩ (F.halts _) =
              F.resume rest buffer (F.eval c) :=
          fun c hc rest buffer => ih _ (F.descends hp hc) c rest buffer rfl
        rw [run_of_next _ (F.step_of_build rest buffer hp), F.run_children hcs, F.eval_of_build hp]
        cases cs.mapM F.eval with
        | error f => rfl
        | ok vs => exact F.run_process node vs rest buffer
      | replace c =>
        rw [run_of_next _ (F.step_of_replace rest buffer hp), F.eval_of_replace hp]
        exact ih _ (F.descends hp (List.mem_singleton.2 rfl)) c rest buffer rfl

/-- **The engine computes the recursive fold.** -/
theorem apply_eq_eval (e : Formula) : F.apply e = F.eval e := by
  rw [apply]
  simp only [State.start]
  rw [run_unroll]
  cases F.eval e with
  | error f => rfl
  | ok v => exact run_of_done _ (by simp [step, finish])

end Running

/-! ### Folds with values at the atoms -/

variable {F} {onConst : Bool → Except ε α} {onVar : String → Except ε α}

theorem eval_const (h : F.plan = Plan.atoms onConst onVar) (b : Bool) :
    F.eval (.const b) = onConst b := by
  cases hb : onConst b with
  | error f => exact F.eval_of_error (by rw [h, Plan.atoms, hb]; rfl)
  | ok v => exact F.eval_of_value (by rw [h, Plan.atoms, hb]; rfl)

theorem eval_var (h : F.plan = Plan.atoms onConst onVar) (x : String) :
    F.eval (.var x) = onVar x := by
  cases hx : onVar x with
  | error f => exact F.eval_of_error (by rw [h, Plan.atoms, hx]; rfl)
  | ok v => exact F.eval_of_value (by rw [h, Plan.atoms, hx]; rfl)

theorem eval_of_node {e : Formula} (h : F.plan e = .ok (Plan.node e)) :
    F.eval e = (do F.combine e.kind (← e.operands.mapM F.eval)) :=
  F.eval_of_build h

theorem eval_of_node_ok {e : Formula} {g : Formula → α} (h : F.plan e = .ok (Plan.node e))
    (hg : ∀ c ∈ e.operands, F.eval c = .ok (g c)) :
    F.eval e = F.combine e.kind (e.operands.map g) := by
  rw [eval_of_node h, mapM_ok hg]
  rfl

end Fold

end Clausal.Engine
