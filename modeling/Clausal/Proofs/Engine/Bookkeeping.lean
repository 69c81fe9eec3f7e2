import Clausal.Folds.Rendering
import Clausal.NormalForm.Conversion
import Clausal.Proofs.Engine.Refinement
import Clausal.Proofs.NormalForm.Equivalence
import Clausal.Semantics.Evaluation

/-!
The parts that the folds of the library put together.

A plan may build another node than the one it is asked about, so the number of parts on the buffer
is a matter of places that were taken down earlier. If every plan asks for as many children as its
node has operands, every node finds as many parts when its turn comes. **Main result**: so it is for
the three passes, for evaluation and for rendering; the passes put neither implications nor
equivalences together; and the only faults are those that a plan raises on purpose.
-/

namespace Clausal

namespace Engine

variable {α ε : Type} [Raises ε] {S : Scheme α ε} {K : Kind → Prop}

/-- Plans build nodes of the kinds `K` only, from as many children as these have operands, and from
that many parts they are put together. -/
structure Scheme.Fits (S : Scheme α ε) (K : Kind → Prop) : Prop where
  build : ∀ {e node cs}, S.plan e = .ok (.build node cs) →
    K node.kind ∧ cs.length = node.operands.length
  combine : ∀ {node : Formula} {parts : List α}, K node.kind →
    parts.length = node.operands.length → ∃ v, S.combine node.kind parts = .ok v

/-- With `n` results on the buffer, every node that waits on the stack is of a kind in `K` and will
find as many parts as it has operands; in the end there is one result. -/
def Fitted (K : Kind → Prop) : List Item → Nat → Prop
  | [], n => n = 1
  | .unroll _ :: rest, n => Fitted K rest (n + 1)
  | .process _ none :: _, _ => False
  | .process node (some start) :: rest, n =>
    K node.kind ∧ n = start + node.operands.length ∧ Fitted K rest (start + 1)

lemma fitted_unroll (cs : List Formula) (rest : List Item) (n : Nat) :
    Fitted K (cs.map .unroll ++ rest) n ↔ Fitted K rest (n + cs.length) := by
  induction cs generalizing n with
  | nil => rfl
  | cons c cs ih =>
    rw [List.map_cons, List.cons_append, Fitted, ih, List.length_cons,
      show n + 1 + cs.length = n + (cs.length + 1) by omega]

lemma Fitted.step (hS : S.Fits K) {s t : State α} (h : Fitted K s.stack s.buffer.size)
    (hs : step S.handlers s = .next t) : Fitted K t.stack t.buffer.size := by
  cases Scheme.moves_of_step hs with
  | value _ => simpa [Fitted] using h
  | build hp =>
    obtain ⟨hkind, hlength⟩ := hS.build hp
    rw [fitted_unroll, hlength]
    exact ⟨hkind, rfl, h⟩
  | replace _ => exact h
  | process _ =>
    obtain ⟨-, hsize, hrest⟩ := h
    rw [size_push_shrink (Nat.le.intro hsize.symm)]
    exact hrest

lemma Fitted.reaches (hS : S.Fits K) {s t : State α} (h : Fitted K s.stack s.buffer.size)
    (hs : Reaches S.handlers s t) : Fitted K t.stack t.buffer.size := by
  induction hs with
  | refl => exact h
  | tail _ hstep ih => exact ih.step hS hstep

lemma Fitted.parts {node : Formula} {start : Option Nat} {rest : List Item} {buffer : Array α}
    (h : Fitted K (.process node start :: rest) buffer.size) :
    K node.kind ∧
      ∃ i, start = some i ∧ (buffer.extract i).toList.length = node.operands.length := by
  cases start with
  | none => exact h.elim
  | some i =>
    obtain ⟨hkind, hsize, -⟩ := h
    refine ⟨hkind, i, rfl, ?_⟩
    rw [Array.length_toList, Array.size_extract]
    omega

/-- A fitted state that is not left has the one result, or a formula with no plan on its stack. -/
lemma Fitted.done (hS : S.Fits K) {s : State α} {r : Except ε α}
    (h : Fitted K s.stack s.buffer.size) (hs : Engine.step S.handlers s = .done r) :
    (∃ v, r = .ok v) ∨ ∃ e f, S.plan e = .error f ∧ r = .error f := by
  obtain ⟨stack, buffer⟩ := s
  rcases stack with _ | ⟨e | ⟨node, start⟩, rest⟩
  · obtain ⟨v, hv⟩ := List.length_eq_one_iff.1 (Array.length_toList.trans h)
    cases hs
    exact .inl ⟨v, by rw [finish, hv]⟩
  · rcases hp : S.plan e with f | ⟨v⟩ | ⟨node, cs⟩ | ⟨c⟩
    · cases (S.step_of_error rest buffer hp).symm.trans hs
      exact .inr ⟨e, f, hp, rfl⟩
    · cases (S.step_of_value rest buffer hp).symm.trans hs
    · cases (S.step_of_build rest buffer hp).symm.trans hs
    · cases (S.step_of_replace rest buffer hp).symm.trans hs
  · -- a node that is due is put together, so the run goes on
    obtain ⟨hkind, i, rfl, hlength⟩ := Fitted.parts h
    obtain ⟨v, hv⟩ := hS.combine hkind hlength
    simp only [Engine.step, Scheme.handlers, hv] at hs
    cases hs

lemma exists_reaches_done {H : Handlers α ε} {s : State α} (h : Halts H s) :
    ∃ t, Reaches H s t ∧ step H t = .done (run H s h) := by
  induction h with
  | intro s hs ih =>
    have h : Halts H s := ⟨s, hs⟩
    cases hstep : step H s with
    | next t =>
      obtain ⟨u, hu, hdone⟩ := ih t hstep
      exact ⟨u, hu.head hstep, by rw [run_of_next h hstep]; exact hdone⟩
    | done r => exact ⟨s, .refl, by rw [run_of_done h hstep, hstep]⟩

/-- What the engine does with the table of a fold, from the check of the table to the result. -/
structure Fold.Consistent (F : Fold α ε) (K : Kind → Prop) (e : Formula) : Prop where
  /-- The table is complete, and traversing the formula with it gives the value of the fold. -/
  traverse : ∃ fuel calls, F.handlers.table.traverse fuel e = some (calls, F.apply e)
  /-- A node that is due says where its parts begin, and there are as many as it has operands. -/
  parts : ∀ {s node start rest}, Reaches F.handlers (.start e) s →
    s.stack = .process node start :: rest →
    K node.kind ∧
      ∃ i, start = some i ∧ (s.buffer.extract i).toList.length = node.operands.length
  /-- Once the stack is empty, there is one result. -/
  final : ∀ {s}, Reaches F.handlers (.start e) s → s.stack = [] → s.buffer.size = 1

lemma Fold.Consistent.mono {F : Fold α ε} {K' : Kind → Prop} {e : Formula}
    (hK : ∀ k, K k → K' k) (h : F.Consistent K e) : F.Consistent K' e where
  traverse := h.traverse
  parts hs hstack := (h.parts hs hstack).imp_left (hK _)
  final := h.final

namespace Scheme.Fits

variable {F : Fold α ε} (hF : F.Fits K)
include hF

lemma fitted {e : Formula} {s : State α} (h : Reaches F.handlers (.start e) s) :
    Fitted K s.stack s.buffer.size := by
  have hstart : Fitted K (State.start (α := α) e).stack (State.start (α := α) e).buffer.size := rfl
  exact hstart.reaches hF h

lemma consistent (e : Formula) : F.Consistent K e where
  traverse := by
    refine (traverse_iff_runFor (table_follows F.toScheme).gap?_eq_none e (F.apply e)).2 ?_
    exact (run_eq_iff (F.halts _) _).1 rfl
  parts := by
    intro s node start rest hs hstack
    have hfit := hF.fitted hs
    rw [hstack] at hfit
    exact hfit.parts
  final := by
    intro s hs hstack
    have hfit := hF.fitted hs
    rwa [hstack] at hfit

lemma apply_cases (e : Formula) :
    (∃ v, F.apply e = .ok v) ∨ ∃ c f, F.plan c = .error f ∧ F.apply e = .error f := by
  obtain ⟨t, ht, hdone⟩ := exists_reaches_done (F.halts (.start e))
  exact (hF.fitted ht).done hF hdone

end Scheme.Fits

end Engine

/-! ### The folds of the library -/

open Engine NormalForm

/-- The kinds of formulas that have operands. -/
def Connective (k : Kind) : Prop := k ≠ .const ∧ k ≠ .var

lemma Engine.Plan.map_value_ne_build {α ε : Type} (r : Except ε α) (node : Formula)
    (cs : List Formula) : Plan.value <$> r ≠ .ok (.build node cs) := by
  intro h
  cases r <;> cases h

lemma Engine.Plan.atoms_eq_build {α ε : Type} {onConst : Bool → Except ε α}
    {onVar : String → Except ε α} {e node : Formula} {cs : List Formula}
    (h : Plan.atoms onConst onVar e = .ok (.build node cs)) :
    Connective node.kind ∧ cs.length = node.operands.length := by
  cases e with
  | const b => exact absurd h (map_value_ne_build (onConst b) node cs)
  | var x => exact absurd h (map_value_ne_build (onVar x) node cs)
  | _ =>
    cases h
    refine ⟨⟨?_, ?_⟩, rfl⟩ <;> intro hkind <;> cases hkind

/-- Every connective is put together, if one part is, or any number of parts, or two, as the kind
asks for. -/
lemma Engine.Scheme.exists_combine {α ε : Type} {S : Scheme α ε}
    (hneg : ∀ p, ∃ v, S.combine .neg [p] = .ok v)
    (hconj : ∀ ps, ∃ v, S.combine .conj ps = .ok v)
    (hdisj : ∀ ps, ∃ v, S.combine .disj ps = .ok v)
    (himp : ∀ p q, ∃ v, S.combine .imp [p, q] = .ok v)
    (hiff : ∀ p q, ∃ v, S.combine .iff [p, q] = .ok v)
    {node : Formula} {parts : List α} (hk : Connective node.kind)
    (h : parts.length = node.operands.length) : ∃ v, S.combine node.kind parts = .ok v := by
  cases node with
  | const b => exact absurd rfl hk.1
  | var x => exact absurd rfl hk.2
  | neg e =>
    obtain ⟨p, rfl⟩ := List.length_eq_one_iff.1 h
    exact hneg p
  | conj es => exact hconj parts
  | disj es => exact hdisj parts
  | imp a b =>
    obtain ⟨p, q, rfl⟩ := List.length_eq_two.1 h
    exact himp p q
  | iff a b =>
    obtain ⟨p, q, rfl⟩ := List.length_eq_two.1 h
    exact hiff p q

lemma Evaluation.fits (v : Valuation) : (Evaluation.fold v).Fits Connective where
  build := Plan.atoms_eq_build
  combine := by
    apply Scheme.exists_combine
    · exact fun _ => ⟨_, rfl⟩
    · exact fun _ => ⟨_, rfl⟩
    · exact fun _ => ⟨_, rfl⟩
    · -- the right part is read only if the left one is true
      intro p q
      cases p <;> exact ⟨_, rfl⟩
    · exact fun _ _ => ⟨_, rfl⟩

lemma Rendering.fits : Rendering.fold.Fits Connective where
  build := Plan.atoms_eq_build
  combine := Scheme.exists_combine (fun _ => ⟨_, rfl⟩) (fun _ => ⟨_, rfl⟩) (fun _ => ⟨_, rfl⟩)
    (fun _ _ => ⟨_, rfl⟩) (fun _ _ => ⟨_, rfl⟩)

namespace NormalForm

lemma negated_eq_build {e node : Formula} {cs : List Formula}
    (h : Negations.negated e = .ok (.build node cs)) :
    Rebuilt node.kind ∧ cs.length = node.operands.length := by
  cases e with
  | conj es => cases h; exact ⟨.inr (.inr rfl), rfl⟩
  | disj es => cases h; exact ⟨.inr (.inl rfl), rfl⟩
  | _ => cases h

/-- The plans of all passes build negations, conjunctions and disjunctions. -/
lemma Pass.plan_eq_build (p : Pass) {e node : Formula} {cs : List Formula}
    (h : p.fold.plan e = .ok (.build node cs)) :
    Rebuilt node.kind ∧ cs.length = node.operands.length := by
  cases p with
  | implications =>
    cases e with
    | const b => cases h
    | var x => cases h
    | neg e => cases h; exact ⟨.inl rfl, rfl⟩
    | conj es => cases h; exact ⟨.inr (.inl rfl), rfl⟩
    | disj es => cases h; exact ⟨.inr (.inr rfl), rfl⟩
    | imp a b => cases h; exact ⟨.inr (.inr rfl), rfl⟩
    | iff a b => cases h; exact ⟨.inr (.inl rfl), rfl⟩
  | negations =>
    cases e with
    | neg e => exact negated_eq_build h
    | conj es => cases h; exact ⟨.inr (.inl rfl), rfl⟩
    | disj es => cases h; exact ⟨.inr (.inr rfl), rfl⟩
    | _ => cases h
  | distribution =>
    cases e with
    | neg e => exact negated_eq_build h
    | conj es => cases h; exact ⟨.inr (.inl rfl), rfl⟩
    | disj es => cases h; exact ⟨.inr (Distribution.distribute_kind _), rfl⟩
    | _ => cases h

lemma Pass.combine_eq_rebuild (p : Pass) {k : Kind} (hk : Rebuilt k) :
    p.fold.combine k = Structural.rebuild k := by
  funext parts
  rcases hk with rfl | rfl | rfl <;> cases p <;> rfl

lemma Pass.fits (p : Pass) : p.fold.Fits Rebuilt where
  build := p.plan_eq_build
  combine := by
    intro node parts hk hlength
    obtain ⟨v, hv, -⟩ := exists_rebuild hk hlength.symm
    exact ⟨v, by rw [p.combine_eq_rebuild hk, hv]⟩

lemma negated_eq_error {e : Formula} {f : Fault} (h : Negations.negated e = .error f) :
    ∃ kind site, f = .unexpectedKind kind site := by
  cases e with
  | imp a b => cases h; exact ⟨_, _, rfl⟩
  | iff a b => cases h; exact ⟨_, _, rfl⟩
  | _ => cases h

/-- Eliminating implications has a plan for everything, and the other passes refuse by kind. -/
lemma Pass.plan_eq_error {p : Pass} {e : Formula} {f : Fault} (h : p.fold.plan e = .error f) :
    p ≠ .implications ∧ ∃ kind site, f = .unexpectedKind kind site := by
  cases p with
  | implications => cases e <;> cases h
  | negations | distribution =>
    refine ⟨nofun, ?_⟩
    cases e with
    | neg e => exact negated_eq_error h
    | imp a b => cases h; exact ⟨_, _, rfl⟩
    | iff a b => cases h; exact ⟨_, _, rfl⟩
    | _ => cases h

lemma Pass.apply_cases (p : Pass) (e : Formula) :
    (∃ r, p.apply e = .ok r) ∨
      p ≠ .implications ∧ ∃ kind site, p.apply e = .error (.unexpectedKind kind site) := by
  rw [p.apply_eq_fold]
  rcases p.fits.apply_cases e with hr | ⟨c, f, hc, hf⟩
  · exact .inl hr
  · obtain ⟨hp, kind, site, rfl⟩ := Pass.plan_eq_error hc
    exact .inr ⟨hp, kind, site, hf⟩

lemma Rebuilt.not_binary {k : Kind} (hk : Rebuilt k) : k ≠ .imp ∧ k ≠ .iff := by
  rcases hk with rfl | rfl | rfl <;> exact ⟨nofun, nofun⟩

end NormalForm

/-- Only a variable can have no plan for its value. -/
lemma Evaluation.plan_eq_error {v : Valuation} {e : Formula} {f : Fault}
    (h : (Evaluation.fold v).plan e = .error f) : ∃ x, f = .unassigned x := by
  cases e with
  | var x =>
    cases hx : v x <;>
      simp [Evaluation.fold, Plan.atoms, Evaluation.lookup, hx, Functor.map, Except.map] at h
    exact ⟨x, h.symm⟩
  | _ => cases h

/-- **No fold of the library fails by its own bookkeeping.** Whatever the formula and the values of
its variables, a node that is due finds as many parts as it has operands, the passes put neither
implications nor equivalences together, and one result is left. So eliminating implications and
rendering always return a value, the other passes can only refuse a kind, and evaluation can only
miss a variable. -/
theorem folds_consistent (e : Formula) (v : Valuation) :
    ((∀ p : Pass, p.fold.Consistent (fun k => k ≠ .imp ∧ k ≠ .iff) e) ∧
      (Evaluation.fold v).Consistent (fun _ => True) e ∧
      Rendering.fold.Consistent (fun _ => True) e) ∧
    (∃ r, eliminateImplications e = .ok r) ∧
    (∃ text, Rendering.fold.apply e = .ok text) ∧
    ((∃ r, pushNegations e = .ok r) ∨
      ∃ kind site, pushNegations e = .error (.unexpectedKind kind site)) ∧
    ((∃ r, distributeOrOverAnd e = .ok r) ∨
      ∃ kind site, distributeOrOverAnd e = .error (.unexpectedKind kind site)) ∧
    ((∃ b, e.evaluate v = .ok b) ∨ ∃ x, e.evaluate v = .error (.unassigned x)) := by
  refine ⟨⟨fun p => ?_, ?_, ?_⟩, ?_, ⟨_, Rendering.fold_apply e⟩, ?_, ?_, ?_⟩
  · exact (p.fits.consistent e).mono fun k hk => hk.not_binary
  · exact ((Evaluation.fits v).consistent e).mono fun _ _ => trivial
  · exact (Rendering.fits.consistent e).mono fun _ _ => trivial
  · rcases Pass.apply_cases .implications e with hr | ⟨hne, -⟩
    · exact hr
    · exact absurd rfl hne
  · exact (Pass.apply_cases .negations e).imp_right And.right
  · exact (Pass.apply_cases .distribution e).imp_right And.right
  · rcases (Evaluation.fits v).apply_cases e with hb | ⟨c, f, hc, hf⟩
    · exact .inl hb
    · obtain ⟨x, rfl⟩ := Evaluation.plan_eq_error hc
      exact .inr ⟨x, hf⟩

/-- By De Morgan's law a negated conjunction is put together as a disjunction, for which both parts
are there. -/
theorem folds_consistent_de_morgan :
    let e : Formula := .neg (.conj [.var "p", .var "q"])
    let node : Formula := .disj [.neg (.var "p"), .neg (.var "q")]
    ∃ s, Reaches Negations.fold.handlers (.start e) s ∧ s.stack = [.process node (some 0)] ∧
      ∃ i, some 0 = some i ∧ (s.buffer.extract i).toList.length = node.operands.length := by
  intro e node
  have hs : Reaches Negations.fold.handlers (.start e)
      ⟨[.process node (some 0)], #[.neg (.var "p"), .neg (.var "q")]⟩ :=
    .head rfl (.head rfl (.head rfl .refl))
  exact ⟨_, hs, rfl, (((folds_consistent e fun _ => none).1.1 .negations).parts hs rfl).2⟩

end Clausal
