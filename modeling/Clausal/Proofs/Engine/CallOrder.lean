import Clausal.Folds.Measure
import Clausal.Proofs.Engine.Bookkeeping
import Clausal.Proofs.Formula.Subformulas
import Mathlib.Algebra.Ring.Nat

/-!
The order in which the engine calls the handlers.

A table that expands every connective into its operands has the formula walked through as by
recursion: a formula is unrolled, its operands are worked off from left to right, and it is put
together from their values. While this goes on the buffer holds, for the formula and for each one
around it, the values of the operands further to the left; the size of the buffer is told to the
handler. **Main result**: these are the calls, in this order, and there are no others.
-/

namespace Clausal

/-! ### Addresses -/

namespace Formula

mutual

/-- The occurrences of subformulas in reading order, with their addresses. An address says how many
operands stand to the left of the formula, then how many to the left of the one that it is an
operand of, and so on up to the root. -/
def addressed (address : List Nat) : Formula → List (List Nat × Formula)
  | const b => [(address, const b)]
  | var x => [(address, var x)]
  | neg e => (address, neg e) :: addressed (0 :: address) e
  | conj es => (address, conj es) :: addressedFrom address 0 es
  | disj es => (address, disj es) :: addressedFrom address 0 es
  | imp a b => (address, imp a b) :: (addressed (0 :: address) a ++ addressed (1 :: address) b)
  | iff a b => (address, iff a b) :: (addressed (0 :: address) a ++ addressed (1 :: address) b)

def addressedFrom (address : List Nat) (i : Nat) : List Formula → List (List Nat × Formula)
  | [] => []
  | e :: es => addressed (i :: address) e ++ addressedFrom address (i + 1) es

end

lemma addressed_eq (address : List Nat) (e : Formula) :
    addressed address e = (address, e) :: addressedFrom address 0 e.operands := by
  cases e <;> simp [addressed, addressedFrom, operands]

lemma map_snd_addressedFrom {es : List Formula}
    (h : ∀ c ∈ es, ∀ address, (addressed address c).map Prod.snd = c.subformulas)
    (address : List Nat) (i : Nat) :
    (addressedFrom address i es).map Prod.snd = es.flatMap subformulas := by
  induction es generalizing i with
  | nil => rfl
  | cons e es ih =>
    rw [List.forall_mem_cons] at h
    rw [addressedFrom, List.map_append, h.1, ih h.2, List.flatMap_cons]

lemma map_snd_addressed (e : Formula) (address : List Nat) :
    (addressed address e).map Prod.snd = e.subformulas := by
  induction e using operands_induction generalizing address with
  | step e ih =>
    rw [addressed_eq, subformulas_eq, List.map_cons, map_snd_addressedFrom ih]

end Formula

namespace Engine

variable {α ε : Type} {H : Handlers α ε}

/-! ### Calls with their arguments -/

/-- A call of a handler. The formula that is put together is not told to the handler; the handler is
that of its kind. -/
inductive Visit (α : Type) where
  | unroll (e : Formula) (start : Nat)
  | assemble (e : Formula) (parts : List α)

namespace Visit

def call : Visit α → Call
  | unroll e start => .unroll e.kind start
  | assemble e parts => .assemble e.kind parts.length

def unrolled? : Visit α → Option (Formula × Nat)
  | unroll e start => some (e, start)
  | assemble _ _ => none

def assembled? : Visit α → Option (Formula × Nat)
  | unroll _ _ => none
  | assemble e parts => some (e, parts.length)

end Visit

def State.visit? : State α → Option (Visit α)
  | ⟨.unroll e :: _, buffer⟩ => some (.unroll e buffer.size)
  | ⟨.process e (some start) :: _, buffer⟩ => some (.assemble e (buffer.extract start).toList)
  | _ => none

lemma State.call?_of_visit? {s : State α} {w : Visit α} (h : s.visit? = some w) :
    s.call? = some w.call := by
  obtain ⟨stack, buffer⟩ := s
  rcases stack with _ | ⟨e | ⟨e, _ | start⟩, rest⟩ <;> cases h
  · rfl
  · simp [call?, Visit.call]

section Calls

variable [Raises ε]

/-- From the one state the engine comes to the other, with these calls on the way. -/
inductive Makes (H : Handlers α ε) : State α → List (Visit α) → State α → Prop
  | refl (s : State α) : Makes H s [] s
  | head {s t u : State α} {w : Visit α} {ws : List (Visit α)} : s.visit? = some w →
      step H s = .next t → Makes H t ws u → Makes H s (w :: ws) u

namespace Makes

variable {s t u : State α} {ws us : List (Visit α)}

lemma append (hs : Makes H s ws t) (ht : Makes H t us u) : Makes H s (ws ++ us) u := by
  induction hs with
  | refl s => exact ht
  | head hvisit hstep _ ih => exact .head hvisit hstep (ih ht)

lemma reaches (h : Makes H s ws t) : Reaches H s t := by
  induction h with
  | refl s => exact .refl
  | head _ hstep _ ih => exact .head hstep ih

lemma traceFor {buffer : Array α} (h : Makes H s ws ⟨[], buffer⟩) (calls : List Call) :
    traceFor H (ws.length + 1) s calls =
      some ((ws.map Visit.call).reverse ++ calls, finish buffer) := by
  generalize ht : (⟨[], buffer⟩ : State α) = t at h
  induction h generalizing calls with
  | refl s => subst ht; rfl
  | @head s t u w ws hvisit hstep _ ih =>
    rw [List.length_cons, Engine.traceFor, hstep]
    dsimp only
    rw [ih _ ht, State.call?_of_visit? hvisit]
    simp

end Makes

end Calls

/-! ### The tour of a formula -/

mutual

/-- The calls for the formula at an address, and the value that they have in the end. A leaf is
unrolled. A connective is unrolled, then come the calls for its operands, then it is put together
from their values. At every unrolling the sum of the address is told. -/
inductive Tour (H : Handlers α ε) : List Nat → Formula → α → List (Visit α) → Prop
  | leaf {address e v} : ¬Connective e.kind → H.unroll e address.sum = .ok (.leaf v) →
      Tour H address e v [.unroll e address.sum]
  | node {address e vs v ws} : Connective e.kind → Tours H address 0 e.operands vs ws →
      H.assemble e.kind vs = .ok v →
      Tour H address e v (.unroll e address.sum :: (ws ++ [.assemble e vs]))

/-- The calls for operands, from the `i`-th on, and their values. -/
inductive Tours (H : Handlers α ε) : List Nat → Nat → List Formula → List α → List (Visit α) → Prop
  | nil {address i} : Tours H address i [] [] []
  | cons {address i c cs v vs us ws} : Tour H (i :: address) c v us →
      Tours H address (i + 1) cs vs ws → Tours H address i (c :: cs) (v :: vs) (us ++ ws)

end

lemma atom_of_not_connective {e : Formula} (h : ¬Connective e.kind) :
    (∃ b, e = .const b) ∨ ∃ x, e = .var x := by
  cases e with
  | const b => exact .inl ⟨b, rfl⟩
  | var x => exact .inr ⟨x, rfl⟩
  | _ => refine absurd ⟨?_, ?_⟩ h <;> intro hkind <;> cases hkind

lemma operands_of_not_connective {e : Formula} (h : ¬Connective e.kind) : e.operands = [] := by
  obtain ⟨b, rfl⟩ | ⟨x, rfl⟩ := atom_of_not_connective h <;> rfl

lemma Tour.unrolled {address : List Nat} {e : Formula} {v : α} {ws : List (Visit α)}
    (h : Tour H address e v ws) :
    ws.filterMap Visit.unrolled? = (e.addressed address).map fun p => (p.2, p.1.sum) := by
  refine @Tour.rec α ε H
    (fun address e _ ws _ =>
      ws.filterMap Visit.unrolled? = (e.addressed address).map fun p => (p.2, p.1.sum))
    (fun address i cs _ ws _ =>
      ws.filterMap Visit.unrolled? =
        (Formula.addressedFrom address i cs).map fun p => (p.2, p.1.sum))
    ?leaf ?node ?nil ?cons address e v ws h
  case leaf =>
    intro address e v hkind _
    rw [Formula.addressed_eq, operands_of_not_connective hkind]
    rfl
  case node =>
    intro address e vs v ws _ _ _ ih
    rw [Formula.addressed_eq, List.map_cons, ← ih]
    simp [Visit.unrolled?]
  case nil =>
    intro address i
    rfl
  case cons =>
    intro address i c cs v vs us ws _ _ ihc ihcs
    rw [List.filterMap_append, ihc, ihcs, Formula.addressedFrom, List.map_append]

lemma Tours.length_eq {address : List Nat} {i : Nat} {cs : List Formula} {vs : List α}
    {ws : List (Visit α)} (h : Tours H address i cs vs ws) : vs.length = cs.length := by
  induction cs generalizing i vs ws with
  | nil => cases h; rfl
  | cons c cs ih =>
    cases h with
    | cons _ hcs => rw [List.length_cons, List.length_cons, ih hcs]

instance : DecidablePred Connective := fun _ => inferInstanceAs (Decidable (_ ∧ _))

lemma Tour.assembled {address : List Nat} {e : Formula} {v : α} {ws : List (Visit α)}
    (h : Tour H address e v ws) :
    (ws.filterMap Visit.assembled?).Perm
      ((e.subformulas.filter fun f => Connective f.kind).map fun f => (f, f.operands.length)) := by
  refine @Tour.rec α ε H
    (fun _ e _ ws _ => (ws.filterMap Visit.assembled?).Perm
      ((e.subformulas.filter fun f => Connective f.kind).map fun f => (f, f.operands.length)))
    (fun _ _ cs _ ws _ => (ws.filterMap Visit.assembled?).Perm
      (((cs.flatMap Formula.subformulas).filter fun f => Connective f.kind).map
        fun f => (f, f.operands.length)))
    ?leaf ?node ?nil ?cons address e v ws h
  case leaf =>
    intro address e v hkind _
    rw [Formula.subformulas_eq, operands_of_not_connective hkind]
    simp [Visit.assembled?, hkind]
  case node =>
    intro address e vs v ws hkind htours _ ih
    have hlast : (Visit.unroll e address.sum :: (ws ++ [.assemble e vs])).filterMap
        Visit.assembled? = ws.filterMap Visit.assembled? ++ [(e, e.operands.length)] := by
      rw [List.filterMap_cons_none rfl, List.filterMap_append, ← htours.length_eq]
      rfl
    rw [hlast, Formula.subformulas_eq, List.filter_cons_of_pos (by simpa using hkind),
      List.map_cons]
    exact (List.perm_append_singleton _ _).trans (ih.cons _)
  case nil =>
    intro address i
    exact .nil
  case cons =>
    intro address i c cs v vs us ws _ _ ihc ihcs
    rw [List.filterMap_append, List.flatMap_cons, List.filter_append, List.map_append]
    exact ihc.append ihcs

/-! ### Structural tables -/

variable [Raises ε]

/-- A complete table that has leaves for constants and variables, and expands every other formula
into its operands. -/
structure Table.Structural (T : Table α ε) : Prop where
  complete : T.gap? = none
  leaf : ∀ e start, ¬Connective e.kind → ∃ v, T.handlers.unroll e start = .ok (.leaf v)
  expand : ∀ e start, Connective e.kind → T.handlers.unroll e start = Unroller.structural e start

/-- No handler that is called to put a node together raises a fault. -/
def Assembling (H : Handlers α ε) (s : State α) : Prop :=
  ∀ t node start rest, Reaches H s t → t.stack = .process node (some start) :: rest →
    ∃ v, H.assemble node.kind (t.buffer.extract start).toList = .ok v

lemma Assembling.reaches {s t : State α} (h : Assembling H s) (hs : Reaches H s t) :
    Assembling H t :=
  fun u node start rest hu => h u node start rest (hs.trans hu)

/-! ### The run -/

/-- From where the formula at an address is on top of the stack, its tour is made, whatever lies
below. -/
def Toured (H : Handlers α ε) (e : Formula) : Prop :=
  ∀ address rest (buffer : Array α), buffer.size = address.sum →
    Assembling H ⟨.unroll e :: rest, buffer⟩ →
    ∃ v ws, Tour H address e v ws ∧
      Makes H ⟨.unroll e :: rest, buffer⟩ ws ⟨rest, buffer.push v⟩

/-- Operands are toured from left to right; each finds the values of those before it added to the
buffer. -/
lemma exists_tours {cs : List Formula} (hcs : ∀ c ∈ cs, Toured H c) {address : List Nat} {i : Nat}
    {rest : List Item} {buffer : Array α} (hsize : buffer.size = address.sum + i)
    (h : Assembling H ⟨cs.map .unroll ++ rest, buffer⟩) :
    ∃ vs ws, Tours H address i cs vs ws ∧
      Makes H ⟨cs.map .unroll ++ rest, buffer⟩ ws ⟨rest, buffer ++ vs⟩ := by
  induction cs generalizing i buffer with
  | nil => exact ⟨[], [], .nil, by rw [append_nil]; exact .refl _⟩
  | cons c cs ih =>
    rw [List.forall_mem_cons] at hcs
    have haddress : buffer.size = (i :: address).sum := by
      rw [hsize, List.sum_cons, Nat.add_comm]
    obtain ⟨v, us, hc, hus⟩ := hcs.1 (i :: address) _ buffer haddress h
    have hpush : (buffer.push v).size = address.sum + (i + 1) := by
      rw [Array.size_push, hsize, Nat.add_assoc]
    obtain ⟨vs, ws, htours, hws⟩ := ih hcs.2 hpush (h.reaches hus.reaches)
    have hvalues : buffer.push v ++ vs = buffer ++ (v :: vs) := by
      rw [push_eq_append, append_append, List.singleton_append]
    rw [hvalues] at hws
    exact ⟨v :: vs, us ++ ws, .cons hc htours, hus.append hws⟩

namespace Table.Structural

variable {T : Table α ε} (hT : T.Structural)
include hT

/-- A connective leaves its operands on the stack, and below them the place of their values. -/
lemma step_expand {e : Formula} (he : Connective e.kind) (rest : List Item) (buffer : Array α) :
    step T.handlers ⟨.unroll e :: rest, buffer⟩ =
      .next ⟨e.operands.map .unroll ++ .process e (some buffer.size) :: rest, buffer⟩ := by
  simp [step, hT.expand e buffer.size he, Unroller.structural, Unroller.around]

lemma toured (e : Formula) : Toured T.handlers e := by
  induction e using Formula.operands_induction with
  | step e ih =>
    intro address rest buffer hsize h
    have hunroll : State.visit? ⟨.unroll e :: rest, buffer⟩ = some (.unroll e address.sum) := by
      rw [State.visit?, hsize]
    by_cases hkind : Connective e.kind
    · have hstep := hT.step_expand hkind rest buffer
      obtain ⟨vs, ws, htours, hws⟩ := exists_tours ih (i := 0) hsize (h.reaches (.head hstep .refl))
      -- the operands have their values, and the node is due
      have hparts := extract_append buffer vs
      obtain ⟨v, hv⟩ := h _ e buffer.size rest (.head hstep hws.reaches) rfl
      rw [hparts] at hv
      have hassemble : State.visit? ⟨.process e (some buffer.size) :: rest, buffer ++ vs⟩ =
          some (.assemble e vs) := by
        rw [State.visit?, hparts]
      have hprocess : step T.handlers ⟨.process e (some buffer.size) :: rest, buffer ++ vs⟩ =
          .next ⟨rest, buffer.push v⟩ := by
        simp only [step, hparts, hv, shrink_append]
      exact ⟨v, _, .node hkind htours hv,
        .head hunroll hstep (hws.append (.head hassemble hprocess (.refl _)))⟩
    · obtain ⟨v, hv⟩ := hT.leaf e address.sum hkind
      have hstep : step T.handlers ⟨.unroll e :: rest, buffer⟩ = .next ⟨rest, buffer.push v⟩ := by
        simp only [step, hsize, hv]
      exact ⟨v, _, .leaf hkind hv, .head hunroll hstep (.refl _)⟩

end Table.Structural

/-- **The handlers are called along the formula.** With a structural table and as long as no
handler refuses to put a node together, the calls are those of the tour of the formula, and the
traversal returns its value. So every occurrence of a subformula is unrolled once, in reading order,
the handler being told the sum of the address, and every occurrence of a connective is put together
once, from one part for each operand. -/
theorem traverse_tour {T : Table α ε} (hT : T.Structural) {e : Formula}
    (he : Assembling T.handlers (.start e)) :
    ∃ v ws, Tour T.handlers [] e v ws ∧ Makes T.handlers (.start e) ws ⟨[], #[v]⟩ ∧
      T.traverse (ws.length + 1) e = some (ws.map Visit.call, .ok v) ∧
      (ws.filterMap Visit.unrolled? = (e.addressed []).map (fun p => (p.2, p.1.sum)) ∧
        (e.addressed []).map Prod.snd = e.subformulas) ∧
      (ws.filterMap Visit.assembled?).Perm
        ((e.subformulas.filter fun f => Connective f.kind).map
          fun f => (f, f.operands.length)) := by
  obtain ⟨v, ws, htour, hws⟩ := hT.toured e [] [] #[] rfl he
  refine ⟨v, ws, htour, hws, ?_, ⟨htour.unrolled, e.map_snd_addressed []⟩, htour.assembled⟩
  rw [Table.traverse, hT.complete]
  simp [State.start, hws.traceFor, finish]

/-- Folds that have a value at every atom and build all else from its operands have structural
tables. -/
lemma Scheme.structural_table {S : Scheme α ε} {onConst : Bool → α} {onVar : String → α}
    (h : S.plan = Plan.atoms (fun b => .ok (onConst b)) (fun x => .ok (onVar x))) :
    S.handlers.table.Structural where
  complete := (table_follows S).gap?_eq_none
  leaf e start hkind := by
    rw [(table_follows S).handlers_eq, Scheme.handlers, h]
    obtain ⟨b, rfl⟩ | ⟨x, rfl⟩ := atom_of_not_connective hkind
    · exact ⟨onConst b, rfl⟩
    · exact ⟨onVar x, rfl⟩
  expand e start hkind := by
    rw [(table_follows S).handlers_eq, Scheme.handlers, h]
    cases e with
    | const b => exact absurd rfl hkind.1
    | var x => exact absurd rfl hkind.2
    | _ => rfl

/-- An empty conjunction is put together at once, and its value shifts the places of what is to the
right of it, but not beyond the disjunction that it stands in. -/
theorem traverse_tour_empty_conj :
    let T := Measure.outline.handlers.table
    let e : Formula := .conj [.disj [.conj [], .var "p"], .neg (.var "q")]
    T.Structural ∧ Assembling T.handlers (.start e) ∧
    ∃ v ws, Tour T.handlers [] e v ws ∧ Makes T.handlers (.start e) ws ⟨[], #[v]⟩ ∧
      ws.filterMap Visit.unrolled? =
        [(e, 0), (.disj [.conj [], .var "p"], 0), (.conj [], 0), (.var "p", 1),
          (.neg (.var "q"), 1), (.var "q", 1)] := by
  intro T e
  have hT : T.Structural := Scheme.structural_table rfl
  have he : Assembling T.handlers (.start e) := fun _ _ _ _ _ _ => ⟨_, rfl⟩
  obtain ⟨v, ws, htour, hws, -, hunrolled, -⟩ := traverse_tour hT he
  exact ⟨hT, he, v, ws, htour, hws, hunrolled.1⟩

end Engine

end Clausal
