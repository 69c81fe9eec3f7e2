import Clausal.Engine.Table
import Clausal.NormalForm.Negations
import Clausal.Proofs.Engine.Recursion
import Mathlib.Logic.Relation

/-!
The engine against the recursion that it replaces.

While a formula is worked on, the rest of the stack and the buffer below are left alone: either the
one value of the formula is added to the buffer, or the run stops with the fault. Read forwards this
says that the engine does what the recursion does; read backwards, by induction on the number of
steps, that it does nothing else. **Main result**: a table whose handlers follow a scheme returns or
raises exactly what the recursion along the plans does, and the engine has no fault of its own.
-/

namespace Clausal.Engine

variable {α ε : Type} [Raises ε]

def Reaches (H : Handlers α ε) : State α → State α → Prop :=
  Relation.ReflTransGen fun s t => step H s = .next t

lemma Reaches.head {H : Handlers α ε} {s t u : State α} (hs : step H s = .next t)
    (ht : Reaches H t u) : Reaches H s u :=
  Relation.ReflTransGen.head hs ht

lemma runFor_of_reaches {H : Handlers α ε} {s t : State α} {r : Except ε α}
    (h : Reaches H s t) (ht : step H t = .done r) : ∃ fuel, runFor H fuel s = some r := by
  induction h using Relation.ReflTransGen.head_induction_on with
  | refl => exact ⟨1, by simp [runFor, ht]⟩
  | head hs _ ih =>
    obtain ⟨fuel, hfuel⟩ := ih
    exact ⟨fuel + 1, by simpa [runFor, hs] using hfuel⟩

/-! ### Forwards -/

lemma append_nil (buffer : Array α) : buffer ++ ([] : List α) = buffer :=
  Array.toList_inj.1 (by simp)

lemma append_append (buffer : Array α) (us vs : List α) :
    buffer ++ us ++ vs = buffer ++ (us ++ vs) :=
  Array.toList_inj.1 (by simp)

lemma push_eq_append (buffer : Array α) (v : α) : buffer.push v = buffer ++ [v] :=
  Array.toList_inj.1 (by simp)

/-- From `s` the engine comes to the rest of the stack with the values added to the buffer, or stops
with the fault. -/
def Yields (H : Handlers α ε) (s : State α) (rest : List Item) (buffer : Array α) :
    Except ε (List α) → Prop
  | .ok vs => Reaches H s ⟨rest, buffer ++ vs⟩
  | .error f => ∃ t, Reaches H s t ∧ step H t = .done (.error f)

lemma Yields.head {H : Handlers α ε} {s t : State α} {rest : List Item} {buffer : Array α}
    {r : Except ε (List α)} (hs : step H s = .next t) (ht : Yields H t rest buffer r) :
    Yields H s rest buffer r := by
  cases r with
  | ok vs => exact Reaches.head hs ht
  | error f =>
    obtain ⟨u, hu, hdone⟩ := ht
    exact ⟨u, .head hs hu, hdone⟩

lemma Yields.append {H : Handlers α ε} {s : State α} {mid rest : List Item} {buffer : Array α}
    {us : List α} {r : Except ε (List α)} (hs : Yields H s mid buffer (.ok us))
    (hr : Yields H ⟨mid, buffer ++ us⟩ rest (buffer ++ us) r) :
    Yields H s rest buffer (r.map (us ++ ·)) := by
  cases r with
  | ok vs =>
    have hvs : Reaches H ⟨mid, buffer ++ us⟩ ⟨rest, buffer ++ us ++ vs⟩ := hr
    rw [append_append] at hvs
    exact Relation.ReflTransGen.trans hs hvs
  | error f =>
    obtain ⟨t, ht, hdone⟩ := hr
    exact ⟨t, Relation.ReflTransGen.trans hs ht, hdone⟩

variable {S : Scheme α ε}

/-- Once the children have their values, they are put together in the place of one. -/
lemma Yields.process {s : State α} {rest : List Item} {buffer : Array α} {node : Formula}
    {vs : List α}
    (h : Yields S.handlers s (.process node (some buffer.size) :: rest) buffer (.ok vs)) :
    Yields S.handlers s rest buffer ((S.combine node.kind vs).map ([·])) := by
  have hstep := S.step_process rest buffer node vs
  cases hv : S.combine node.kind vs with
  | ok v =>
    simp only [hv] at hstep
    rw [push_eq_append] at hstep
    exact Relation.ReflTransGen.tail h hstep
  | error f =>
    simp only [hv] at hstep
    exact ⟨_, h, hstep⟩

/-- The engine gives a formula the value, or stops with the fault, that the recursion has. -/
theorem Scheme.Folds.yields {e : Formula} {r : Except ε α} (h : S.Folds e r) :
    ∀ rest buffer, Yields S.handlers ⟨.unroll e :: rest, buffer⟩ rest buffer (r.map ([·])) := by
  -- the induction goes through both relations: one for formulas, one for lists of children
  refine @Scheme.Folds.rec α ε S
    (fun e r _ => ∀ rest buffer,
      Yields S.handlers ⟨.unroll e :: rest, buffer⟩ rest buffer (r.map ([·])))
    (fun cs r _ => ∀ rest buffer,
      Yields S.handlers ⟨cs.map .unroll ++ rest, buffer⟩ rest buffer r)
    ?fault ?value ?build ?child ?replace ?nil ?cons ?head ?tail e r h
  case fault =>
    intro e f hp rest buffer
    exact ⟨_, .refl, S.step_of_error rest buffer hp⟩
  case value =>
    intro e v hp rest buffer
    have hstep := S.step_of_value rest buffer hp
    rw [push_eq_append] at hstep
    exact Relation.ReflTransGen.single hstep
  case build =>
    intro e node cs vs hp _ ih rest buffer
    exact ((ih _ buffer).process).head (S.step_of_build rest buffer hp)
  case child =>
    intro e node cs f hp _ ih rest buffer
    exact Yields.head (r := .error f) (S.step_of_build rest buffer hp) (ih _ buffer)
  case replace =>
    intro e c r hp _ ih rest buffer
    exact (ih rest buffer).head (S.step_of_replace rest buffer hp)
  case nil =>
    intro rest buffer
    rw [Yields, append_nil]
    exact .refl
  case cons =>
    intro c cs v vs _ _ ihc ihcs rest buffer
    exact (ihc _ buffer).append (ihcs rest _)
  case head =>
    intro c cs f _ ih rest buffer
    exact ih _ buffer
  case tail =>
    intro c cs v f _ _ ihc ihcs rest buffer
    exact (ihc _ buffer).append (ihcs rest _)

/-! ### Backwards -/

/-- A finished run that begins with a formula has stopped with its fault, or has gone on with its
value in fewer steps. -/
def ReadsBack (S : Scheme α ε) (fuel : Nat) : Prop :=
  ∀ e rest buffer r, runFor S.handlers fuel ⟨.unroll e :: rest, buffer⟩ = some r →
    (∃ f, S.Folds e (.error f) ∧ r = .error f) ∨
    ∃ v, S.Folds e (.ok v) ∧ ∃ n < fuel, runFor S.handlers n ⟨rest, buffer.push v⟩ = some r

lemma readsBack_children {fuel : Nat} (h : ∀ n ≤ fuel, ReadsBack S n) {cs : List Formula}
    {rest : List Item} {buffer : Array α} {r : Except ε α}
    (hr : runFor S.handlers fuel ⟨cs.map .unroll ++ rest, buffer⟩ = some r) :
    (∃ f, S.FoldsAll cs (.error f) ∧ r = .error f) ∨
    ∃ vs, S.FoldsAll cs (.ok vs) ∧
      ∃ n ≤ fuel, runFor S.handlers n ⟨rest, buffer ++ vs⟩ = some r := by
  induction cs generalizing fuel buffer with
  | nil => exact .inr ⟨[], .nil, fuel, Nat.le_refl _, by rw [append_nil]; exact hr⟩
  | cons c cs ih =>
    rcases h fuel (Nat.le_refl _) c _ buffer r hr with ⟨f, hc, rfl⟩ | ⟨v, hc, n, hn, hrest⟩
    · exact .inl ⟨f, .head hc, rfl⟩
    · rcases ih (fun m hm => h m (by omega)) hrest with ⟨f, hcs, rfl⟩ | ⟨vs, hcs, m, hm, hrest⟩
      · exact .inl ⟨f, .tail hc hcs, rfl⟩
      · rw [push_eq_append, append_append] at hrest
        exact .inr ⟨v :: vs, .cons hc hcs, m, by omega, hrest⟩

lemma readsBack (fuel : Nat) : ReadsBack S fuel := by
  induction fuel using Nat.strongRecOn with
  | ind fuel ih =>
    intro e rest buffer r hr
    cases fuel with
    | zero => simp [runFor] at hr
    | succ fuel =>
      rcases hp : S.plan e with f | ⟨v⟩ | ⟨node, cs⟩ | ⟨c⟩
      · have hf : .error f = r := by simpa [runFor, S.step_of_error rest buffer hp] using hr
        exact .inl ⟨f, .fault hp, hf.symm⟩
      · have hrest : runFor S.handlers fuel ⟨rest, buffer.push v⟩ = some r := by
          simpa only [runFor, S.step_of_value rest buffer hp] using hr
        exact .inr ⟨v, .value hp, fuel, by omega, hrest⟩
      · simp only [runFor, S.step_of_build rest buffer hp] at hr
        rcases readsBack_children (fun n hn => ih n (by omega)) hr with
          ⟨f, hcs, rfl⟩ | ⟨vs, hcs, n, hn, hrest⟩
        · exact .inl ⟨f, .child hp hcs, rfl⟩
        · -- the children have their values, and the next step puts them together
          have hbuild := Scheme.Folds.build hp hcs
          have hstep := S.step_process rest buffer node vs
          cases n with
          | zero => simp [runFor] at hrest
          | succ n =>
            cases hv : S.combine node.kind vs with
            | error f =>
              simp only [hv] at hstep
              have hf : .error f = r := by simpa [runFor, hstep] using hrest
              exact .inl ⟨f, hv ▸ hbuild, hf.symm⟩
            | ok v =>
              simp only [hv] at hstep
              simp only [runFor, hstep] at hrest
              exact .inr ⟨v, hv ▸ hbuild, n, by omega, hrest⟩
      · simp only [runFor, S.step_of_replace rest buffer hp] at hr
        rcases ih fuel (by omega) c rest buffer r hr with ⟨f, hc, rfl⟩ | ⟨v, hc, n, hn, hrest⟩
        · exact .inl ⟨f, .replace hp hc, rfl⟩
        · exact .inr ⟨v, .replace hp hc, n, by omega, hrest⟩

/-- **The engine refines the recursion**, for values and faults alike. -/
theorem runFor_start_iff (e : Formula) (r : Except ε α) :
    (∃ fuel, runFor S.handlers fuel (.start e) = some r) ↔ S.Folds e r := by
  constructor
  · rintro ⟨fuel, hr⟩
    rcases readsBack fuel e [] #[] r hr with ⟨f, he, rfl⟩ | ⟨v, he, n, -, hrest⟩
    · exact he
    · cases n with
      | zero => simp [runFor] at hrest
      | succ n =>
        have hv : .ok v = r := by simpa [runFor, step, finish] using hrest
        exact hv ▸ he
  · intro he
    have hyields := he.yields [] #[]
    cases r with
    | error f =>
      obtain ⟨t, ht, hdone⟩ := hyields
      exact runFor_of_reaches ht hdone
    | ok v => exact runFor_of_reaches hyields (by simp [step, finish])

/-! ### The bookkeeping of the engine -/

/-- What a step of a scheme can do: add the value of a formula, ask for its children, put another
formula in its place, or put the parts of a node together. -/
inductive Scheme.Moves (S : Scheme α ε) : State α → State α → Prop
  | value {e v rest buffer} : S.plan e = .ok (.value v) →
      S.Moves ⟨.unroll e :: rest, buffer⟩ ⟨rest, buffer.push v⟩
  | build {e node cs rest buffer} : S.plan e = .ok (.build node cs) →
      S.Moves ⟨.unroll e :: rest, buffer⟩
        ⟨cs.map .unroll ++ .process node (some buffer.size) :: rest, buffer⟩
  | replace {e c rest buffer} : S.plan e = .ok (.replace c) →
      S.Moves ⟨.unroll e :: rest, buffer⟩ ⟨.unroll c :: rest, buffer⟩
  | process {node start rest buffer v} :
      S.combine node.kind (buffer.extract start).toList = .ok v →
      S.Moves ⟨.process node (some start) :: rest, buffer⟩ ⟨rest, (buffer.shrink start).push v⟩

lemma Scheme.moves_of_step {s t : State α} (h : step S.handlers s = .next t) : S.Moves s t := by
  obtain ⟨stack, buffer⟩ := s
  rcases stack with _ | ⟨e | ⟨e, start⟩, rest⟩
  · cases Engine.moves_of_step h
  · rcases hp : S.plan e with f | ⟨v⟩ | ⟨node, cs⟩ | ⟨c⟩
    · simp [S.step_of_error rest buffer hp] at h
    · cases (S.step_of_value rest buffer hp).symm.trans h
      exact .value hp
    · cases (S.step_of_build rest buffer hp).symm.trans h
      exact .build hp
    · cases (S.step_of_replace rest buffer hp).symm.trans h
      exact .replace hp
  · cases Engine.moves_of_step h with
    | process hv => exact .process hv

/-- Every formula on the stack will add one value to a buffer of `n`, every `process` item leaves
one in the place of those above its start, and one value is there at the end. -/
def Balanced : List Item → Nat → Prop
  | [], n => n = 1
  | .unroll _ :: rest, n => Balanced rest (n + 1)
  | .process _ none :: _, _ => False
  | .process _ (some start) :: rest, n => start ≤ n ∧ Balanced rest (start + 1)

lemma balanced_unroll (cs : List Formula) (rest : List Item) (n : Nat) :
    Balanced (cs.map .unroll ++ rest) n ↔ Balanced rest (n + cs.length) := by
  induction cs generalizing n with
  | nil => rfl
  | cons c cs ih =>
    rw [List.map_cons, List.cons_append, Balanced, ih, List.length_cons,
      show n + 1 + cs.length = n + (cs.length + 1) by omega]

lemma size_push_shrink {buffer : Array α} {start : Nat} (h : start ≤ buffer.size) (v : α) :
    ((buffer.shrink start).push v).size = start + 1 := by
  rw [Array.size_push, Array.size_shrink]
  omega

lemma Balanced.step {s t : State α} (h : Balanced s.stack s.buffer.size)
    (hs : step S.handlers s = .next t) : Balanced t.stack t.buffer.size := by
  cases Scheme.moves_of_step hs with
  | value _ => simpa [Balanced] using h
  | build _ =>
    rw [balanced_unroll]
    exact ⟨Nat.le_add_right _ _, h⟩
  | replace _ => exact h
  | process _ =>
    obtain ⟨hstart, hrest⟩ := h
    rw [size_push_shrink hstart]
    exact hrest

lemma Balanced.reaches {s t : State α} (h : Balanced s.stack s.buffer.size)
    (hs : Reaches S.handlers s t) : Balanced t.stack t.buffer.size := by
  induction hs with
  | refl => exact h
  | tail _ hstep ih => exact ih.step hstep

/-- The engine itself fails here: an item does not say where its parts begin, or the work is done
and there is not exactly one result. -/
inductive State.Broken : State α → Prop
  | unplaced (e : Formula) (rest : List Item) (buffer : Array α) :
      Broken ⟨.process e none :: rest, buffer⟩
  | resultCount {buffer : Array α} (h : buffer.size ≠ 1) : Broken ⟨[], buffer⟩

lemma Balanced.not_broken {s : State α} (h : Balanced s.stack s.buffer.size) : ¬s.Broken := by
  rintro (⟨e, rest, buffer⟩ | hsize)
  · exact h
  · exact hsize h

/-! ### Tables that follow a scheme -/

/-- The table is complete; its unrolling handlers answer with the plans of the scheme, whatever the
size of the buffer, and its assembly handlers are those of the scheme. -/
structure Table.Follows (T : Table α ε) (S : Scheme α ε) : Prop where
  unroll : ∀ kind, ∃ h, T.unroll kind = some h ∧
    ∀ e start, e.kind = kind → h e start = (S.plan e).map (Plan.outcome start)
  assemble : ∀ kind, ∃ h, T.assemble kind = some h ∧ ∀ parts, h parts = S.combine kind parts

omit [Raises ε] in
lemma table_follows (S : Scheme α ε) : S.handlers.table.Follows S where
  unroll _ := ⟨_, rfl, fun _ _ _ => rfl⟩
  assemble _ := ⟨_, rfl, fun _ => rfl⟩

namespace Table.Follows

variable {T : Table α ε} (hT : T.Follows S)
include hT

lemma handlers_eq : T.handlers = S.handlers := by
  have hunroll : T.handlers.unroll = S.handlers.unroll := by
    funext e start
    obtain ⟨h, hh, hplan⟩ := hT.unroll e.kind
    simp only [Table.handlers, hh, Scheme.handlers, hplan e start rfl]
  have hassemble : T.handlers.assemble = S.handlers.assemble := by
    funext kind parts
    obtain ⟨h, hh, hcombine⟩ := hT.assemble kind
    simp only [Table.handlers, hh, Scheme.handlers, hcombine]
  exact congr (congrArg Handlers.mk hunroll) hassemble

omit [Raises ε] in
lemma gap?_eq_none : T.gap? = none := by
  refine Table.gap?_eq_none_iff.2 fun kind => ?_
  obtain ⟨h, hh, -⟩ := hT.unroll kind
  obtain ⟨g, hg, -⟩ := hT.assemble kind
  simp [hh, hg]

end Table.Follows

lemma traceFor_map_snd (H : Handlers α ε) (fuel : Nat) (s : State α) (calls : List Call) :
    (traceFor H fuel s calls).map Prod.snd = runFor H fuel s := by
  induction fuel generalizing s calls with
  | zero => rfl
  | succ fuel ih =>
    rw [traceFor, runFor]
    cases step H s with
    | next t => exact ih t _
    | done r => rfl

lemma traverse_eq_iff {T : Table α ε} (hT : T.gap? = none) (fuel : Nat) (e : Formula)
    (r : Except ε α) :
    (∃ calls, T.traverse fuel e = some (calls, r)) ↔
      runFor T.handlers fuel (.start e) = some r := by
  rw [← traceFor_map_snd T.handlers fuel (.start e) [], Table.traverse, hT]
  cases traceFor T.handlers fuel (.start e) [] with
  | none => simp
  | some p => simp

lemma traverse_iff_runFor {T : Table α ε} (hT : T.gap? = none) (e : Formula) (r : Except ε α) :
    (∃ fuel calls, T.traverse fuel e = some (calls, r)) ↔
      ∃ fuel, runFor T.handlers fuel (.start e) = some r :=
  exists_congr fun fuel => traverse_eq_iff hT fuel e r

/-- Taken apart and put together again, a formula is itself. -/
lemma structural_eval (e : Formula) : Structural.fold.eval e = .ok e := by
  have hnode : ∀ n : Formula, Structural.rebuild n.kind n.operands = .ok n →
      (Plan.node n).Keeps Structural.rebuild (fun _ => True) (fun e v => e = v) n := by
    refine fun n hn => ⟨fun _ _ => trivial, fun vs hvs => ⟨n, ?_, rfl⟩⟩
    rw [List.forall₂_eq_eq_eq] at hvs
    rw [← hvs, hn]
  obtain ⟨v, hv, rfl⟩ : ∃ v, Structural.fold.eval e = .ok v ∧ e = v := by
    refine Fold.eval_total (D := fun _ => True) (fun e _ => ?_) trivial
    cases e with
    | const b => exact ⟨_, rfl, rfl⟩
    | var x => exact ⟨_, rfl, rfl⟩
    | _ => exact ⟨_, rfl, hnode _ rfl⟩
  exact hv

/-- **Traversal refines the recursive fold.** A table that follows a scheme returns a value exactly
when the recursion has it, and raises exactly the fault of the recursion. The table passes the check
before the run, and no state of the run is one in which the engine itself fails. The structural
table returns the formula. -/
theorem traverse_iff_folds {T : Table α ε} (hT : T.Follows S) (e : Formula) :
    (∀ r, (∃ fuel calls, T.traverse fuel e = some (calls, r)) ↔ S.Folds e r) ∧
    T.gap? = none ∧ (∀ s, Reaches T.handlers (.start e) s → ¬s.Broken) ∧
    ∃ fuel calls, Structural.fold.handlers.table.traverse fuel e = some (calls, .ok e) := by
  refine ⟨fun r => ?_, hT.gap?_eq_none, fun s hs => ?_, ?_⟩
  · rw [traverse_iff_runFor hT.gap?_eq_none, hT.handlers_eq, runFor_start_iff]
  · rw [hT.handlers_eq] at hs
    have hstart : Balanced (.start e : State α).stack (.start e : State α).buffer.size := rfl
    exact (hstart.reaches hs).not_broken
  · have hfolds := Structural.fold.folds_eval e
    rw [structural_eval] at hfolds
    exact (traverse_iff_runFor (table_follows _).gap?_eq_none e _).2
      ((runFor_start_iff e _).2 hfolds)

/-- A double negation is left by replacement and a negated disjunction by other children; the
implication inside is the first thing that is refused. -/
theorem traverse_iff_folds_negations :
    NormalForm.Negations.fold.handlers.table.Follows NormalForm.Negations.fold.toScheme ∧
    ∃ fuel calls, NormalForm.Negations.fold.handlers.table.traverse fuel
        (.conj [.neg (.neg (.var "p")), .neg (.disj [.imp (.var "p") (.var "q")])]) =
      some (calls, .error (.unexpectedKind .imp "push_negations")) :=
  ⟨table_follows _, ((traverse_iff_folds (table_follows _) _).1 _).2
    (.child rfl (.tail (.replace rfl (.value rfl)) (.head (.child rfl (.head (.fault rfl))))))⟩

end Clausal.Engine
