import Clausal.Folds.Rendering
import Clausal.Text.Parser
import Clausal.Proofs.Formula.Subformulas
import Clausal.Proofs.Text.Chunks

/-!
Reading a formula back from the chunks in which it is written.

A conjunction or disjunction of one operand is written as that operand in parentheses, so it
cannot be told from the operand; one of no operands is a pair of empty parentheses, which nothing
can be read from. **Main results**: if every conjunction and disjunction has an operand, the reader
makes of the chunks one operand, the formula without its wrappers (`denotes_chunks`); otherwise it
gets as far as the first empty parentheses (`stuck_chunks`).
-/

namespace Clausal

/-! ### Wrappers -/

namespace Formula

/-- One formula stands for itself. -/
def unwrap (connect : List Formula → Formula) : List Formula → Formula
  | [e] => e
  | es => connect es

lemma unwrap_of_length {connect : List Formula → Formula} {es : List Formula}
    (h : es.length ≠ 1) : unwrap connect es = connect es := by
  rcases es with _ | ⟨a, _ | ⟨b, es⟩⟩
  · rfl
  · exact absurd rfl h
  · rfl

mutual

/-- The formula with every conjunction or disjunction of one operand replaced by the operand. -/
def collapse : Formula → Formula
  | const b => const b
  | var x => var x
  | neg e => neg (collapse e)
  | conj es => unwrap conj (collapseAll es)
  | disj es => unwrap disj (collapseAll es)
  | imp a b => imp (collapse a) (collapse b)
  | iff a b => iff (collapse a) (collapse b)

def collapseAll : List Formula → List Formula
  | [] => []
  | e :: es => collapse e :: collapseAll es

end

lemma collapseAll_eq_map (es : List Formula) : collapseAll es = es.map collapse := by
  induction es with
  | nil => rfl
  | cons e es ih => rw [collapseAll, ih, List.map_cons]

lemma unwrap_collapseAll {connect : List Formula → Formula} {es : List Formula}
    (hlength : 2 ≤ es.length) (hes : ∀ c ∈ es, c.collapse = c) :
    unwrap connect (collapseAll es) = connect es := by
  rw [collapseAll_eq_map, List.map_congr_left hes, List.map_id', unwrap_of_length (by omega)]

lemma collapse_of_minArity {e : Formula} (h : e.MinArity 2) : e.collapse = e := by
  induction e with
  | const b => rfl
  | var x => rfl
  | neg e ih => rw [collapse, ih (h.operand List.mem_cons_self)]
  | conj es ih => exact unwrap_collapseAll (h.root (.inl rfl)) fun c hc => ih c hc (h.operand hc)
  | disj es ih => exact unwrap_collapseAll (h.root (.inr rfl)) fun c hc => ih c hc (h.operand hc)
  | imp a b iha ihb =>
    have hb : b ∈ (imp a b).operands := by simp [operands]
    rw [collapse, iha (h.operand List.mem_cons_self), ihb (h.operand hb)]
  | iff a b iha ihb =>
    have hb : b ∈ (iff a b).operands := by simp [operands]
    rw [collapse, iha (h.operand List.mem_cons_self), ihb (h.operand hb)]

end Formula

namespace Text

lemma chain_reverse (connect : List Formula → Formula) (es : List Formula) :
    chain connect es.reverse = Formula.unwrap connect es := by
  by_cases h : es.length = 1
  · obtain ⟨e, rfl⟩ := List.length_eq_one_iff.1 h
    rfl
  · rw [Formula.unwrap_of_length h, chain, List.reverse_reverse]
    rintro e he
    rw [← List.length_reverse, he] at h
    exact h rfl

/-! ### The chunks of a formula -/

inductive Link where
  | conj
  | disj
  | imp
  | iff

namespace Link

def terminal : Link → Terminal
  | conj => .conj
  | disj => .disj
  | imp => .imp
  | iff => .iff

def symbol : Link → Char
  | conj => '∧'
  | disj => '∨'
  | imp => '⇒'
  | iff => '⇔'

def between (l : Link) : List Chunk :=
  [.blank ' ', .token l.terminal [l.symbol], .blank ' ']

/-- The parts in parentheses, with the connective between them. -/
def group (l : Link) (parts : List (List Chunk)) : List Chunk :=
  .token .left ['('] :: (l.between.intercalate parts ++ [.token .right [')']])

/-- The frame of a level at which the operands were read, the newest first, each followed by the
connective. -/
def frame : Link → List Formula → Frame
  | conj, es => { conjuncts := es }
  | disj, es => { disjuncts := es }
  | imp, es => { antecedents := es }
  | iff, es => { left := es.head? }

end Link

mutual

def chunks : Formula → List Chunk
  | .const b => [.token (if b then .verum else .falsum) (Rendering.word b).toList]
  | .var x => [.token .ident x.toList]
  | .neg e => .token .neg ['¬'] :: chunks e
  | .conj es => Link.conj.group (chunksAll es)
  | .disj es => Link.disj.group (chunksAll es)
  | .imp a b => Link.imp.group [chunks a, chunks b]
  | .iff a b => Link.iff.group [chunks a, chunks b]

def chunksAll : List Formula → List (List Chunk)
  | [] => []
  | e :: es => chunks e :: chunksAll es

end

lemma chunksAll_eq_map (es : List Formula) : chunksAll es = es.map chunks := by
  induction es with
  | nil => rfl
  | cons e es ih => rw [chunksAll, ih, List.map_cons]

/-! ### Reading chunks -/

/-- The reader goes through the chunks without fault, wherever they stand. -/
def Reads (r : Reader) (cs : List Chunk) (r' : Reader) : Prop :=
  ∀ position, r.read (Chunk.tokensFrom position cs) = .ok r'

lemma Reads.append {r r₁ r₂ : Reader} {cs ds : List Chunk} (h₁ : Reads r cs r₁)
    (h₂ : Reads r₁ ds r₂) : Reads r (cs ++ ds) r₂ := by
  intro position
  rw [Chunk.tokensFrom_append, Reader.read_append, h₁]
  exact h₂ _

lemma Reads.cons {r r₁ r₂ : Reader} {t : Terminal} {s : List Char} {cs : List Chunk}
    (h₁ : ∀ position, r.step ⟨t, .ofList s, position⟩ = some r₁) (h₂ : Reads r₁ cs r₂) :
    Reads r (.token t s :: cs) r₂ := by
  intro position
  rw [Chunk.tokensFrom, Reader.read_cons, h₁]
  exact h₂ _

lemma Reads.token {r r' : Reader} {t : Terminal} {s : List Char}
    (h : ∀ position, r.step ⟨t, .ofList s, position⟩ = some r') : Reads r [.token t s] r' :=
  .cons h fun _ => rfl

/-- Wherever an operand can stand, the chunks are read as this one. -/
def Denotes (cs : List Chunk) (e : Formula) : Prop :=
  ∀ frame outer, Reads ⟨frame, outer, none⟩ cs (Reader.supply frame outer e)

lemma repeat_neg_neg (n : Nat) (e : Formula) :
    Nat.repeat Formula.neg n e.neg = (Nat.repeat Formula.neg n e).neg := by
  induction n with
  | zero => rfl
  | succ n ih => rw [Nat.repeat, ih, Nat.repeat]

lemma denotes_neg {cs : List Chunk} {e : Formula} (h : Denotes cs e) :
    Denotes (.token .neg ['¬'] :: cs) e.neg := by
  intro frame outer
  refine Reads.cons (fun _ => rfl) ?_
  have hsupply : Reader.supply frame outer e.neg =
      Reader.supply { frame with negations := frame.negations + 1 } outer e := by
    simp only [Reader.supply, repeat_neg_neg, Nat.repeat]
  rw [hsupply]
  exact h _ _

/-! ### Groups -/

namespace Link

variable {l : Link} {es : List Formula} {outer : List Frame}

/-- An equivalence has but one operand on the left. -/
lemma reads_between {acc : List Formula} (hiff : l = .iff → acc = []) (e : Formula) :
    Reads ⟨l.frame acc, outer, some e⟩ l.between ⟨l.frame (e :: acc), outer, none⟩ := by
  have hstep : ∀ position,
      Reader.step ⟨l.frame acc, outer, some e⟩ ⟨l.terminal, .ofList [l.symbol], position⟩ =
        some ⟨l.frame (e :: acc), outer, none⟩ := by
    intro position
    cases l with
    | iff =>
      obtain rfl := hiff rfl
      rfl
    | _ => rfl
  intro position
  exact (Reads.token hstep).append (fun _ => rfl : Reads _ [.blank ' '] _) (position + 1)

lemma supply_frame (acc : List Formula) (e : Formula) :
    Reader.supply (l.frame acc) outer e = ⟨l.frame acc, outer, some e⟩ := by
  cases l <;> rfl

lemma reads_operands (outer : List Frame) (acc : List Formula)
    (hes : ∀ e ∈ es, Denotes (chunks e) e.collapse)
    (hiff : l = .iff → acc.length + es.length ≤ 1) :
    Reads ⟨l.frame acc, outer, none⟩ (es.flatMap fun e => chunks e ++ l.between)
      ⟨l.frame ((es.map Formula.collapse).reverse ++ acc), outer, none⟩ := by
  induction es generalizing acc with
  | nil => exact fun _ => rfl
  | cons e es ih =>
    rw [List.forall_mem_cons] at hes
    rw [List.flatMap_cons, List.map_cons, List.reverse_cons, List.append_assoc _ [_],
      List.singleton_append]
    have hoperand := hes.1 (l.frame acc) outer
    rw [supply_frame] at hoperand
    have hlink : l = .iff → acc = [] := by
      intro hl
      have := hiff hl
      rw [List.length_cons] at this
      exact List.length_eq_zero_iff.1 (by omega)
    refine (hoperand.append (reads_between hlink e.collapse)).append (ih _ hes.2 ?_)
    intro hl
    have := hiff hl
    simp only [List.length_cons] at this ⊢
    omega

lemma intercalate_append (sep : List Chunk) (ps : List (List Chunk)) (q : List Chunk)
    (qs : List (List Chunk)) :
    sep.intercalate (ps ++ q :: qs) = ps.flatMap (· ++ sep) ++ sep.intercalate (q :: qs) := by
  induction ps with
  | nil => rfl
  | cons p ps ih =>
    rw [List.flatMap_cons, List.append_assoc, ← ih, List.cons_append]
    cases ps with
    | nil => rw [List.nil_append, List.intercalate_cons_cons]
    | cons p' ps => rw [List.cons_append, List.intercalate_cons_cons]

lemma group_append (es : List Formula) (q : List Chunk) (qs : List (List Chunk)) :
    l.group (es.map chunks ++ q :: qs) =
      .token .left ['('] :: ((es.flatMap fun e => chunks e ++ l.between) ++
        (l.between.intercalate (q :: qs) ++ [.token .right [')']])) := by
  rw [group, intercalate_append, List.flatMap_map, List.append_assoc]

/-- The level of a group begins with nothing read. -/
lemma reads_left (l : Link) (frame : Frame) {cs : List Chunk} {r : Reader}
    (h : Reads ⟨l.frame [], frame :: outer, none⟩ cs r) :
    Reads ⟨frame, outer, none⟩ (.token .left ['('] :: cs) r := by
  have hframe : l.frame [] = {} := by cases l <;> rfl
  rw [hframe] at h
  exact Reads.cons (fun _ => rfl) h

/-- A group is read as the formula at which its level is closed. -/
lemma denotes_group {e : Formula} (hes : ∀ c ∈ es, Denotes (chunks c) c.collapse)
    (he : Denotes (chunks e) e.collapse) (hiff : l = .iff → es.length ≤ 1) :
    Denotes (l.group ((es ++ [e]).map chunks))
      ((l.frame (es.map Formula.collapse).reverse).formula e.collapse) := by
  intro frame outer
  rw [List.map_append, List.map_singleton, group_append]
  refine reads_left l frame ((reads_operands _ [] hes (by simpa using hiff)).append ?_)
  rw [List.intercalate_singleton, List.append_nil]
  have hoperand := he (l.frame (es.map Formula.collapse).reverse) (frame :: outer)
  rw [supply_frame] at hoperand
  exact hoperand.append (Reads.token fun _ => rfl)

lemma denotes_chain {connect : List Formula → Formula} (hiff : l ≠ .iff)
    (hclose : ∀ es e, (l.frame es).formula e = chain connect (e :: es)) (hne : es ≠ [])
    (hes : ∀ c ∈ es, Denotes (chunks c) c.collapse) :
    Denotes (l.group (chunksAll es)) (Formula.unwrap connect (Formula.collapseAll es)) := by
  obtain ⟨init, last, rfl⟩ : ∃ init last, es = init ++ [last] :=
    ⟨_, _, (List.dropLast_append_getLast hne).symm⟩
  have hgroup := denotes_group (l := l) (fun c hc => hes c (List.mem_append_left _ hc))
    (hes last (by simp)) (absurd · hiff)
  rw [hclose, ← List.reverse_concat, chain_reverse] at hgroup
  rw [chunksAll_eq_map, Formula.collapseAll_eq_map, List.map_append (f := Formula.collapse)]
  exact hgroup

end Link

/-- **The chunks of a formula are read as the formula**, but for its wrappers. -/
theorem denotes_chunks {e : Formula} (h : e.MinArity 1) : Denotes (chunks e) e.collapse := by
  induction e with
  | const b =>
    intro frame outer
    cases b <;> exact Reads.token fun _ => rfl
  | var x =>
    intro frame outer
    refine Reads.token fun position => ?_
    rw [String.ofList_toList]
    rfl
  | neg e ih => exact denotes_neg (ih (h.operand List.mem_cons_self))
  | conj es ih =>
    have hne : es ≠ [] := List.length_pos_iff.1 (h.root (.inl rfl))
    rw [chunks, Formula.collapse]
    exact Link.denotes_chain (by simp) (fun _ _ => rfl) hne fun c hc => ih c hc (h.operand hc)
  | disj es ih =>
    have hne : es ≠ [] := List.length_pos_iff.1 (h.root (.inr rfl))
    rw [chunks, Formula.collapse]
    exact Link.denotes_chain (by simp) (fun _ _ => rfl) hne fun c hc => ih c hc (h.operand hc)
  | imp a b iha ihb =>
    have ha : ∀ c ∈ [a], Denotes (chunks c) c.collapse := by
      simpa using iha (h.operand List.mem_cons_self)
    have hb := ihb (h.operand (by simp [Formula.operands]))
    exact Link.denotes_group (l := .imp) ha hb (by simp)
  | iff a b iha ihb =>
    have ha : ∀ c ∈ [a], Denotes (chunks c) c.collapse := by
      simpa using iha (h.operand List.mem_cons_self)
    have hb := ihb (h.operand (by simp [Formula.operands]))
    exact Link.denotes_group (l := .iff) ha hb (by simp)

/-! ### Empty parentheses -/

/-- The reader gets to a pair of empty parentheses. -/
def Stuck (cs : List Chunk) : Prop :=
  ∃ before after, cs = before ++ .token .left ['('] :: .token .right [')'] :: after ∧
    ∀ frame outer, ∃ frame' outer', Reads ⟨frame, outer, none⟩ before ⟨frame', outer', none⟩

lemma stuck_neg {cs : List Chunk} (h : Stuck cs) : Stuck (.token .neg ['¬'] :: cs) := by
  obtain ⟨before, after, rfl, hreads⟩ := h
  refine ⟨.token .neg ['¬'] :: before, after, rfl, fun frame outer => ?_⟩
  obtain ⟨frame', outer', hreads⟩ := hreads { frame with negations := frame.negations + 1 } outer
  exact ⟨frame', outer', .cons (fun _ => rfl) hreads⟩

lemma Link.stuck_group {l : Link} {es : List Formula} {q : List Chunk} {qs : List (List Chunk)}
    (hes : ∀ c ∈ es, Denotes (chunks c) c.collapse) (hq : Stuck q)
    (hiff : l = .iff → es.length ≤ 1) : Stuck (l.group (es.map chunks ++ q :: qs)) := by
  obtain ⟨before, after, rfl, hreads⟩ := hq
  obtain ⟨rest, hrest⟩ : ∃ rest, ∀ q, l.between.intercalate (q :: qs) = q ++ rest := by
    cases qs with
    | nil => exact ⟨[], fun q => by simp⟩
    | cons q' qs => exact ⟨_, fun q => by rw [List.intercalate_cons_cons, List.append_assoc]⟩
  refine ⟨.token .left ['('] :: ((es.flatMap fun e => chunks e ++ l.between) ++ before),
    after ++ (rest ++ [.token .right [')']]), ?_, fun frame outer => ?_⟩
  · rw [group_append, hrest]
    simp only [List.append_assoc, List.cons_append]
  · have hoperands := reads_operands (frame :: outer) [] hes (by simpa using hiff)
    obtain ⟨frame', outer', hbefore⟩ := hreads _ (frame :: outer)
    exact ⟨frame', outer', reads_left l frame (hoperands.append hbefore)⟩

/-- A group is itself empty, or the reader gets to its first operand with empty parentheses. -/
lemma Link.stuck_of_operands {l : Link} {es : List Formula}
    (hempty : es = [] ∨ ∃ c ∈ es, ¬c.MinArity 1)
    (hes : ∀ c ∈ es, ¬c.MinArity 1 → Stuck (chunks c)) (hiff : l = .iff → es.length ≤ 2) :
    Stuck (l.group (chunksAll es)) := by
  rcases hempty with rfl | ⟨c, hc, hempty⟩
  · exact ⟨[], [], rfl, fun frame outer => ⟨frame, outer, fun _ => rfl⟩⟩
  have hsome : (es.find? fun c => ¬c.MinArity 1).isSome :=
    List.find?_isSome.2 ⟨c, hc, by simpa using hempty⟩
  obtain ⟨c, hfind⟩ := Option.isSome_iff_exists.1 hsome
  obtain ⟨hempty, xs, ys, rfl, hxs⟩ := List.find?_eq_some_iff_append.1 hfind
  rw [chunksAll_eq_map, List.map_append, List.map_cons]
  refine stuck_group (fun x hx => denotes_chunks (by simpa using hxs x hx)) ?_ fun hl => ?_
  · exact hes c (by simp) (by simpa using hempty)
  · have := hiff hl
    simp only [List.length_append, List.length_cons] at this
    omega

lemma empty_or_operand {e : Formula} (h : ¬e.MinArity 1) :
    ((e.kind = .conj ∨ e.kind = .disj) ∧ e.operands = []) ∨ ∃ c ∈ e.operands, ¬c.MinArity 1 := by
  by_cases hops : ∀ c ∈ e.operands, c.MinArity 1
  · left
    by_contra hroot
    refine h (Formula.every_iff.2 ⟨fun hkind => ?_, hops⟩)
    exact List.length_pos_iff.2 fun hnil => hroot ⟨hkind, hnil⟩
  · right
    push Not at hops
    exact hops

/-- **The reader gets to the first empty parentheses**, if there are any. -/
theorem stuck_chunks {e : Formula} (h : ¬e.MinArity 1) : Stuck (chunks e) := by
  induction e with
  | const b => exact absurd (empty_or_operand h) (by simp [Formula.kind, Formula.operands])
  | var x => exact absurd (empty_or_operand h) (by simp [Formula.kind, Formula.operands])
  | neg e ih =>
    refine stuck_neg (ih ?_)
    simpa [Formula.kind, Formula.operands] using empty_or_operand h
  | conj es ih =>
    exact Link.stuck_of_operands ((empty_or_operand h).imp_left And.right) ih (by simp)
  | disj es ih =>
    exact Link.stuck_of_operands ((empty_or_operand h).imp_left And.right) ih (by simp)
  | imp a b iha ihb =>
    have hex : ∃ c ∈ [a, b], ¬c.MinArity 1 := by
      simpa [Formula.kind, Formula.operands] using empty_or_operand h
    exact Link.stuck_of_operands (.inr hex) (by simpa using ⟨iha, ihb⟩) (by simp)
  | iff a b iha ihb =>
    have hex : ∃ c ∈ [a, b], ¬c.MinArity 1 := by
      simpa [Formula.kind, Formula.operands] using empty_or_operand h
    exact Link.stuck_of_operands (.inr hex) (by simpa using ⟨iha, ihb⟩) (by simp)

lemma read_empty (frame : Frame) (outer : List Frame) (position : Nat) (cs : List Chunk) :
    Reader.read ⟨frame, outer, none⟩
      (Chunk.tokensFrom position (.token .left ['('] :: .token .right [')'] :: cs)) =
        .error ⟨.right, ")", position + 1⟩ :=
  rfl

lemma not_reads_empty {r r' : Reader} (cs ds : List Chunk) :
    ¬Reads r (cs ++ .token .left ['('] :: .token .right [')'] :: ds) r' := by
  intro h
  have hread := h 0
  rw [Chunk.tokensFrom_append, Reader.read_append] at hread
  cases hcs : r.read (Chunk.tokensFrom 0 cs) with
  | error t =>
    rw [hcs] at hread
    cases hread
  | ok r₁ =>
    rw [hcs] at hread
    obtain ⟨frame, outer, operand⟩ := r₁
    -- an operand before the parentheses stops the reader even earlier
    cases operand <;> cases hread

end Text

end Clausal
