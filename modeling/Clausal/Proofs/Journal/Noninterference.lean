import Clausal.Proofs.Semantics.Solving

/-!
Two runs of an operation, in sessions whose journals and thresholds differ.

The runs do not do the same work: one of them may open the main channel or render the results of
the passes where the other does not. **Main result**: they return or raise the same, and of two runs
with one threshold the one at the higher level writes what the other one writes, without what is
below that level.
-/

namespace Clausal

namespace Journal

/-! ### Records at two levels -/

lemma Sound.written_writeAll {j : Journal} (h : j.Sound) (events : List Event) :
    (j.writeAll events).written = j.written ++ events.flatMap (recordsAt j.level) := by
  induction events generalizing j with
  | nil => exact (Array.appendList_nil).symm
  | cons e events ih =>
    have hrest := ih (h.apply (.write e))
    rw [Journal.apply, level_write, h.written_write] at hrest
    rw [writeAll, List.foldl_cons, ← writeAll, hrest, List.flatMap_cons]
    apply Array.ext'
    simp

lemma filter_recordsAt {low high : Severity} (h : low.level ≤ high.level) (e : Event) :
    (recordsAt low e).filter (fun r => high.level ≤ r.severity.level) = recordsAt high e := by
  unfold recordsAt
  cases e.compose with
  | error f => rfl
  | ok text =>
    by_cases hhigh : high.level ≤ e.severity.level
    · have hlow : low.level ≤ e.severity.level := Nat.le_trans h hhigh
      simp [hhigh, hlow]
    · dsimp only
      split <;> simp [hhigh]

lemma filter_flatMap_recordsAt {low high : Severity} (h : low.level ≤ high.level)
    (events : List Event) :
    (events.flatMap (recordsAt low)).filter (fun r => high.level ≤ r.severity.level) =
      events.flatMap (recordsAt high) := by
  simp only [List.filter_flatMap, filter_recordsAt h]

end Journal

/-- A search has one result for all thresholds. A number of assignments that cannot be written stops
it with the same fault in the warning and in the message that follows. -/
lemma Report.exists_returns_solve (e : Formula) :
    ∃ r, ∀ threshold, Returns (solve threshold e) r := by
  by_cases h : 2 ^ e.discoverVariables.length < 10 ^ digitLimit
  · obtain ⟨v, hsearch, htried⟩ := e.exists_search
    exact ⟨_, fun threshold => (reports_solve threshold h hsearch htried).returns⟩
  · exact ⟨_, fun threshold => returns_solve_of_le threshold (Nat.not_lt.1 h)⟩

namespace Operation

open Journal

/-- An operation has one result, and for each threshold one list of events, for all journals. -/
lemma exists_returns_report (op : Operation) :
    ∃ r, ∀ threshold, Returns (op.report threshold) r := by
  cases op with
  | parse text => exact ⟨_, fun _ => Report.returns_parse text⟩
  | parseToCnf text => exact ⟨_, fun _ => Report.returns_parseToCnf text⟩
  | pass p e => exact ⟨_, fun _ => (Report.returns_attempt _).adapt _⟩
  | toCnf e => exact ⟨_, fun _ => (Report.returns_toCnf e).adapt _⟩
  | evaluate e v => exact ⟨_, fun _ => (Report.returns_attempt _).adapt _⟩
  | render e => exact ⟨_, fun _ => (Report.returns_attempt _).adapt _⟩
  | solve e =>
    obtain ⟨r, hr⟩ := Report.exists_returns_solve e
    exact ⟨_, fun threshold => (hr threshold).adapt _⟩

lemma run_eq {op : Operation} {s : Session} {r : Except Failure op.Answer} {events : List Event}
    (h : Reports (op.report s.threshold) r events) :
    op.run s = (r, { s with journal := s.journal.writeAll events }) := by
  show Session.perform (op.report s.threshold).run s = _
  unfold Session.perform
  rw [h s.journal]

/-- **The journal does not interfere.** An operation has the same result, or fails in the same way,
in all sessions. After any commands, it writes its records behind what is written already; with the
same threshold and at a level that is at least as high, it writes those of them that reach this
level, in the same order. -/
theorem run_noninterference (op : Operation) :
    (∀ s s' : Session, (op.run s).1 = (op.run s').1) ∧
    ∀ (threshold : Int) (cs cs' : List Command),
      (after cs).level.level ≤ (after cs').level.level →
      ∃ records : List Record,
        (op.run ⟨after cs, threshold⟩).2.journal.written = (after cs).written ++ records ∧
        (op.run ⟨after cs', threshold⟩).2.journal.written = (after cs').written ++
          records.filter (fun r => (after cs').level.level ≤ r.severity.level) := by
  obtain ⟨r, hr⟩ := op.exists_returns_report
  refine ⟨fun s s' => ?_, fun threshold cs cs' hle => ?_⟩
  · obtain ⟨_, h⟩ := hr s.threshold
    obtain ⟨_, h'⟩ := hr s'.threshold
    rw [run_eq h, run_eq h']
  · obtain ⟨events, h⟩ := hr threshold
    have hwritten : ∀ ds : List Command,
        (op.run ⟨after ds, threshold⟩).2.journal.written =
          (after ds).written ++ events.flatMap (recordsAt (after ds).level) := by
      intro ds
      rw [run_eq (s := ⟨after ds, threshold⟩) h]
      exact (sound_after ds).written_writeAll events
    refine ⟨_, hwritten cs, ?_⟩
    rw [hwritten, filter_flatMap_recordsAt hle]

/-- A search over more variables than the threshold. Where no level was ever set it writes the
warning and nothing else. -/
theorem run_noninterference_warning :
    let op : Operation := .solve (.var "p")
    let cs : List Command := [.setLevel .debug]
    (op.run ⟨after cs, 0⟩).1 = (op.run ⟨after [], 20⟩).1 ∧
    (after cs).level.level ≤ (after []).level.level ∧
    (∃ records : List Record,
      (op.run ⟨after cs, 0⟩).2.journal.written = (after cs).written ++ records ∧
      (op.run ⟨after [], 0⟩).2.journal.written = (after []).written ++
        records.filter (fun r => (after []).level.level ≤ r.severity.level)) ∧
    (op.run ⟨after [], 0⟩).2.journal.written =
      #[⟨.warning, "Brute-force search over 1 variables will try up to 2 assignments"⟩] := by
  intro op cs
  have hle : (after cs).level.level ≤ (after []).level.level := by decide
  refine ⟨(run_noninterference op).1 _ _, hle, (run_noninterference op).2 0 cs [] hle, ?_⟩
  have hvars : (Formula.var "p").discoverVariables = ["p"] := by
    simp [Formula.discoverVariables, Formula.discoverFrom]
  have hfits : 2 ^ (Formula.var "p").discoverVariables.length < 10 ^ digitLimit :=
    two_pow_lt_iff.2 (by rw [hvars]; decide)
  obtain ⟨v, hsearch, htried⟩ := (Formula.var "p").exists_search
  have hreports := (Report.reports_solve 0 hfits hsearch htried).adapt Failure.fault
  have hopening : Report.opening 0 (Formula.var "p").discoverVariables.length =
      [.largeSearch 1 2, .searching 1 2] := by
    rw [hvars]
    rfl
  rw [hopening] at hreports
  have hwords : (Event.largeSearch 1 2).compose =
      .ok "Brute-force search over 1 variables will try up to 2 assignments" := by
    have hsmall : 2 < 10 ^ digitLimit := (two_pow_lt_iff (n := 1)).2 (by decide)
    rw [Event.compose, decimal_of_lt hsmall]
    rfl
  have hlower : ∀ e : Event, e.severity = .debug → recordsAt (after []).level e = [] := by
    intro e he
    rw [recordsAt, he]
    cases e.compose <;> rfl
  have hclosing : (Report.closing v).severity = .debug := by
    obtain ⟨_ | a, tried⟩ := v <;> rfl
  rw [show op.run ⟨after [], 0⟩ = _ from run_eq hreports, (sound_after []).written_writeAll]
  simp only [List.cons_append, List.nil_append, List.flatMap_cons, List.flatMap_nil,
    hlower _ hclosing, hlower (.searching 1 2) rfl]
  rw [recordsAt, hwords]
  rfl

end Operation

end Clausal
