import Clausal.Journal.Operation
import Clausal.Proofs.Journal.Channels

/-!
What a computation reports.

What an event does depends on the journal: the main channel may have to be opened, the event may be
taken or not, and a guarded one is put into words only if it is. All the same a computation that is
made of reports has one result and one list of events for all journals. **Main results**: parsing,
the passes and the conversion return what they do where nothing is reported, or fail alike.
-/

namespace Clausal

variable {ε ε' α β : Type}

/-- The journal after the events, one behind the other. -/
def Journal.writeAll (j : Journal) (events : List Event) : Journal := events.foldl write j

lemma Journal.writeAll_append (j : Journal) (events more : List Event) :
    j.writeAll (events ++ more) = (j.writeAll events).writeAll more :=
  List.foldl_append

/-- In every journal the computation has the result `r` and writes these events. -/
def Reports (x : ExceptT ε Logged α) (r : Except ε α) (events : List Event) : Prop :=
  ∀ j : Journal, x.run j = (r, j.writeAll events)

/-- In every journal the computation has the result `r`, and the same events are written. -/
def Returns (x : ExceptT ε Logged α) (r : Except ε α) : Prop := ∃ events, Reports x r events

/-! ### Putting computations together -/

lemma reports_pure (a : α) : Reports (pure a : ExceptT ε Logged α) (.ok a) [] := fun _ => rfl

lemma reports_throw (err : ε) : Reports (throw err : ExceptT ε Logged α) (.error err) [] :=
  fun _ => rfl

section Binding

variable {x : ExceptT ε Logged α} {j k : Journal}

lemma run_bind_ok {a : α} (h : x.run j = (.ok a, k)) (f : α → ExceptT ε Logged β) :
    (x >>= f).run j = (f a).run k := by
  show (match x.run j with | (r, k) => ExceptT.bindCont f r k) = _
  rw [h]
  rfl

lemma run_bind_error {err : ε} (h : x.run j = (.error err, k)) (f : α → ExceptT ε Logged β) :
    (x >>= f).run j = (.error err, k) := by
  show (match x.run j with | (r, k) => ExceptT.bindCont f r k) = _
  rw [h]
  rfl

end Binding

namespace Reports

variable {x : ExceptT ε Logged α} {events : List Event}

lemma bind {a : α} {f : α → ExceptT ε Logged β} {s : Except ε β} {more : List Event}
    (hx : Reports x (.ok a) events) (hf : Reports (f a) s more) :
    Reports (x >>= f) s (events ++ more) := by
  intro j
  rw [run_bind_ok (hx j), Journal.writeAll_append]
  exact hf _

lemma bind_error {err : ε} (hx : Reports x (.error err) events) (f : α → ExceptT ε Logged β) :
    Reports (x >>= f) (.error err) events :=
  fun j => run_bind_error (hx j) f

lemma adapt {r : Except ε α} (hx : Reports x r events) (f : ε → ε') :
    Reports (x.adapt f) (r.mapError f) events := by
  intro j
  show (match x.run j with | (r, k) => (r.mapError f, k)) = _
  rw [hx j]

lemma returns {r : Except ε α} (hx : Reports x r events) : Returns x r := ⟨events, hx⟩

end Reports

namespace Returns

variable {x : ExceptT ε Logged α} {r : Except ε α}

lemma run_fst (h : Returns x r) (j : Journal) : (x.run j).1 = r := by
  obtain ⟨events, hx⟩ := h
  rw [hx j]

lemma bind {f : α → ExceptT ε Logged β} {g : α → Except ε β} (hx : Returns x r)
    (hf : ∀ a, Returns (f a) (g a)) : Returns (x >>= f) (r >>= g) := by
  obtain ⟨events, hx⟩ := hx
  cases r with
  | error err => exact (hx.bind_error f).returns
  | ok a =>
    obtain ⟨more, hf⟩ := hf a
    exact (hx.bind hf).returns

/-- What comes after the result may report, and return it as it is. -/
lemma bind_same {f : α → ExceptT ε Logged α} (hx : Returns x r)
    (hf : ∀ a, Returns (f a) (.ok a)) : Returns (x >>= f) r := by
  have hbind : Returns (x >>= f) (r >>= .ok) := hx.bind hf
  rwa [show r >>= .ok = r from bind_pure r] at hbind

lemma adapt (h : Returns x r) (f : ε → ε') : Returns (x.adapt f) (r.mapError f) := by
  obtain ⟨events, hx⟩ := h
  exact (hx.adapt f).returns

end Returns

/-! ### One event -/

/-- **Reporting an event** fails if there are no words for it, whatever the level is: a guarded
event has always words. -/
lemma Journal.reports_post (e : Event) : Reports (post e) (e.compose.map fun _ => ()) [e] := by
  intro j
  have hresult : ((post e).run j).1 = e.compose.map fun _ => () := by
    rw [run_post]
    split
    · rfl
    · next h =>
      have hguarded : e.guarded = true := by
        revert h
        cases e.guarded <;> simp
      obtain ⟨text, htext⟩ := Event.compose_of_guarded hguarded
      rw [htext]
      rfl
  exact Prod.ext hresult rfl

namespace Journal

variable {e : Event} {text : String} (h : e.compose = .ok text)
include h

lemma reports_post_ok : Reports (post e) (.ok ()) [e] := by
  have hpost := reports_post e
  rwa [h] at hpost

lemma reports_post_bind {f : Unit → ExceptT Fault Logged β} {s : Except Fault β}
    {events : List Event} (hf : Reports (f ()) s events) :
    Reports (post e >>= f) s (e :: events) :=
  (reports_post_ok h).bind hf

lemma returns_post : Returns (post e) (.ok ()) := (reports_post_ok h).returns

end Journal

/-- An event without words leaves no record. -/
lemma Journal.run_post_of_error {e : Event} {f : Fault} (h : e.compose = .error f) (j : Journal) :
    (post e).run j = (.error f, j.obtain defaultName) := by
  have hpost := reports_post e j
  rw [h] at hpost
  rw [hpost, writeAll, List.foldl_cons, List.foldl_nil, write, run_post, h]
  split <;> rfl

/-! ### The operations -/

namespace Report

lemma returns_post {e : Event} {text : String} (h : e.compose = .ok text) :
    Returns (post e) (.ok ()) :=
  (Journal.returns_post h).adapt Failure.fault

lemma returns_post_bind {e : Event} {text : String} (h : e.compose = .ok text)
    {f : Unit → ExceptT Failure Logged β} {s : Except Failure β} (hf : Returns (f ()) s) :
    Returns (post e >>= f) s :=
  (returns_post h).bind fun _ => hf

lemma returns_attempt (r : Except Fault α) : Returns (attempt r) r := by
  cases r with
  | ok v => exact (reports_pure v).returns
  | error f =>
    have hposts : Returns ((faultEvents f).forM Journal.post) (.ok ()) := by
      cases f with
      | resultCount n => exact (Journal.returns_post rfl).bind fun _ => (reports_pure ()).returns
      | _ => exact (reports_pure ()).returns
    exact hposts.bind fun _ => (reports_throw f).returns

lemma returns_parse (text : String) : Returns (parse text) ((Text.parse text).mapError .parse) := by
  refine returns_post_bind rfl ?_
  rcases Text.parse text with err | e
  · cases err with
    | illegal i =>
      exact returns_post_bind rfl (returns_post_bind rfl (reports_throw _).returns)
    | _ => exact returns_post_bind rfl (reports_throw _).returns
  · exact returns_post_bind rfl (reports_pure e).returns

/-- The result of a pass can be rendered, so that it can be reported at any level. -/
lemma returns_pass (p : NormalForm.Pass) (e : Formula) : Returns (pass p e) (p.apply e) := by
  refine (returns_attempt _).bind_same fun result => ?_
  obtain ⟨text, htext⟩ := Event.compose_of_guarded (e := .passed p result) rfl
  exact (Journal.returns_post htext).bind fun _ => (reports_pure result).returns

lemma returns_pipe (ps : List NormalForm.Pass) (e : Formula) :
    Returns (pipe e (ps.map pass)) (pipe e (ps.map NormalForm.Pass.apply)) := by
  induction ps generalizing e with
  | nil => exact (reports_pure e).returns
  | cons p ps ih =>
    simp only [pipe, List.map_cons, List.foldlM_cons] at ih ⊢
    exact (returns_pass p e).bind ih

/-- **The conversion returns the normal form**, whatever is reported of it on the way. -/
theorem returns_toCnf (e : Formula) : Returns (toCnf e) (NormalForm.toCnf e) :=
  (Journal.returns_post rfl).bind fun _ => (returns_pipe _ e).bind_same fun result =>
    (Journal.returns_post rfl).bind fun _ => (reports_pure result).returns

/-- **A text is parsed and converted**, or fails as the parser does. -/
theorem returns_parseToCnf (text : String) :
    Returns (parseToCnf text) ((Text.parse text).mapError .parse >>= fun e =>
      (NormalForm.toCnf e).mapError .fault) := by
  refine returns_post_bind rfl ((returns_parse text).bind fun e => ?_)
  refine ((returns_toCnf e).adapt Failure.fault).bind_same fun result => ?_
  exact returns_post_bind rfl (reports_pure result).returns

end Report

end Clausal
