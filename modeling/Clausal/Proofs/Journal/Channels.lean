import Clausal.Journal.Basic
import Mathlib.Logic.Function.Basic
import Mathlib.Tactic.Lemma

/-!
The channels of a journal under any sequence of commands.

Every command gives a level to at most one channel: a channel is made at a level, the main channel
is opened at the level of information, or the main channel is given another level. **Main result**:
the main channel is the one that was first asked for, every channel has one outlet at its own
level, and this is the level that the latest command to set it has set. So an event is written once
or not at all.
-/

namespace Clausal.Journal

/-- The name with which the command asks for the main channel, if it needs one. -/
def Command.asks : Command → Option String
  | .obtain name => some name
  | .create _ _ => none
  | .setLevel _ | .configure _ _ | .write _ => some defaultName

/-- The channel that the command gives a level, and the level; `main` is the main channel before.
The first command that asks for a main channel opens it at the level of information. -/
def Command.setting (main : Option String) : Command → Option (String × Severity)
  | .create name level => some (channelName name, level)
  | .setLevel level => some (main.getD defaultName, level)
  | .configure verbose debug => some (main.getD defaultName, configureLevel verbose debug)
  | .obtain name => if main.isNone then some (channelName name, .info) else none
  | .write _ => if main.isNone then some (defaultName, .info) else none

/-- The levels that the commands set, in this order, `main` being the main channel before them. -/
def settingsFrom : Option String → List Command → List (String × Severity)
  | _, [] => []
  | main, c :: cs =>
    (c.setting main).toList ++ settingsFrom (main.or (c.asks.map channelName)) cs

def settings (cs : List Command) : List (String × Severity) := settingsFrom none cs

def after (cs : List Command) : Journal := cs.foldl apply {}

def level (j : Journal) : Severity := (j.mainChannel?.map Channel.level).getD .info

/-! ### One command -/

lemma lookup_filter_ne {β : Type} {x y : String} (h : x ≠ y) (l : List (String × β)) :
    (l.filter (·.1 != y)).lookup x = l.lookup x := by
  induction l with
  | nil => rfl
  | cons p l ih =>
    obtain ⟨z, b⟩ := p
    by_cases hz : z = y
    · subst hz
      simp [List.lookup_cons, beq_false_of_ne h, ih]
    · simp [List.lookup_cons, hz, ih]

lemma channel?_put (j : Journal) (name : String) (c : Channel) :
    (j.put name c).channel? = Function.update j.channel? name (some c) := by
  funext x
  unfold channel? put
  by_cases hx : x = name
  · subst hx
    simp
  · simp [List.lookup_cons, hx, beq_false_of_ne hx, lookup_filter_ne hx]

lemma channelName_defaultName : channelName defaultName = defaultName := by decide

lemma obtain_of_some {j : Journal} {m : String} (hm : j.main = some m) (name : String) :
    j.obtain name = j := by
  rw [obtain, hm]

lemma obtain_of_none {j : Journal} (hm : j.main = none) (name : String) :
    j.obtain name = { j.create name .info with main := some (channelName name) } := by
  rw [obtain, hm]

lemma main_obtain (j : Journal) (name : String) :
    (j.obtain name).main = some (j.main.getD (channelName name)) := by
  cases hm : j.main with
  | some m => rw [obtain_of_some hm, hm, Option.getD_some]
  | none => rw [obtain_of_none hm, Option.getD_none]

lemma channel?_obtain_of_none {j : Journal} (hm : j.main = none) (name : String) :
    (j.obtain name).channel? =
      Function.update j.channel? (channelName name) (some (.create .info)) := by
  rw [obtain_of_none hm]
  exact channel?_put j _ _

lemma emit_frame (j : Journal) (r : Record) :
    (j.emit r).main = j.main ∧ (j.emit r).channel? = j.channel? := by
  unfold emit
  split <;> exact ⟨rfl, rfl⟩

/-- What reporting an event does: the main channel is there afterwards, and unless the event is
guarded and not taken, it is put into words, which are written or are missing. -/
lemma run_post (j : Journal) (e : Event) : (post e).run j =
    if !e.guarded || (j.obtain defaultName).takes e.severity then
      (e.compose.map fun _ => (), match e.compose with
        | .ok text => (j.obtain defaultName).emit ⟨e.severity, text⟩
        | .error _ => j.obtain defaultName)
    else (.ok (), j.obtain defaultName) := by
  unfold post
  -- the channel is opened before it is asked what it takes
  change (if (!e.guarded || (j.obtain defaultName).takes e.severity) = true then _ else _ :
    ExceptT Fault (StateM Journal) Unit).run (j.obtain defaultName) = _
  split
  · cases e.compose <;> rfl
  · rfl

lemma write_frame (j : Journal) (e : Event) :
    (j.write e).main = (j.obtain defaultName).main ∧
      (j.write e).channel? = (j.obtain defaultName).channel? := by
  rw [write, run_post]
  split
  · cases e.compose with
    | ok text => exact emit_frame _ _
    | error f => exact ⟨rfl, rfl⟩
  · exact ⟨rfl, rfl⟩

lemma setLevel_frame (j : Journal) (level : Severity) :
    (j.setLevel level).main = (j.obtain defaultName).main := by
  unfold setLevel
  dsimp only
  split <;> rfl

/-- The first command that asks for a main channel names it. -/
lemma main_apply (j : Journal) (c : Command) :
    (j.apply c).main = j.main.or (c.asks.map channelName) := by
  have hopened : ∀ name, (j.obtain name).main = j.main.or (some (channelName name)) := by
    intro name
    rw [main_obtain]
    cases j.main <;> rfl
  cases c with
  | obtain name => exact hopened name
  | create name level => exact (Option.or_none).symm
  | setLevel level => exact (setLevel_frame j _).trans (hopened defaultName)
  | configure verbose debug => exact (setLevel_frame j _).trans (hopened defaultName)
  | write event => exact (write_frame j event).1.trans (hopened defaultName)

/-- Every channel has one outlet, at its own level, and if a main channel is named, it is there. -/
structure Sound (j : Journal) : Prop where
  outlets : ∀ {name c}, j.channel? name = some c → ∃ level, c = .create level
  main : ∀ {name}, j.main = some name → ∃ c, j.channel? name = some c

lemma sound_empty : Sound {} where
  outlets h := by cases h
  main h := by cases h

/-- A channel is made or made again, and the main one is it or stays. -/
lemma Sound.of_update {j k : Journal} (h : j.Sound) {name : String} {level : Severity}
    (hc : k.channel? = Function.update j.channel? name (some (.create level)))
    (hm : k.main = j.main ∨ k.main = some name) : k.Sound where
  outlets {x c} hx := by
    rw [hc, Function.update_apply] at hx
    split at hx
    · cases hx
      exact ⟨level, rfl⟩
    · exact h.outlets hx
  main {x} hx := by
    rw [hc, Function.update_apply]
    split
    · exact ⟨_, rfl⟩
    · next hne =>
      rcases hm with hm | hm
      · exact h.main (hm.symm.trans hx)
      · exact absurd (Option.some.inj (hx.symm.trans hm)) hne

lemma Sound.congr {j k : Journal} (h : j.Sound) (hm : k.main = j.main)
    (hc : k.channel? = j.channel?) : k.Sound where
  outlets hx := h.outlets (by rw [← hc]; exact hx)
  main hx := by rw [hc]; exact h.main (hm.symm.trans hx)

namespace Sound

variable {j : Journal} (h : j.Sound)
include h

lemma obtain (name : String) : (j.obtain name).Sound := by
  cases hm : j.main with
  | some m => rwa [obtain_of_some hm]
  | none =>
    refine h.of_update (channel?_obtain_of_none hm name) (.inr ?_)
    rw [main_obtain, hm, Option.getD_none]

lemma channel?_main {name : String} (hm : j.main = some name) :
    j.channel? name = some (.create j.level) ∧ j.mainChannel? = some (.create j.level) := by
  obtain ⟨c, hc⟩ := h.main hm
  obtain ⟨l, rfl⟩ := h.outlets hc
  have hmain : j.mainChannel? = some (.create l) := by
    rw [mainChannel?, hm]
    exact hc
  have hlevel : j.level = l := by rw [level, hmain]; rfl
  rw [hlevel]
  exact ⟨hc, hmain⟩

lemma channel?_setLevel (level : Severity) :
    (j.setLevel level).channel? =
      Function.update j.channel? (j.main.getD defaultName) (some (.create level)) := by
  have hmain := main_obtain j defaultName
  rw [channelName_defaultName] at hmain
  have hchannel := ((h.obtain defaultName).channel?_main hmain).2
  have hput : j.setLevel level =
      (j.obtain defaultName).put (j.main.getD defaultName) (.create level) := by
    simp only [setLevel, hmain, hchannel]
    rfl
  rw [hput, channel?_put]
  cases hm : j.main with
  | some m => rw [obtain_of_some hm]
  | none =>
    rw [channel?_obtain_of_none hm, channelName_defaultName, Option.getD_none,
      Function.update_idem]

/-- **One command** gives one channel a level, or none, and leaves all others alone. -/
lemma channel?_apply (c : Command) :
    (j.apply c).channel? = match c.setting j.main with
      | some (name, level) => Function.update j.channel? name (some (.create level))
      | none => j.channel? := by
  have hopened : ∀ name, (j.obtain name).channel? =
      match (if j.main.isNone then some (channelName name, Severity.info) else none) with
      | some (name, level) => Function.update j.channel? name (some (.create level))
      | none => j.channel? := by
    intro name
    cases hm : j.main with
    | some m => rw [obtain_of_some hm]; rfl
    | none => exact channel?_obtain_of_none hm name
  cases c with
  | obtain name => exact hopened name
  | create name level => exact channel?_put j _ _
  | setLevel level => exact h.channel?_setLevel level
  | configure verbose debug => exact h.channel?_setLevel _
  | write event => exact (write_frame j event).2.trans (hopened defaultName)

lemma setLevel (level : Severity) : (j.setLevel level).Sound := by
  refine h.of_update (h.channel?_setLevel level) (.inr ?_)
  rw [setLevel_frame, main_obtain, channelName_defaultName]

lemma apply (c : Command) : (j.apply c).Sound := by
  cases c with
  | obtain name => exact h.obtain name
  | create name level => exact h.of_update (channel?_put j _ _) (.inl rfl)
  | setLevel level => exact h.setLevel level
  | configure verbose debug => exact h.setLevel _
  | write event =>
    exact (h.obtain defaultName).congr (write_frame j event).1 (write_frame j event).2

end Sound

/-! ### Writing -/

lemma level_obtain (j : Journal) (name : String) : (j.obtain name).level = j.level := by
  cases hm : j.main with
  | some m => rw [obtain_of_some hm]
  | none =>
    have hmain : (j.obtain name).mainChannel? = some (.create .info) := by
      rw [mainChannel?, main_obtain, hm, Option.getD_none, Option.bind_some,
        channel?_obtain_of_none hm, Function.update_self]
    rw [level, hmain, level, mainChannel?, hm]
    rfl

lemma written_obtain (j : Journal) (name : String) : (j.obtain name).written = j.written := by
  cases hm : j.main with
  | some m => rw [obtain_of_some hm]
  | none => rw [obtain_of_none hm]; rfl

lemma level_write (j : Journal) (e : Event) : (j.write e).level = j.level := by
  obtain ⟨hm, hc⟩ := write_frame j e
  have hmain : (j.write e).mainChannel? = (j.obtain defaultName).mainChannel? := by
    rw [mainChannel?, mainChannel?, hm, hc]
  rw [level, hmain, ← level, level_obtain]

/-- What is written of an event at a level: one record, if the event is severe enough and there are
words for it. -/
def recordsAt (level : Severity) (e : Event) : List Record :=
  match e.compose with
  | .ok text => if level.level ≤ e.severity.level then [⟨e.severity, text⟩] else []
  | .error _ => []

lemma records_create (level : Severity) (r : Record) :
    (Channel.create level).records r = if level.level ≤ r.severity.level then [r] else [] := by
  unfold Channel.records Channel.create
  split
  · next hle => simp [hle]
  · rfl

/-- **An event is written once**, or not at all. -/
lemma Sound.written_write {j : Journal} (h : j.Sound) (e : Event) :
    (j.write e).written = j.written ++ recordsAt j.level e := by
  have hmain : (j.obtain defaultName).mainChannel? = some (.create j.level) := by
    rw [((h.obtain defaultName).channel?_main (main_obtain j defaultName)).2, level_obtain]
  have hnil : (j.obtain defaultName).written = j.written ++ ([] : List Record) := by
    rw [written_obtain, Array.appendList_nil]
  rw [write, run_post, recordsAt]
  cases hwords : e.compose with
  | ok text =>
    simp only [takes, emit, hmain, records_create, written_obtain]
    by_cases hle : j.level.level ≤ e.severity.level
    · simp [Channel.create, hle]
    · -- an event that is not taken leaves nothing, whether it was put into words or not
      rw [if_neg hle]
      split
      · rfl
      · exact hnil
  | error f => split <;> exact hnil

/-! ### All commands -/

lemma main_foldl (j : Journal) (cs : List Command) :
    (cs.foldl apply j).main = j.main.or ((cs.findSome? Command.asks).map channelName) := by
  induction cs generalizing j with
  | nil => exact (Option.or_none).symm
  | cons c cs ih =>
    rw [List.foldl_cons, ih, main_apply, Option.or_assoc, List.findSome?_cons]
    cases c.asks <;> rfl

lemma Sound.foldl {j : Journal} (h : j.Sound) (cs : List Command) :
    (cs.foldl Journal.apply j).Sound := by
  induction cs generalizing j with
  | nil => exact h
  | cons c cs ih => exact ih (h.apply c)

lemma Sound.channel?_foldl {j : Journal} (h : j.Sound) (cs : List Command) (name : String) :
    (cs.foldl Journal.apply j).channel? name =
      (((settingsFrom j.main cs).reverse.lookup name).map Channel.create).or
        (j.channel? name) := by
  induction cs generalizing j with
  | nil => rfl
  | cons c cs ih =>
    rw [List.foldl_cons, ih (h.apply c), main_apply, h.channel?_apply, settingsFrom,
      List.reverse_append, List.lookup_append, Option.map_or, Option.or_assoc]
    congr 1
    cases c.setting j.main with
    | none => rfl
    | some p =>
      obtain ⟨x, level⟩ := p
      by_cases hx : name = x
      · subst hx
        simp
      · simp [Function.update_of_ne hx, List.lookup_cons, beq_false_of_ne hx]

lemma sound_after (cs : List Command) : (after cs).Sound := sound_empty.foldl cs

lemma after_append (cs ds : List Command) : after (cs ++ ds) = ds.foldl apply (after cs) := by
  rw [after, after, List.foldl_append]

lemma channel?_after (cs : List Command) (name : String) :
    (after cs).channel? name = ((settings cs).reverse.lookup name).map Channel.create :=
  (sound_empty.channel?_foldl cs name).trans Option.or_none

lemma level_after (cs : List Command) :
    (after cs).level =
      ((after cs).main.bind fun name => (settings cs).reverse.lookup name).getD .info := by
  rw [level, mainChannel?]
  cases (after cs).main with
  | none => rfl
  | some name =>
    rw [Option.bind_some, Option.bind_some, channel?_after, Option.map_map]
    cases (settings cs).reverse.lookup name <;> rfl

/-- **The channels after any commands.** The main channel has the name, or for the empty name that
of the root, with which it was first asked for, and keeps it. Every channel that was ever given a
level has one outlet, and both have the level that was set last. An event is written once if it
reaches the level of the main channel and has words, as every message does, and else not at all. -/
theorem after_latest (cs : List Command) :
    ((after cs).main = (cs.findSome? Command.asks).map channelName ∧
      ∀ more, (after cs).main.isSome → (after (cs ++ more)).main = (after cs).main) ∧
    (∀ name ∈ (settings cs).map Prod.fst, ∃ level,
      (settings cs).reverse.lookup name = some level ∧
      (after cs).channel? name = some ⟨level, [level]⟩) ∧
    (after cs).level =
      ((after cs).main.bind fun name => (settings cs).reverse.lookup name).getD .info ∧
    (∀ event, (after (cs ++ [.write event])).written =
      (after cs).written ++ recordsAt (after cs).level event) ∧
    ∀ severity message, recordsAt (after cs).level (.note severity message) =
      if (after cs).level.level ≤ severity.level then [⟨severity, message⟩] else [] := by
  refine ⟨⟨?_, fun more hsome => ?_⟩, fun name hname => ?_, level_after cs, fun event => ?_,
    fun _ _ => rfl⟩
  · exact (main_foldl {} cs).trans Option.none_or
  · obtain ⟨m, hm⟩ := Option.isSome_iff_exists.1 hsome
    rw [after_append, main_foldl, hm, Option.some_or]
  · have hne : (settings cs).reverse.lookup name ≠ none := by
      obtain ⟨p, hp, rfl⟩ := List.mem_map.1 hname
      intro hnone
      simpa using List.lookup_eq_none_iff.1 hnone p (List.mem_reverse.2 hp)
    obtain ⟨level, hlevel⟩ := Option.ne_none_iff_exists'.1 hne
    exact ⟨level, hlevel, by rw [channel?_after, hlevel]; rfl⟩
  · rw [after_append]
    exact (sound_after cs).written_write event

/-- A channel that is made under the name of the main one takes its place, one of another name does
not. -/
theorem after_latest_replaced :
    let cs : List Command :=
      [.setLevel .warning, .create "cnfold" .debug, .create "other" .error]
    ("cnfold" ∈ (settings cs).map Prod.fst ∧ ∃ level,
      (settings cs).reverse.lookup "cnfold" = some level ∧
      (after cs).channel? "cnfold" = some ⟨level, [level]⟩) ∧
    (settings cs).reverse.lookup "cnfold" = some .debug ∧
    ((after cs).main.isSome ∧ (after (cs ++ [.obtain "other"])).main = (after cs).main) := by
  intro cs
  have hname : "cnfold" ∈ (settings cs).map Prod.fst := by decide
  have hmain : (after cs).main.isSome := by decide
  exact ⟨⟨hname, (after_latest cs).2.1 _ hname⟩, by decide, hmain,
    (after_latest cs).1.2 _ hmain⟩

/-- Asked for without a name, the main channel is the root, and answers to that name. -/
theorem main_root_of_empty :
    (after [.obtain ""]).main = some "root" ∧
    (after [.obtain ""]).main ≠ [Command.obtain ""].findSome? Command.asks ∧
    (after [.obtain "", .create "root" .error]).level = .error := by
  decide

end Clausal.Journal
