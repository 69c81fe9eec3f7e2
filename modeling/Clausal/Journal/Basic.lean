import Clausal.Journal.Event

/-!
The journal: named channels, each with a level and outlets that have levels of their own, and one
channel that is the main one. Events are written to the main channel, which is opened when it is
first needed; a record passes if it is severe enough for the channel and for the outlet.
-/

namespace Clausal

structure Record where
  severity : Severity
  message : String
  deriving DecidableEq

/-- A line of the journal: messages below the level of information say their level. -/
def lineText (level : Int) (message : String) : String :=
  if 20 ≤ level then message
  else if level = 10 then "[DEBUG] " ++ message
  else if level = 0 then "[NOTSET] " ++ message
  else "[Level " ++ toString level ++ "] " ++ message

def Record.line (r : Record) : String := lineText r.severity.level r.message

structure Channel where
  level : Severity
  outlets : List Severity
  deriving DecidableEq

namespace Channel

def create (level : Severity) : Channel := ⟨level, [level]⟩

def setLevel (c : Channel) (level : Severity) : Channel := ⟨level, c.outlets.map fun _ => level⟩

/-- The record once for every outlet that it passes, if it passes the channel. -/
def records (c : Channel) (r : Record) : List Record :=
  if c.level.level ≤ r.severity.level then
    (c.outlets.filter (·.level ≤ r.severity.level)).map fun _ => r
  else []

end Channel

structure Journal where
  channels : List (String × Channel) := []
  main : Option String := none
  written : Array Record := #[]

namespace Journal

def defaultName : String := "cnfold"

/-- The channel without a name is the root. -/
def channelName (name : String) : String := if name = "" then "root" else name

def channel? (j : Journal) (name : String) : Option Channel := j.channels.lookup name

def put (j : Journal) (name : String) (c : Channel) : Journal :=
  { j with channels := (name, c) :: j.channels.filter (·.1 != name) }

/-- Make a channel, in the place of the one that has the name, if there is one. -/
def create (j : Journal) (name : String) (level : Severity) : Journal :=
  j.put (channelName name) (.create level)

/-- The journal with a main channel. The name is used only if there is none yet. -/
def obtain (j : Journal) (name : String) : Journal :=
  match j.main with
  | some _ => j
  | none => { j.create name .info with main := some (channelName name) }

def mainChannel? (j : Journal) : Option Channel := j.main.bind j.channel?

def setLevel (j : Journal) (level : Severity) : Journal :=
  let j := j.obtain defaultName
  match j.main, j.mainChannel? with
  | some name, some c => j.put name (c.setLevel level)
  | _, _ => j

def configureLevel (verbose debug : Bool) : Severity :=
  if debug then .debug else if verbose then .info else .warning

def emit (j : Journal) (r : Record) : Journal :=
  match j.mainChannel? with
  | some c => { j with written := j.written ++ c.records r }
  | none => j

def takes (j : Journal) (s : Severity) : Bool :=
  match j.mainChannel? with
  | some c => c.level.level ≤ s.level
  | none => false

/-- Report an event. It is put into words before anything looks at the level, unless it is
guarded. -/
def post (e : Event) : ExceptT Fault (StateM Journal) Unit := do
  modify (obtain · defaultName)
  if !e.guarded || (← get).takes e.severity then
    let message ← e.compose
    modify (emit · ⟨e.severity, message⟩)

/-- The journal after an event has been reported, or has failed to be. -/
def write (j : Journal) (e : Event) : Journal := ((post e).run j).2

inductive Command where
  | obtain (name : String)
  | create (name : String) (level : Severity)
  | setLevel (level : Severity)
  | configure (verbose debug : Bool)
  | write (event : Event)

def apply (j : Journal) : Command → Journal
  | .obtain name => j.obtain name
  | .create name level => j.create name level
  | .setLevel level => j.setLevel level
  | .configure verbose debug => j.setLevel (configureLevel verbose debug)
  | .write event => j.write event

/-- The records from the given one on, each as a line. -/
def textFrom (j : Journal) (start : Nat) : String :=
  (j.written.extract start).foldl (fun text r => text ++ r.line ++ "\n") ""

end Journal

end Clausal
