import Clausal.Engine.Table
import Clausal.Journal.Logged
import Clausal.NormalForm.Conversion
import Clausal.Semantics.Search
import Clausal.Text.Parser

/-!
The operations of the library with what they report on the way. An event that cannot be put into
words ends the operation with the fault.
-/

namespace Clausal

/-- The text is not a formula, or the formula cannot be processed. -/
inductive Failure where
  | parse (error : Text.ParseError)
  | fault (fault : Fault)
  deriving DecidableEq

def Failure.message : Failure → String
  | parse error => error.message
  | fault f => f.message

namespace Report

/-- Only a traversal that ends with the wrong number of results is reported. -/
def faultEvents : Fault → List Event
  | .resultCount n => [.leftover n]
  | _ => []

def attempt {α : Type} : Except Fault α → ExceptT Fault Logged α
  | .ok v => pure v
  | .error f => do
    (faultEvents f).forM Journal.post
    throw f

/-- Report an event where a text may be at fault as well. -/
def post (e : Event) : ExceptT Failure Logged Unit := (Journal.post e).adapt .fault

def scan (text : String) : Logged Text.Scan := do
  let s := Text.scan text
  if let some i := s.illegal then
    modify (·.write (.illegal i))
  return s

def parse (text : String) : ExceptT Failure Logged Formula := do
  post (.parsing text)
  match Text.parse text with
  | .ok e =>
    post (.parsed e.kind)
    return e
  | .error (.illegal i) =>
    post (.illegal i)
    post (.parseStopped i)
    throw (.parse (.illegal i))
  | .error err =>
    post .parseFailed
    throw (.parse err)

def pass (p : NormalForm.Pass) (e : Formula) : ExceptT Fault Logged Formula := do
  let result ← attempt (p.apply e)
  Journal.post (.passed p result)
  return result

def toCnf (e : Formula) : ExceptT Fault Logged Formula := do
  Journal.post (.converting e.kind)
  let result ← pipe e (NormalForm.Pass.all.map pass)
  Journal.post (.converted result.kind)
  return result

def parseToCnf (text : String) : ExceptT Failure Logged Formula := do
  post (.parsingToCnf text)
  let e ← parse text
  let result ← (toCnf e).adapt Failure.fault
  post (.parsedToCnf result.kind)
  return result

/-- Report how many assignments `n` variables have, with a warning if there are more variables than
the threshold. -/
def announce (threshold : Int) (n : Nat) : ExceptT Fault Logged Unit := do
  let total := Nat.pow 2 n
  if threshold < n then
    Journal.post (.largeSearch n total)
  Journal.post (.searching n total)

def solve (threshold : Int) (e : Formula) : ExceptT Fault Logged (Option Assignment) := do
  announce threshold e.discoverVariables.length
  let verdict ← attempt e.search
  match verdict.assignment with
  | some a => Journal.post (.satisfied a verdict.tried)
  | none => Journal.post (.unsatisfied verdict.tried)
  return verdict.assignment

end Report

end Clausal
