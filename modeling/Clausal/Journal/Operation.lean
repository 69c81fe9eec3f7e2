import Clausal.Journal.Reporting

/-!
The operations of the library, carried out in a session: each reports its events to the journal, and
a search takes its threshold from the session.
-/

namespace Clausal

inductive Operation where
  | parse (text : String)
  | parseToCnf (text : String)
  | pass (p : NormalForm.Pass) (e : Formula)
  | toCnf (e : Formula)
  | evaluate (e : Formula) (v : Valuation)
  | render (e : Formula)
  | solve (e : Formula)

namespace Operation

/-- What the operation returns, if it succeeds. -/
def Answer : Operation → Type
  | parse _ | parseToCnf _ | pass _ _ | toCnf _ => Formula
  | evaluate _ _ => Bool
  | render _ => String
  | solve _ => Option Assignment

/-- The operation with what it reports. A pass by itself, an evaluation and a rendering report only
a traversal that goes wrong. -/
def report (threshold : Int) : (op : Operation) → ExceptT Failure Logged op.Answer
  | parse text => Report.parse text
  | parseToCnf text => Report.parseToCnf text
  | pass p e => (Report.attempt (p.apply e)).adapt Failure.fault
  | toCnf e => (Report.toCnf e).adapt Failure.fault
  | evaluate e v => (Report.attempt (e.evaluate v)).adapt Failure.fault
  | render e => (Report.attempt (Rendering.fold.apply e)).adapt Failure.fault
  | solve e => (Report.solve threshold e).adapt Failure.fault

def run (op : Operation) : StateM Session (Except Failure op.Answer) := do
  Session.perform (op.report (← get).threshold).run

end Operation

end Clausal
