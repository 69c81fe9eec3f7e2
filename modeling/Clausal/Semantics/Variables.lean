import Clausal.Formula.Basic

/-!
The variables of a formula, each once.

A formula is searched with a stack onto which operands go from left to right, so that the last one
is looked at first.
-/

namespace Clausal.Formula

/-- Search the stack, head first, with the names found so far, the newest first. -/
def discoverFrom : List Formula → List String → List String
  | [], seen => seen.reverse
  | .var x :: rest, seen => discoverFrom rest (if seen.contains x then seen else x :: seen)
  | e :: rest, seen => discoverFrom (e.operands.reverse ++ rest) seen
termination_by pending => weights pending
decreasing_by
  · simp only [weights, weight]
    omega
  · have := weights_operands_lt e
    simp only [weights_append, weights_reverse, weights]
    omega

def discoverVariables (e : Formula) : List String := discoverFrom [e] []

/-- The variables, roughly as they are met in reading the formula. -/
def collectVariables (e : Formula) : List String := e.discoverVariables.reverse

end Clausal.Formula
