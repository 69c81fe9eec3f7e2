import Clausal.NormalForm.Implications
import Clausal.NormalForm.Distribution
import Clausal.Pipeline

/-!
Conversion to conjunctive normal form: implications are eliminated, negations pushed down,
disjunctions distributed, each over the whole result of the pass before.
-/

namespace Clausal.NormalForm

inductive Pass where
  | implications
  | negations
  | distribution
  deriving DecidableEq

namespace Pass

/-- The passes in the order in which they run. -/
def all : List Pass := [implications, negations, distribution]

def name : Pass → String
  | implications => "eliminate_implications"
  | negations => Negations.site
  | distribution => Distribution.site

def apply : Pass → Formula → Except Fault Formula
  | implications => eliminateImplications
  | negations => pushNegations
  | distribution => distributeOrOverAnd

def fold : Pass → Engine.Fold Formula
  | implications => Implications.fold
  | negations => Negations.fold
  | distribution => Distribution.fold

theorem apply_eq_fold (p : Pass) (e : Formula) : p.apply e = p.fold.apply e := by
  cases p <;> rfl

end Pass

def toCnf (e : Formula) : Except Fault Formula := pipe e (Pass.all.map Pass.apply)

end Clausal.NormalForm
