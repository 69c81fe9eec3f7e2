import Clausal.Folds.Rendering

/-!
Folds that measure a formula: the number of its nodes, its depth, and an outline that spells
out the kind of every node.
-/

namespace Clausal.Measure

open Engine

def count : Fold Int where
  plan := Plan.atoms (fun _ => .ok 1) (fun _ => .ok 1)
  combine _ parts := .ok (parts.foldl (· + ·) 1)
  descends := Plan.atoms_descends

/-- The number of connectives on the longest way down. -/
def depth : Fold Int where
  plan := Plan.atoms (fun _ => .ok 0) (fun _ => .ok 0)
  combine _ parts := .ok (1 + parts.max?.getD 0)
  descends := Plan.atoms_descends

/-- The kind of every node, with its parts in brackets. -/
def outline : Fold String where
  plan := Rendering.plan
  combine kind parts := .ok (kind.name ++ "[" ++ ",".intercalate parts ++ "]")
  descends := Rendering.plan_descends

end Clausal.Measure
