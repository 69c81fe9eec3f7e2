import Clausal.Journal.Basic

/-!
Computations that report to the journal while they work, and what they report in.
-/

namespace Clausal

abbrev Logged := StateM Journal

/-- The journal, and the number of variables above which a search is large. -/
structure Session where
  journal : Journal := {}
  threshold : Int := 20

def Session.perform {α : Type} (x : Logged α) : StateM Session α := fun s =>
  let (a, journal) := x s.journal
  (a, { s with journal })

end Clausal
