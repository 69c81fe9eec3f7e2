/-!
Values of any sort in the place of a truth value. Null, false, zero and whatever is empty count as
false, everything else as true.
-/

namespace Clausal

/-- A number is an integer divided by a power of ten. -/
inductive Datum where
  | null
  | bool (b : Bool)
  | number (mantissa : Int) (places : Nat)
  | text (s : String)
  | list (items : List Datum)
  | record (fields : List (String × Datum))
  deriving Inhabited

/-- A fraction too small for double precision, at most half of the least positive double, counts
as zero. -/
def Datum.truth : Datum → Bool
  | null => false
  | bool b => b
  | number mantissa places => decide (Nat.pow 10 places < mantissa.natAbs * Nat.pow 2 1075)
  | text s => !s.isEmpty
  | list items => !items.isEmpty
  | record fields => !fields.isEmpty

end Clausal
