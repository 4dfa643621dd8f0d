/-!
# Sets of code points given by ranges

The ranges of a table are in ascending order and do not touch, so a binary search finds the only
range that can hold a code point.
-/

namespace SmallC.Text

/-- The ranges after a code point, each given by its distance from what comes before it and by the number
of code points that follow its first one. -/
def rangesAfter (last : Nat) : List Nat → List (Nat × Nat)
  | gap :: more :: rest => (last + gap, last + gap + more) :: rangesAfter (last + gap + more) rest
  | _ => []

def ofGaps (gaps : List Nat) : Array (Nat × Nat) := (rangesAfter 0 gaps).toArray

/-- Searches positions `lo` up to `hi` of a table for the range that holds `n`; `fuel` bounds the
number of halvings. -/
def searchRanges (table : Array (Nat × Nat)) (n : Nat) : (fuel lo hi : Nat) → Bool
  | 0, _, _ => false
  | fuel + 1, lo, hi =>
    if lo < hi then
      let mid := (lo + hi) / 2
      match table[mid]? with
      | none => false
      | some (first, last) =>
        if n < first then searchRanges table n fuel lo mid
        else if last < n then searchRanges table n fuel (mid + 1) hi
        else true
    else false

def inRanges (table : Array (Nat × Nat)) (c : Char) : Bool :=
  searchRanges table c.toNat (table.size + 1) 0 table.size

end SmallC.Text
