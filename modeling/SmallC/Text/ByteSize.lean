import SmallC.Text

/-!
# Sizes

A number of bytes in units of a thousand. The number is rounded to tenths, a half up; tenths are
shown below ten and otherwise rounded away, a half to the even neighbour.
-/

namespace SmallC.Text

/-- The units by size, the largest first. -/
def byteUnits : List (Nat × String) :=
  [(1_000_000_000_000_000_000, "EB"), (1_000_000_000_000_000, "PB"), (1_000_000_000_000, "TB"),
    (1_000_000_000, "GB"), (1_000_000, "MB"), (1_000, "kB")]

/-- A number of tenths as a whole number, a half to the even neighbour. -/
def wholeOfTenths (n : Nat) : Nat :=
  let q := n / 10
  if n % 10 > 5 || (n % 10 = 5 && q % 2 = 1) then q + 1 else q

def byteSize (n : Nat) : Text :=
  let (unit, name) := (byteUnits.find? fun u => u.1 ≤ n).getD (1, "B")
  let tenths := (20 * n + unit) / (2 * unit)
  let number :=
    if n < 10 then ofNat n
    else if tenths < 100 then ofNat (tenths / 10) ++ ofString "." ++ ofNat (tenths % 10)
    else ofNat (wholeOfTenths tenths)
  number ++ ofString " " ++ ofString name

example : byteSize 9 = ofString "9 B" := by decide +kernel
example : byteSize 999 = ofString "999 B" := by decide +kernel
example : byteSize 4650 = ofString "4.7 kB" := by decide +kernel
example : byteSize 10450 = ofString "10 kB" := by decide +kernel

end SmallC.Text
