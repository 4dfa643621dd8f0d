import SmallC.Text

/-!
# Base 64

Four characters for three bytes, with padding at the end. Line breaks between characters count
for nothing.
-/

namespace SmallC.Text

def base64Digit? (c : Char) : Option Nat :=
  if 'A' ≤ c && c ≤ 'Z' then some (c.toNat - 65)
  else if 'a' ≤ c && c ≤ 'z' then some (c.toNat - 71)
  else if c.isDigit then some (c.toNat + 4)
  else if c = '+' then some 62
  else if c = '/' then some 63
  else none

/-- The first `count` of the three bytes of a number. -/
def threeBytes (count n : Nat) : Text :=
  ([n / 65536, n / 256, n].map UInt8.ofNat).take count

def base64Groups? : List Char → Option Text
  | [] => some []
  | [a, b, '=', '='] => do
    return threeBytes 1 (((← base64Digit? a) * 64 + (← base64Digit? b)) * 4096)
  | [a, b, c, '='] => do
    let n := ((← base64Digit? a) * 64 + (← base64Digit? b)) * 64 + (← base64Digit? c)
    return threeBytes 2 (n * 64)
  | a :: b :: c :: d :: rest => do
    let n := ((← base64Digit? a) * 64 + (← base64Digit? b)) * 64 + (← base64Digit? c)
    return threeBytes 3 (n * 64 + (← base64Digit? d)) ++ (← base64Groups? rest)
  | _ => none

/-- The bytes that a text stands for. -/
def ofBase64? (t : Text) : Option Text :=
  base64Groups? (t.chars.filter fun c => c ≠ '\n' && c ≠ '\r')

example : ofBase64? [97, 71, 107, 61] = some [104, 105] := by decide

end SmallC.Text
