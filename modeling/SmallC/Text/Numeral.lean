import SmallC.Text

/-!
# Reading integers

Two notations: the literals of the source language, whose prefix chooses the base, and plain
signed decimals. Both refuse what does not fit in 64 bits.
-/

namespace SmallC.Text

def hexValue? (c : Char) : Option Nat :=
  if '0' ≤ c && c ≤ '9' then some (c.toNat - 48)
  else if 'a' ≤ c && c ≤ 'f' then some (c.toNat - 87)
  else if 'A' ≤ c && c ≤ 'F' then some (c.toNat - 55)
  else none

/-- Continues the number `acc` with digits of the given base. -/
def digitsValue? (base : Nat) : (acc : Nat) → List Char → Option Nat
  | acc, [] => some acc
  | acc, c :: cs =>
    match hexValue? c with
    | some d => if d < base then digitsValue? base (acc * base + d) cs else none
    | none => none

/-- The magnitude of an integer literal: `0x` and `0b` announce base 16 and 2 when a digit
follows, any other leading zero base 8. -/
def literalMagnitude? : List Char → Option Nat
  | '0' :: b :: d :: ds =>
    if b = 'x' || b = 'X' then digitsValue? 16 0 (d :: ds)
    else if b = 'b' || b = 'B' then digitsValue? 2 0 (d :: ds)
    else if b = 'o' || b = 'O' then digitsValue? 8 0 (d :: ds)
    else digitsValue? 8 0 (b :: d :: ds)
  | '0' :: ds => digitsValue? 8 0 ds
  | ds => digitsValue? 10 0 ds

def literalValue? (cs : List Char) : Option Int64 :=
  match literalMagnitude? cs with
  | some n => if n < 1 <<< 63 then some (Int64.ofNat n) else none
  | none => none

/-- A decimal with an optional sign. -/
def signedDecimal? (cs : List Char) : Option Int64 :=
  let (negative, digits) := match cs with
    | '-' :: ds => (true, ds)
    | '+' :: ds => (false, ds)
    | ds => (false, ds)
  if digits.isEmpty then none
  else match digitsValue? 10 0 digits with
    | none => none
    | some n =>
      if negative then (if n ≤ 1 <<< 63 then some (Int64.ofInt (-n)) else none)
      else if n < 1 <<< 63 then some (Int64.ofNat n) else none

end SmallC.Text
