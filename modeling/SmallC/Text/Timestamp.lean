import SmallC.Text.Numeral

/-!
# Dates and times

Which texts are a date, or a date and a time of day. Numbers may have one digit less than is
usual, except the year. After the letter `T` an offset from the zero meridian follows the time,
after blanks it does not.
-/

namespace SmallC.Text

/-- A number of one or two digits that satisfies `p`, and what follows it. -/
def shortNumber? (p : Nat → Bool) : List Char → Option (Nat × List Char)
  | a :: b :: rest =>
    if !a.isDigit then none
    else
      let (n, rest) := if b.isDigit then ((a.toNat - 48) * 10 + (b.toNat - 48), rest)
        else (a.toNat - 48, b :: rest)
      if p n then some (n, rest) else none
  | [a] => if a.isDigit && p (a.toNat - 48) then some (a.toNat - 48, []) else none
  | [] => none

def expect? (c : Char) : List Char → Option (List Char)
  | d :: rest => if d = c then some rest else none
  | [] => none

def daysIn (year month : Nat) : Nat :=
  if month = 2 then
    if year % 4 = 0 && (year % 100 ≠ 0 || year % 400 = 0) then 29 else 28
  else if [4, 6, 9, 11].contains month then 30 else 31

def afterDate? (cs : List Char) : Option (List Char) := do
  let year := cs.takeWhile Char.isDigit
  if year.length ≠ 4 then none
  let rest ← expect? '-' (cs.drop 4)
  let (month, rest) ← shortNumber? (fun n => 1 ≤ n && n ≤ 12) rest
  let rest ← expect? '-' rest
  let last := daysIn ((digitsValue? 10 0 year).getD 0) month
  let (_, rest) ← shortNumber? (fun n => 1 ≤ n && n ≤ last) rest
  return rest

/-- What follows a time of day, which may have a fraction of a second. -/
def afterTime? (cs : List Char) : Option (List Char) := do
  let (_, rest) ← shortNumber? (· < 24) cs
  let (_, rest) ← shortNumber? (· < 60) (← expect? ':' rest)
  let (_, rest) ← shortNumber? (· < 60) (← expect? ':' rest)
  match rest with
  | p :: d :: tail =>
    return if (p = '.' || p = ',') && d.isDigit then tail.dropWhile Char.isDigit else rest
  | _ => return rest

def isOffset : List Char → Bool
  | ['Z'] => true
  | [sign, a, b, ':', c, d] =>
    (sign = '+' || sign = '-') && [a, b, c, d].all Char.isDigit
      && (a.toNat - 48) * 10 + (b.toNat - 48) ≤ 24 && (c.toNat - 48) * 10 + (d.toNat - 48) ≤ 60
  | _ => false

def isTimestamp (cs : List Char) : Bool :=
  match afterDate? cs with
  | none => false
  | some [] => true
  | some (c :: rest) =>
    if c = ' ' then afterTime? (rest.dropWhile (· = ' ')) = some []
    else if c = 'T' || c = 't' then (afterTime? rest).any isOffset
    else false

end SmallC.Text
