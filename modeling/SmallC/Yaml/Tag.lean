import SmallC.Text.Timestamp
import SmallC.Yaml.Fault

/-!
# Tags

A tag says what kind of value a node is. Tags of the common set are kept in their short form,
with two exclamation marks. A plain scalar without a tag has the one that its text looks like.
-/

namespace SmallC.Yaml

abbrev Tag := Text

namespace Tag

def null : Tag := "!!null"
def bool : Tag := "!!bool"
def int : Tag := "!!int"
def float : Tag := "!!float"
def timestamp : Tag := "!!timestamp"
def str : Tag := "!!str"
def binary : Tag := "!!binary"
def merge : Tag := "!!merge"
def seq : Tag := "!!seq"
def map : Tag := "!!map"

/-- What the handle with two exclamation marks stands for. -/
def commonStem : Text := "tag:yaml.org,2002:"

def short (t : Text) : Tag :=
  match Text.after? commonStem t with
  | some name => Text.ofString "!!" ++ name
  | none => t

/-! ## Numbers -/

def isDigits (cs : List Char) : Bool := !cs.isEmpty && cs.all Char.isDigit

/-- A sign, if there is one, and what follows it. -/
def splitSign : List Char → Option Char × List Char
  | '+' :: rest => (some '+', rest)
  | '-' :: rest => (some '-', rest)
  | cs => (none, cs)

/-- Integers have 64 bits, and without a sign one bit more. -/
def isInteger (cs : List Char) : Bool :=
  let (sign, digits) := splitSign cs
  match if digits.isEmpty then none else Text.literalMagnitude? digits with
  | none => false
  | some n =>
    match sign with
    | none => n < 1 <<< 64
    | some '-' => n ≤ 1 <<< 63
    | some _ => n < 1 <<< 63

/-- A decimal fraction: its digits without the point, and the exponent that this calls for. -/
def fraction? (cs : List Char) : Option (Nat × Int) :=
  let body := (splitSign cs).2
  let whole := body.takeWhile Char.isDigit
  let (part, rest) := match body.dropWhile Char.isDigit with
    | '.' :: rest => (rest.takeWhile Char.isDigit, rest.dropWhile Char.isDigit)
    | rest => ([], rest)
  let exponent? : Option Int := match rest with
    | [] => some 0
    | e :: rest =>
      let (sign, digits) := splitSign rest
      if (e = 'e' || e = 'E') && isDigits digits then
        let n : Int := (Text.digitsValue? 10 0 digits).getD 0
        some (if sign = some '-' then -n else n)
      else none
  match if whole.isEmpty && part.isEmpty then none else exponent? with
  | some e => some ((Text.digitsValue? 10 0 (whole ++ part)).getD 0, e - part.length)
  | none => none

/-- Whether a number times a power of ten is too large for a double. -/
def overflows (n : Nat) (exponent : Int) : Bool :=
  let least := 1 <<< 1024 - 1 <<< 970
  let size : Int := (Text.ofNat n).length + exponent
  if n = 0 || size < 300 then false
  else if 320 < size then true
  else if 0 ≤ exponent then decide (least ≤ n * Nat.pow 10 exponent.toNat)
  else decide (least * Nat.pow 10 (-exponent).toNat ≤ n)

def isFloat (cs : List Char) : Bool :=
  match fraction? cs with
  | some (n, e) => !overflows n e
  | none => false

/-- Whether every underscore stands between two digits. -/
def underscoresDivide : (before : Char) → List Char → Bool
  | before, '_' :: rest =>
    before.isDigit && (rest.headD ' ').isDigit && underscoresDivide '_' rest
  | _, c :: rest => underscoresDivide c rest
  | _, [] => true

/-! ## Text -/

/-- The words that stand for values other than themselves. -/
def ofWord? (word : String) : Option Tag :=
  if ["", "~", "null", "Null", "NULL"].contains word then some null
  else if ["true", "True", "TRUE", "false", "False", "FALSE"].contains word then some bool
  else if [".nan", ".NaN", ".NAN", ".inf", ".Inf", ".INF", "+.inf", "+.Inf", "+.INF", "-.inf",
      "-.Inf", "-.INF"].contains word then some float
  else none

/-- The tag that a text looks like. A date does only if it may. -/
def ofText (dates : Bool) (t : Text) : Tag :=
  let cs := t.chars
  match ofWord? (String.ofList cs) with
  | some tag => tag
  | none =>
    let digits := cs.filter (· ≠ '_')
    match cs with
    | '.' :: _ => if underscoresDivide ' ' cs && isFloat digits then float else str
    | c :: _ =>
      if !(c.isDigit || c = '+' || c = '-') then str
      else if dates && Text.isTimestamp cs then timestamp
      else if isInteger digits then int
      else if isFloat digits then float
      else str
    | [] => str

/-- Whether a scalar with the tag has to look like it. -/
def isChecked (tag : Tag) : Bool := [null, bool, int, float, timestamp].contains tag

/-- The tag of a plain scalar that has none. -/
def ofPlain (t : Text) : Tag := if t = Text.ofString "<<" then merge else ofText true t

end Tag
end SmallC.Yaml
