import SmallC.Yaml.Fault

/-!
# Characters of a document

A document is stored as UTF-8 or, after a byte order mark, as UTF-16. Not every character may
occur in it. The characters that end a line are a line feed, a carriage return, both together
and the next-line character, which all read as a line feed, and the line and paragraph
separators, which stay what they are.
-/

namespace SmallC.Yaml

/-! ## Classes of characters -/

def isBreak (c : Char) : Bool := c = '\n' || c = '\u2028' || c = '\u2029'

def isBlank (c : Char) : Bool := c = ' ' || c = '\t'

/-- What separates words: blanks and line breaks. -/
def isSpace (c : Char) : Bool := isBlank c || isBreak c

/-- What a name of an anchor, a directive or a tag handle consists of. -/
def isNamePart (c : Char) : Bool := c.isAlphanum || c = '_' || c = '-'

/-- Whether a text is at its end or goes on with white space. -/
def atSpace : List Char → Bool
  | [] => true
  | c :: _ => isSpace c

/-- Whether a line that begins so divides documents. -/
def atMarker : List Char → Bool
  | '-' :: '-' :: '-' :: rest => atSpace rest
  | '.' :: '.' :: '.' :: rest => atSpace rest
  | _ => false

def isAllowed (n : Nat) : Bool :=
  n = 0x09 || n = 0x0A || n = 0x0D || (0x20 ≤ n && n ≤ 0x7E) || n = 0x85
    || (0xA0 ≤ n && n ≤ 0xD7FF) || (0xE000 ≤ n && n ≤ 0xFFFD) || (0x10000 ≤ n && n ≤ 0x10FFFF)

/-! ## Decoding -/

/-- How many octets follow the first one of a character. -/
def octetsAfter? (a : UInt8) : Option Nat :=
  if a < 0x80 then some 0
  else if a &&& 0xE0 = 0xC0 then some 1
  else if a &&& 0xF0 = 0xE0 then some 2
  else if a &&& 0xF8 = 0xF0 then some 3
  else none

/-- The least code point that takes so many octets after the first. -/
def leastAfter : Nat → Nat
  | 0 => 0
  | 1 => 0x80
  | 2 => 0x800
  | _ => 0x10000

/-- The code point that an octet and the following ones stand for, and how many follow. -/
def codePoint (a : UInt8) (rest : Text) : Except Problem (Nat × Nat) :=
  match octetsAfter? a with
  | none => .error .leadingOctet
  | some more =>
    let tails := rest.take more
    if tails.length < more then .error .incompleteOctets
    else if tails.any fun b => !Text.isTail b then .error .trailingOctet
    else
      let high := if more = 0 then a.toNat else a.toNat % (1 <<< (6 - more))
      let n := tails.foldl (fun n b => n * 64 + b.toNat % 64) high
      if n < leastAfter more then .error .overlongOctets
      else if (0xD800 ≤ n && n ≤ 0xDFFF) || 0x10FFFF < n then .error .notCharacter
      else .ok (n, more)

def allowed (n : Nat) : Except Problem Char :=
  if isAllowed n then .ok (Char.ofNat n) else .error .controlCharacter

/-- The characters of UTF-8 text whose first `skip` octets belong to the character before it. -/
def decodeOctets : Nat → Text → Except Problem (List Char)
  | _, [] => .ok []
  | skip + 1, _ :: rest => decodeOctets skip rest
  | 0, a :: rest => do
    let (n, more) ← codePoint a rest
    let c ← allowed n
    return c :: (← decodeOctets more rest)

def unit (highFirst : Bool) (a b : UInt8) : Nat :=
  if highFirst then a.toNat * 256 + b.toNat else b.toNat * 256 + a.toNat

def isHighSurrogate (u : Nat) : Bool := 0xD800 ≤ u && u ≤ 0xDBFF

def isLowSurrogate (u : Nat) : Bool := 0xDC00 ≤ u && u ≤ 0xDFFF

def decodeUnits (highFirst : Bool) : Text → Except Problem (List Char)
  | [] => .ok []
  | [_] => .error .incompleteUnit
  | a :: b :: rest =>
    let u := unit highFirst a b
    if isLowSurrogate u then .error .loneLowSurrogate
    else if isHighSurrogate u then
      match rest with
      | c :: d :: rest =>
        let v := unit highFirst c d
        if isLowSurrogate v then do
          let c ← allowed (0x10000 + u % 1024 * 1024 + v % 1024)
          return c :: (← decodeUnits highFirst rest)
        else .error .missingLowSurrogate
      | _ => .error .incompletePair
    else do
      let c ← allowed u
      return c :: (← decodeUnits highFirst rest)

/-- One character for every line break. -/
def joinBreaks : List Char → List Char
  | '\r' :: '\n' :: rest => '\n' :: joinBreaks rest
  | c :: rest => (if c = '\r' || c = '\u0085' then '\n' else c) :: joinBreaks rest
  | [] => []

def decode (source : Text) : Except Problem (List Char) :=
  joinBreaks <$> match source with
    | 0xFF :: 0xFE :: rest => decodeUnits false rest
    | 0xFE :: 0xFF :: rest => decodeUnits true rest
    | 0xEF :: 0xBB :: 0xBF :: rest => decodeOctets 0 rest
    | source => decodeOctets 0 source

/-! ## Places -/

/-- A place in a document, counted from zero. -/
structure Mark where
  index : Nat := 0
  line : Nat := 0
  column : Nat := 0
  deriving DecidableEq, Repr

def Mark.past (m : Mark) (c : Char) : Mark :=
  if isBreak c then { index := m.index + 1, line := m.line + 1, column := 0 }
  else { m with index := m.index + 1, column := m.column + 1 }

def Mark.pastAll (m : Mark) (cs : List Char) : Mark := cs.foldl Mark.past m

/-- What is left of a document, and where it begins. -/
structure Rest where
  mark : Mark := {}
  chars : List Char
  deriving DecidableEq, Repr

namespace Rest

def drop (r : Rest) (n : Nat) : Rest := ⟨r.mark.pastAll (r.chars.take n), r.chars.drop n⟩

def dropWhile (r : Rest) (p : Char → Bool) : Rest :=
  ⟨r.mark.pastAll (r.chars.takeWhile p), r.chars.dropWhile p⟩

def takeWhile (r : Rest) (p : Char → Bool) : List Char := r.chars.takeWhile p

/-- The next character, or NUL at the end. -/
def peek (r : Rest) : Char := r.chars.headD '\x00'

end Rest

/-- A fault that is found at `here` in a token that starts at `start`. The line told is that of
the start, unless the token starts on the first line. -/
def Fault.within (start here : Mark) (problem : Problem) : Fault :=
  let line := if start.line ≠ 0 then start.line else here.line
  { problem, line := if line = 0 then 0 else line + 1 }

/-- Like `Fault.within`, for what tokens do not add up to; lines are counted from zero. -/
def Fault.among (start here : Nat) (problem : Problem) : Fault :=
  { problem, line := if start ≠ 0 then start else here }

end SmallC.Yaml
