import SmallC.Text.Byte

/-!
# Byte strings

Sources, names and messages are byte strings, because a source file need not be well-formed
UTF-8. A text is read as glyphs: characters, and stray bytes that begin no well-formed sequence.
Every glyph has its bytes back, so cutting a text between glyphs loses nothing.

Normalisation and grapheme clusters are not considered.
-/

namespace SmallC

abbrev Text := List UInt8

namespace Text

def ofString (s : String) : Text := s.toUTF8.data.toList

instance : Coe String Text := ⟨ofString⟩

def ofChars (cs : List Char) : Text := cs.flatMap String.utf8EncodeChar

/-! ## Glyphs -/

inductive Glyph where
  | char (c : Char)
  | stray (b : UInt8)
  deriving DecidableEq, Repr

/-- The character that stands for whatever cannot be decoded. -/
def replacement : Char := '\uFFFD'

def Glyph.bytes : Glyph → Text
  | .char c => String.utf8EncodeChar c
  | .stray b => [b]

def Glyph.toChar : Glyph → Char
  | .char c => c
  | .stray _ => replacement

def isTail (b : UInt8) : Bool := 0x80 ≤ b && b ≤ 0xBF

/-- Whether `b` may follow the first byte `a` of a sequence of three or four bytes: no overlong
form, no surrogate, nothing past the last code point. -/
def mayFollow (a b : UInt8) : Bool :=
  if a = 0xE0 then 0xA0 ≤ b && b ≤ 0xBF
  else if a = 0xED then 0x80 ≤ b && b ≤ 0x9F
  else if a = 0xF0 then 0x90 ≤ b && b ≤ 0xBF
  else if a = 0xF4 then 0x80 ≤ b && b ≤ 0x8F
  else isTail b

/-- The first glyph of `a :: rest` and how many bytes of `rest` belong to it. -/
def firstGlyph (a : UInt8) (rest : Text) : Glyph × Nat :=
  let low (b : UInt8) : Nat := b.toNat % 64
  if a < 0x80 then (.char (Char.ofNat a.toNat), 0)
  else match rest with
    | b :: c :: d :: _ =>
      if 0xC2 ≤ a && a ≤ 0xDF && isTail b then
        (.char (Char.ofNat (a.toNat % 32 * 64 + low b)), 1)
      else if 0xE0 ≤ a && a ≤ 0xEF && mayFollow a b && isTail c then
        (.char (Char.ofNat (a.toNat % 16 * 4096 + low b * 64 + low c)), 2)
      else if 0xF0 ≤ a && a ≤ 0xF4 && mayFollow a b && isTail c && isTail d then
        (.char (Char.ofNat (a.toNat % 8 * 262144 + low b * 4096 + low c * 64 + low d)), 3)
      else (.stray a, 0)
    | [b, c] =>
      if 0xC2 ≤ a && a ≤ 0xDF && isTail b then
        (.char (Char.ofNat (a.toNat % 32 * 64 + low b)), 1)
      else if 0xE0 ≤ a && a ≤ 0xEF && mayFollow a b && isTail c then
        (.char (Char.ofNat (a.toNat % 16 * 4096 + low b * 64 + low c)), 2)
      else (.stray a, 0)
    | [b] =>
      if 0xC2 ≤ a && a ≤ 0xDF && isTail b then
        (.char (Char.ofNat (a.toNat % 32 * 64 + low b)), 1)
      else (.stray a, 0)
    | [] => (.stray a, 0)

/-- The glyphs of a text whose first `skip` bytes belong to the glyph before it. -/
def glyphsFrom : Nat → Text → List Glyph
  | _, [] => []
  | skip + 1, _ :: rest => glyphsFrom skip rest
  | 0, a :: rest =>
    let (g, more) := firstGlyph a rest
    g :: glyphsFrom more rest

def glyphs (t : Text) : List Glyph := glyphsFrom 0 t

def ofGlyphs (gs : List Glyph) : Text := gs.flatMap Glyph.bytes

/-- The characters of a text; every stray byte reads as the replacement character. -/
def chars (t : Text) : List Char := (glyphs t).map Glyph.toChar

def isWellFormed (t : Text) : Bool :=
  (glyphs t).all fun
    | .char _ => true
    | .stray _ => false

/-! ## Decimal numbers -/

def digitByte (d : Nat) : UInt8 := UInt8.ofNat (48 + d)

/-- Puts the decimal digits of `n` before `acc`; `fuel` bounds their number. -/
def decimalBefore : (fuel n : Nat) → (acc : Text) → Text
  | 0, _, acc => acc
  | fuel + 1, n, acc =>
    if n < 10 then digitByte n :: acc
    else decimalBefore fuel (n / 10) (digitByte (n % 10) :: acc)

def ofNat (n : Nat) : Text := decimalBefore (n + 1) n []

def ofInt : Int → Text
  | .ofNat n => ofNat n
  | .negSucc n => '-'.toUInt8 :: ofNat (n + 1)

def ofInt64 (n : Int64) : Text := ofInt n.toInt

def hexByte (b : UInt8) : Text :=
  let digit (d : Nat) : UInt8 := UInt8.ofNat (if d < 10 then 48 + d else 87 + d)
  [digit (b.toNat / 16), digit (b.toNat % 16)]

/-! ## Pieces of a text -/

def isDigitByte (b : UInt8) : Bool := 48 ≤ b && b ≤ 57

def isWordStart (b : UInt8) : Bool :=
  (97 ≤ b && b ≤ 122) || (65 ≤ b && b ≤ 90) || b = '_'.toUInt8

def isWordPart (b : UInt8) : Bool := isWordStart b || isDigitByte b

def isBlankOrTab (b : UInt8) : Bool := b = ' '.toUInt8 || b = '\t'.toUInt8

def blanks (n : Nat) : Text := List.replicate n ' '.toUInt8

def joinWith (separator : Text) (parts : List Text) : Text := separator.intercalate parts

/-- The parts of a text between occurrences of the byte `b`; always at least one. -/
def splitAt (b : UInt8) : Text → List Text
  | [] => [[]]
  | a :: rest =>
    match splitAt b rest with
    | [] => [[a]]
    | part :: parts => if a = b then [] :: part :: parts else (a :: part) :: parts

/-- What follows `start` in a text that begins with it. -/
def after? : (start t : Text) → Option Text
  | [], t => some t
  | a :: start, b :: t => if a = b then after? start t else none
  | _ :: _, [] => none

/-- What precedes `tail` in a text that ends with it. -/
def before? (tail t : Text) : Option Text :=
  (after? tail.reverse t.reverse).map List.reverse

end Text
end SmallC
