import SmallC.Text.Numeral
import SmallC.Text.Printable

/-!
# Quoted text

A text between quote marks, with a backslash before what could not stand there as it is. Writing
keeps every printable character; reading also takes text between backquotes, where nothing is
special, and between single quotes, where at most one character may stand.
-/

namespace SmallC.Text

/-- The last `width` hexadecimal digits of a number. -/
def hexDigits : (width n : Nat) → Text
  | 0, _ => []
  | width + 1, n =>
    let d := n % 16
    hexDigits width (n / 16) ++ [UInt8.ofNat (if d < 10 then 48 + d else 87 + d)]

def controlLetter? (c : Char) : Option Char :=
  match c.toNat with
  | 7 => some 'a'
  | 8 => some 'b'
  | 9 => some 't'
  | 10 => some 'n'
  | 11 => some 'v'
  | 12 => some 'f'
  | 13 => some 'r'
  | _ => none

def quoteChar (mark c : Char) : Text :=
  if c = mark || c = '\\' then ofChars ['\\', c]
  else if isPrintable c then ofChars [c]
  else match controlLetter? c with
    | some letter => ofChars ['\\', letter]
    | none =>
      if c.toNat < 128 then ofString "\\x" ++ hexDigits 2 c.toNat
      else if c.toNat < 0x10000 then ofString "\\u" ++ hexDigits 4 c.toNat
      else ofString "\\U" ++ hexDigits 8 c.toNat

def quoteGlyph (mark : Char) : Glyph → Text
  | .char c => quoteChar mark c
  | .stray b => ofString "\\x" ++ hexByte b

def quoted (t : Text) : Text :=
  ofChars ['"'] ++ (glyphs t).flatMap (quoteGlyph '"') ++ ofChars ['"']

def quotedChar (c : Char) : Text := ofChars ['\''] ++ quoteChar '\'' c ++ ofChars ['\'']

/-- The bytes of the code point with the given hexadecimal digits. -/
def codePoint? (digits : List Char) : Option Text :=
  match digitsValue? 16 0 digits with
  | some n => if n.isValidChar then some (ofChars [Char.ofNat n]) else none
  | none => none

/-- The byte with the given digits. -/
def byteValue? (base : Nat) (digits : List Char) : Option Text :=
  match digitsValue? base 0 digits with
  | some n => if n < 256 then some [UInt8.ofNat n] else none
  | none => none

/-- The characters up to a final `mark`, each as its bytes. -/
def quotedBody? (mark : Char) : List Char → Option (List Text)
  | [] => none
  | '\\' :: 'a' :: r => (quotedBody? mark r).map ([7] :: ·)
  | '\\' :: 'b' :: r => (quotedBody? mark r).map ([8] :: ·)
  | '\\' :: 'f' :: r => (quotedBody? mark r).map ([12] :: ·)
  | '\\' :: 'n' :: r => (quotedBody? mark r).map ([10] :: ·)
  | '\\' :: 'r' :: r => (quotedBody? mark r).map ([13] :: ·)
  | '\\' :: 't' :: r => (quotedBody? mark r).map ([9] :: ·)
  | '\\' :: 'v' :: r => (quotedBody? mark r).map ([11] :: ·)
  | '\\' :: '\\' :: r => (quotedBody? mark r).map (ofChars ['\\'] :: ·)
  | '\\' :: 'x' :: a :: b :: r => do
    let byte ← byteValue? 16 [a, b]
    (quotedBody? mark r).map (byte :: ·)
  | '\\' :: 'u' :: a :: b :: c :: d :: r => do
    let char ← codePoint? [a, b, c, d]
    (quotedBody? mark r).map (char :: ·)
  | '\\' :: 'U' :: a :: b :: c :: d :: e :: f :: g :: h :: r => do
    let char ← codePoint? [a, b, c, d, e, f, g, h]
    (quotedBody? mark r).map (char :: ·)
  | '\\' :: c :: r =>
    if c = mark then (quotedBody? mark r).map (ofChars [c] :: ·)
    else match r with
      | d :: e :: r => do
        let byte ← byteValue? 8 [c, d, e]
        (quotedBody? mark r).map (byte :: ·)
      | _ => none
  | c :: r =>
    if c = mark then (if r.isEmpty then some [] else none)
    else if c = '\n' || c = '\\' then none
    else (quotedBody? mark r).map (ofChars [c] :: ·)

theorem quotedBody?_plain {c : Char} (mark : c ≠ '"') (slash : c ≠ '\\') (newline : c ≠ '\n')
    (r : List Char) : quotedBody? '"' (c :: r) = (quotedBody? '"' r).map (ofChars [c] :: ·) := by
  simp [quotedBody?, mark, slash, newline]

/-- The text that a quoted form stands for. -/
def unquoted? : List Char → Option Text
  | '"' :: r => (quotedBody? '"' r).map List.flatten
  | '\'' :: r =>
    match quotedBody? '\'' r with
    | some [] => some []
    | some [c] => some c
    | _ => none
  | '\x60' :: r =>
    match r.reverse with
    | '\x60' :: inner =>
      if inner.contains '\x60' then none
      else some (ofChars (inner.reverse.filter (· ≠ '\r')))
    | _ => none
  | _ => none

end SmallC.Text
