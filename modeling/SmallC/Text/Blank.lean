import SmallC.Text

/-!
# White space

The code points with the Unicode property White_Space.
-/

namespace SmallC.Text

def isBlank (c : Char) : Bool :=
  let n := c.toNat
  (9 ≤ n && n ≤ 13) || n = 0x20 || n = 0x85 || n = 0xA0 || n = 0x1680 ||
    (0x2000 ≤ n && n ≤ 0x200A) || n = 0x2028 || n = 0x2029 || n = 0x202F || n = 0x205F ||
    n = 0x3000

def Glyph.isBlank : Glyph → Bool
  | .char c => Text.isBlank c
  | .stray _ => false

/-- Drops what satisfies `p` from both ends of a list. -/
def stripBoth {α : Type} (p : α → Bool) (l : List α) : List α :=
  ((l.dropWhile p).reverse.dropWhile p).reverse

def trim (t : Text) : Text := ofGlyphs (stripBoth Glyph.isBlank (glyphs t))

/-- The maximal stretches of elements that do not satisfy `p`. -/
def stretches {α : Type} (p : α → Bool) : List α → List (List α)
  | [] => []
  | a :: rest =>
    if p a then stretches p rest
    else match rest, stretches p rest with
      | b :: _, word :: words => if p b then [a] :: word :: words else (a :: word) :: words
      | _, words => [a] :: words

def words (t : Text) : List Text := (stretches Glyph.isBlank (glyphs t)).map ofGlyphs

end SmallC.Text
