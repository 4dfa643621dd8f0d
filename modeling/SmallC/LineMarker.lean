import SmallC.Text.Blank
import SmallC.Text.Quoted

/-!
# Line markers

A line `# 12 "foo.c"` says that the next line is line 12 of `foo.c`. The word `line` may stand
after the mark, and the file may be missing. Any other line with a mark is no marker and says
nothing.

The line is cut at white space first, so a file name with a blank in it is not understood.
-/

namespace SmallC

structure LineMarker where
  line : Int64
  file : Option Text := none
  deriving DecidableEq, Repr

namespace LineMarker

/-- The text after a mark, without white space at its ends and without the word that may stand there. -/
def bare (text : List Char) : List Char :=
  let text := Text.stripBoth Text.isBlank text
  match text with
  | 'l' :: 'i' :: 'n' :: 'e' :: rest => rest
  | _ => text

def read? (text : List Char) : Option LineMarker :=
  match Text.stretches Text.isBlank (bare text) with
  | [] => none
  | number :: fields =>
    (Text.signedDecimal? number).map fun n => { line := n, file := fields.head?.bind Text.unquoted? }

/-- The marker for line `n` of `file`, with its newline. -/
def render (n : Nat) (file : Text) : Text :=
  Text.ofString "# " ++ Text.ofNat n ++ Text.ofString " " ++ Text.quoted file
    ++ Text.ofString "\n"

end LineMarker
end SmallC
