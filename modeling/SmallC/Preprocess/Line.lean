import SmallC.Macro

/-!
# Logical lines

A line that ends in a backslash continues on the next one. A logical line knows where it starts
and how many lines were joined to its first, and is a text line or a directive.
-/

namespace SmallC

structure LogicalLine where
  /-- The number of its first line. -/
  number : Nat
  content : Text
  /-- How many lines were joined to the first. -/
  joined : Nat := 0
  deriving DecidableEq, Repr

namespace LogicalLine

/-- Joins the lines that follow to `line` as long as it ends in a backslash. The last line keeps
its backslash. -/
def joinFrom (line : LogicalLine) : List Text → List LogicalLine
  | [] => [line]
  | next :: rest =>
    if line.content.getLast? = some Byte.backslash then
      joinFrom { line with
        content := line.content.dropLast ++ next, joined := line.joined + 1 } rest
    else line :: joinFrom { number := line.number + line.joined + 1, content := next } rest

/-- The logical lines of a source, numbered from one. -/
def ofSource (source : Text) : List LogicalLine :=
  match Text.splitAt '\n'.toUInt8 source with
  | [] => []
  | first :: rest => joinFrom { number := 1, content := first } rest

inductive Kind where
  | text
  /-- Keep what follows if the name is defined, or if it is not. -/
  | when (name : Text) (defined : Bool)
  | otherwise
  | close
  | includeFile (operand : Text)
  | define (definition : Text)
  | undefine (name : Text)
  /-- A directive that is passed on. -/
  | other
  deriving DecidableEq, Repr

def firstWord (t : Text) : Text := (Text.words t).head?.getD []

/-- The kind of a line: a directive is a `#` after blanks and tabs, and a name. -/
def kind (line : LogicalLine) : Kind :=
  match line.content.dropWhile Text.isBlankOrTab with
  | Byte.hash :: rest =>
    let rest := rest.dropWhile Text.isBlankOrTab
    let name := rest.takeWhile Text.isWordPart
    let operand := rest.dropWhile Text.isWordPart
    if name = Text.ofString "ifdef" then .when (firstWord operand) true
    else if name = Text.ofString "ifndef" then .when (firstWord operand) false
    else if name = Text.ofString "else" then .otherwise
    else if name = Text.ofString "endif" then .close
    else if name = Text.ofString "include" then .includeFile operand
    else if name = Text.ofString "define" then .define operand
    else if name = Text.ofString "undef" then .undefine (firstWord operand)
    else .other
  | _ => .text

end LogicalLine
end SmallC
