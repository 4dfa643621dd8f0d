import SmallC.Text.Numeral
import SmallC.Yaml.Source

/-!
# Scalars

A scalar is written plainly, between quotes, or as a block below its header. In the first two
forms the white space between words is a gap: without a line break it is kept, one break reads as
a blank, and of more breaks all but the first are kept. A block keeps its lines, or folds them
by a like rule.

Every reader goes through the characters one by one, so it ends with them.
-/

namespace SmallC.Yaml

/-! ## Gaps -/

structure Gap where
  blanks : List Char := []
  /-- Whether a line has ended in the gap. -/
  broken : Bool := false
  /-- The break that ended it; none if it was written after a backslash. -/
  first : Option Char := none
  /-- The breaks after the first. -/
  more : List Char := []
  deriving DecidableEq, Repr

namespace Gap

def isEmpty (g : Gap) : Bool := !g.broken && g.blanks.isEmpty

/-- Blanks count until the line ends. -/
def push (g : Gap) (c : Char) : Gap :=
  match isBreak c, g.broken with
  | true, true => { g with more := g.more ++ [c] }
  | true, false => { blanks := [], broken := true, first := some c, more := [] }
  | false, true => g
  | false, false => { g with blanks := g.blanks ++ [c] }

/-- What a gap reads as. -/
def chars (g : Gap) : List Char :=
  if g.broken then
    match g.first with
    | some '\n' => if g.more.isEmpty then [' '] else g.more
    | some c => c :: g.more
    | none => g.more
  else g.blanks

end Gap

example : (['x', ' ', '\n', ' '].tail.foldl Gap.push {}).chars = [' '] := by decide

/-! ## Plain scalars -/

/-- Whether a plain scalar ends before `c`. -/
def endsPlain (inFlow : Bool) (c : Char) (rest : List Char) : Bool :=
  (c = ':' && atSpace rest) || (inFlow && [',', '?', '[', ']', '\x7b', '\x7d'].contains c)

structure Plain where
  text : List Char
  /-- Whether lines have ended between its last character and the rest. -/
  broken : Bool
  rest : Rest
  deriving DecidableEq, Repr

/-- Goes on with a plain scalar after `acc`, its characters in reverse, and the gap `g`. In a
block, lines that begin before the column `margin` do not belong to it. -/
def plainFrom (inFlow : Bool) (margin : Nat) (start : Mark) :
    (acc : List Char) → Gap → Mark → List Char → Except Fault Plain
  | acc, g, m, [] => .ok ⟨acc.reverse, g.broken, ⟨m, []⟩⟩
  | acc, g, m, c :: rest =>
    if c = '\t' && g.broken && m.column < margin then
      .error (.within start m .tabInPlainScalar)
    else if isSpace c then plainFrom inFlow margin start acc (g.push c) (m.past c) rest
    else
      let resumes := g.isEmpty
        || !((!inFlow && m.column < margin) || (m.column = 0 && atMarker (c :: rest)) || c = '#')
      if !resumes || endsPlain inFlow c rest then .ok ⟨acc.reverse, g.broken, ⟨m, c :: rest⟩⟩
      else plainFrom inFlow margin start (c :: (g.chars.reverse ++ acc)) {} (m.past c) rest

def plain (inFlow : Bool) (margin : Nat) (r : Rest) : Except Fault Plain :=
  plainFrom inFlow margin r.mark [] {} r.mark r.chars

/-! ## Quoted scalars -/

inductive Escape where
  | lineBreak
  /-- A character that is written with `size` more. -/
  | char (c : Char) (size : Nat)
  deriving DecidableEq, Repr

def escapeLetter? : Char → Option Char
  | '0' => some '\x00'
  | 'a' => some '\x07'
  | 'b' => some '\x08'
  | 't' => some '\t'
  | '\t' => some '\t'
  | 'n' => some '\n'
  | 'v' => some '\x0B'
  | 'f' => some '\x0C'
  | 'r' => some '\r'
  | 'e' => some '\x1B'
  | ' ' => some ' '
  | '"' => some '"'
  | '\'' => some '\''
  | '\\' => some '\\'
  | 'N' => some '\u0085'
  | '_' => some '\u00A0'
  | 'L' => some '\u2028'
  | 'P' => some '\u2029'
  | _ => none

/-- How many hexadecimal digits a letter announces. -/
def escapeWidth? : Char → Option Nat
  | 'x' => some 2
  | 'u' => some 4
  | 'U' => some 8
  | _ => none

def escape : List Char → Except Problem Escape
  | [] => .error .unknownEscape
  | c :: rest =>
    if isBreak c then .ok .lineBreak
    else match escapeLetter? c, escapeWidth? c with
      | some d, _ => .ok (.char d 1)
      | none, none => .error .unknownEscape
      | none, some width =>
        let digits := rest.take width
        if digits.length < width then .error .escapeDigits
        else match Text.digitsValue? 16 0 digits with
          | none => .error .escapeDigits
          | some n =>
            if n.isValidChar then .ok (.char (Char.ofNat n) (width + 1))
            else .error .escapeCodePoint

/-- Goes on with a quoted scalar after `acc`, its characters in reverse, and the gap `g`; the
first `skip` characters have been taken account of. -/
def quotedFrom (double : Bool) (start : Mark) :
    (skip : Nat) → (acc : List Char) → Gap → Mark → List Char → Except Fault (List Char × Rest)
  | _, _, _, m, [] => .error (.within start m .unclosedQuotes)
  | skip + 1, acc, g, m, c :: rest => quotedFrom double start skip acc g (m.past c) rest
  | 0, acc, g, m, c :: rest =>
    if isSpace c then quotedFrom double start 0 acc (g.push c) (m.past c) rest
    else if m.column = 0 && atMarker (c :: rest) then .error (.within start m .markerInQuotes)
    else
      let acc := g.chars.reverse ++ acc
      if c = '\\' && double then
        match escape rest with
        | .error p => .error (.within start m p)
        | .ok .lineBreak => quotedFrom double start 1 acc { broken := true } (m.past c) rest
        | .ok (.char d size) => quotedFrom double start size (d :: acc) {} (m.past c) rest
      else if c = (if double then '"' else '\'') then
        if !double && rest.head? = some '\'' then
          quotedFrom double start 1 (c :: acc) {} (m.past c) rest
        else .ok (acc.reverse, ⟨m.past c, rest⟩)
      else quotedFrom double start 0 (c :: acc) {} (m.past c) rest

def quoted (r : Rest) : Except Fault (List Char × Rest) :=
  let body := r.drop 1
  quotedFrom (r.peek = '"') r.mark 0 [] {} body.mark body.chars

/-! ## Block scalars -/

/-- Which line breaks at the end of a block belong to it. -/
inductive Chomp where
  | strip
  | clip
  | keep
  deriving DecidableEq, Repr

structure Header where
  chomp : Chomp := .clip
  /-- How much deeper than its parent the block is; if zero, its first line tells. -/
  depth : Nat := 0
  deriving DecidableEq, Repr

def chomp? : Char → Option Chomp
  | '+' => some .keep
  | '-' => some .strip
  | _ => none

def Header.depthOf (r : Rest) : Except Problem (Nat × Rest) :=
  if r.peek.isDigit then
    if r.peek = '0' then .error .zeroIndentation else .ok (r.peek.toNat - 48, r.drop 1)
  else .ok (0, r)

/-- The two indicators of a header may come in either order. -/
def Header.read (r : Rest) : Except Problem (Header × Rest) := do
  match chomp? r.peek with
  | some chomp =>
    let (depth, r) ← depthOf (r.drop 1)
    return ({ chomp, depth }, r)
  | none =>
    let (depth, r) ← depthOf r
    match if depth = 0 then none else chomp? r.peek with
    | some chomp => return ({ chomp, depth }, r.drop 1)
    | none => return ({ depth }, r)

structure Block where
  /-- The column of its lines; zero until that is known. -/
  indent : Nat
  /-- The deepest of the empty lines that precede its first line. -/
  deepest : Nat := 0
  /-- Its characters in reverse. -/
  acc : List Char := []
  /-- The break after the line last read. -/
  last : List Char := []
  /-- The breaks of the empty lines since. -/
  breaks : List Char := []
  /-- Whether that line begins with a blank. -/
  indented : Bool := false
  inLine : Bool := false
  deriving DecidableEq, Repr

namespace Block

/-- Begins a line with the character `c`. Folding joins two lines by a blank unless one of them
begins with a blank or empty lines stand between. -/
def begin (folded : Bool) (b : Block) (c : Char) : Block :=
  let joined := folded && !b.indented && !isBlank c && b.last = ['\n']
  let joint := if joined then (if b.breaks.isEmpty then [' '] else b.breaks)
    else b.last ++ b.breaks
  { b with acc := c :: (joint.reverse ++ b.acc), last := [], breaks := [],
           indented := isBlank c, inLine := true }

def finish (chomp : Chomp) (b : Block) : List Char :=
  b.acc.reverse ++ match chomp with
    | .strip => []
    | .clip => b.last
    | .keep => b.last ++ b.breaks

/-- The column of a block whose first line begins at the column of `m`. -/
def settle (margin : Nat) (b : Block) (m : Mark) : Nat :=
  if b.indent = 0 then max (max b.deepest m.column) (max margin 1) else b.indent

def readFrom (folded : Bool) (chomp : Chomp) (margin : Nat) (start : Mark) :
    Block → Mark → List Char → Except Fault (List Char × Rest)
  | b, m, [] => .ok (b.finish chomp, ⟨m, []⟩)
  | b, m, c :: rest =>
    if b.inLine then
      let b := if isBreak c then { b with last := [c], inLine := false }
        else { b with acc := c :: b.acc }
      readFrom folded chomp margin start b (m.past c) rest
    else if b.indent = 0 || m.column < b.indent then
      if c = ' ' then readFrom folded chomp margin start b (m.past c) rest
      else if c = '\t' then .error (.within start m .tabInBlockScalar)
      else if isBreak c then
        let b := { b with deepest := max b.deepest m.column, breaks := b.breaks ++ [c] }
        readFrom folded chomp margin start b (m.past c) rest
      else
        let indent := b.settle margin m
        if m.column = indent then
          let b := { b with indent }.begin folded c
          readFrom folded chomp margin start b (m.past c) rest
        else .ok (b.finish chomp, ⟨m, c :: rest⟩)
    else if isBreak c then
      readFrom folded chomp margin start { b with breaks := b.breaks ++ [c] } (m.past c) rest
    else readFrom folded chomp margin start (b.begin folded c) (m.past c) rest

end Block

/-- The block scalar that begins with `|` or, if its lines are folded, with `>`; the collection
around it stands one column before `margin`. -/
def blockScalar (margin : Nat) (r : Rest) : Except Fault (List Char × Rest) := do
  let fail {α : Type} (here : Mark) (p : Problem) : Except Fault α := .error (.within r.mark here p)
  let (header, tail) ← match Header.read (r.drop 1) with
    | .ok h => pure h
    | .error p => fail r.mark p
  let tail := tail.dropWhile isBlank
  let tail := if tail.peek = '#' then tail.dropWhile (!isBreak ·) else tail
  if tail.chars.isEmpty || isBreak tail.peek then
    let body := tail.drop 1
    let indent := if header.depth = 0 then 0 else margin - 1 + header.depth
    Block.readFrom (r.peek = '>') header.chomp margin r.mark { indent } body.mark body.chars
  else fail tail.mark .missingCommentOrBreak

end SmallC.Yaml
