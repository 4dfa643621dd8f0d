import SmallC.Files
import SmallC.LineMarker
import SmallC.Preprocess.Line

/-!
# Preprocessing

Lines are kept or skipped by the conditionals around them; what is kept has its macros expanded,
and an included file stands in place of the line that asks for it. Markers say which line of which
file follows, so a position in the output can be told.

A file that is being read cannot be included again. The files that still can be are a parameter
that shrinks on the way in, so includes end. Macros outlive a failure.
-/

namespace SmallC

inductive Chunk where
  /-- Line `line` of `file` follows. -/
  | marker (line : Nat) (file : Text)
  /-- What became of a logical line, and the number of lines that it takes. -/
  | line (file : Text) (number : Nat) (content : Text) (height : Nat)
  deriving DecidableEq, Repr

def Chunk.render : Chunk → Text
  | .marker n file => LineMarker.render n file
  | .line _ _ content height => content ++ List.replicate height '\n'.toUInt8

structure Branch where
  /-- Lines of this branch are kept. -/
  taking : Bool
  /-- Lines around the conditional are kept. -/
  parent : Bool
  hasElse : Bool := false
  /-- Where it was opened. -/
  line : Nat
  deriving DecidableEq, Repr

/-- Whether lines are kept inside the open conditionals, the innermost first. -/
def taking : List Branch → Bool
  | [] => true
  | top :: _ => top.taking

abbrev Preprocess := EStateM Failure Macros

namespace Preprocess

def fail {α : Type} (fault : Fault) (line : Nat) (file : Text) : Preprocess α :=
  throw (.diagnostic { fault := fault, line := Int64.ofNat line, file := file })

def define (name body : Text) : Preprocess Unit :=
  modify (·.insert name { body := body })

/-- The name in the operand of an include, and the paths where it may be. A name in quotes is
looked up next to the file that includes it first; a name in angle brackets only in the
directories. -/
def candidates (dirs : List Text) (file operand : Text) : Except Fault (Text × List Text) :=
  let operand := Text.trim operand
  match operand with
  | first :: second :: rest =>
    let name := (second :: rest).dropLast
    let last := (second :: rest).getLast?
    let paths (dirs : List Text) : List Text := dirs.map fun dir => Path.join dir name
    if first = '"'.toUInt8 && last = some '"'.toUInt8 then
      .ok (name, paths (Path.dir file :: dirs))
    else if first = '<'.toUInt8 && last = some '>'.toUInt8 then .ok (name, paths dirs)
    else .error (.badIncludeOperand operand)
  | _ => .error .badInclude

/-- The file that the operand of an include names, and its content. -/
def findIncluded (files : Files) (dirs : List Text) (file operand : Text) :
    Except Fault (Text × Text) := do
  let (name, paths) ← candidates dirs file operand
  match paths.findSome? fun path => (files.find? path).map fun content => (path, content) with
  | some hit => return hit
  | none => throw (.includeNotFound name)

/-- Where the files that a source asks for may be, whether its conditionals keep them or not. -/
def mentioned (dirs : List Text) (source file : Text) : List Text :=
  (LogicalLine.ofSource source).flatMap fun line =>
    match line.kind with
    | .includeFile operand =>
      match candidates dirs file operand with
      | .ok (_, paths) => paths
      | .error _ => []
    | _ => []

/-- Does what a line other than an include that is kept asks for: the conditionals open after it,
and the text that stays in its place. -/
def step (file : Text) (stack : List Branch) (line : LogicalLine) :
    Preprocess (List Branch × Text) :=
  match line.kind with
  | .text => do
    if taking stack then return (stack, expand (← get) line.content) else return (stack, [])
  | .when name defined => do
    let isDefined := ((← get).find? name).isSome
    let top := {
      taking := taking stack && isDefined == defined, parent := taking stack, line := line.number }
    return (top :: stack, [])
  | .otherwise =>
    match stack with
    | [] => fail .elseWithoutIf line.number file
    | top :: below =>
      if top.hasElse then fail .elseAfterElse line.number file
      else return ({ top with hasElse := true, taking := top.parent && !top.taking } :: below, [])
  | .close =>
    match stack with
    | [] => fail .endifWithoutIf line.number file
    | _ :: below => return (below, [])
  | .includeFile _ => return (stack, [])
  | .define definition => do
    if taking stack then
      match readDefinition definition with
      | .ok (name, m) => modify (·.insert name m)
      | .error (.badName rest) => fail (.badMacroName rest) line.number file
      | .error (.unterminated name) => fail (.unterminatedParameters name) line.number file
    return (stack, [])
  | .undefine name => do
    if taking stack then modify (·.erase name)
    return (stack, [])
  | .other => return (stack, if taking stack then line.content else [])

/-- The file that a line includes, if it is kept. -/
def included? (stack : List Branch) (line : LogicalLine) : Option Text :=
  match line.kind with
  | .includeFile operand => if taking stack then some operand else none
  | _ => none

/-- The paths other than `path`. -/
def without (path : Text) (paths : List Text) : List Text := paths.filter (· ≠ path)

theorem length_without_lt {path : Text} {paths : List Text} (h : path ∈ paths) :
    (without path paths).length < paths.length :=
  List.length_filter_lt_length_iff_exists.2 ⟨path, h, by simp⟩

/-- The output for some lines of a file. `available` are the files that can be included. -/
def lines (files : Files) (dirs available : List Text) (file : Text) (stack : List Branch)
    (rest : List LogicalLine) : Preprocess (List Chunk) :=
  match rest with
  | [] =>
    match stack with
    | [] => return []
    | top :: _ => fail .unterminatedConditional top.line file
  | line :: rest =>
    match included? stack line with
    | none => do
      let (stack, content) ← step file stack line
      let after ← lines files dirs available file stack rest
      return .line file line.number content (line.joined + 1) :: after
    | some operand =>
      match findIncluded files dirs file operand with
      | .error fault => fail fault line.number file
      | .ok (path, source) =>
        if _h : path ∈ available then do
          let others := without path available
          let inside ← lines files dirs others path [] (LogicalLine.ofSource source)
          let after ← lines files dirs available file stack rest
          return .marker 1 path :: inside
            ++ .marker (line.number + line.joined + 1) file :: after
        else throw (.plain (path ++ Text.ofString " includes itself"))
termination_by (available.length, rest.length)
decreasing_by
  · exact .right _ (Nat.lt_succ_self _)
  · exact .left _ _ (length_without_lt _h)
  · exact .right _ (Nat.lt_succ_self _)

def chunks (files : Files) (dirs : List Text) (source file : Text) : Preprocess (List Chunk) := do
  let available := without file files.paths
  return .marker 1 file :: (← lines files dirs available file [] (LogicalLine.ofSource source))

/-- Preprocesses a source as if it had been read from `file`. -/
def source (files : Files) (dirs : List Text) (source file : Text) : Preprocess Text := do
  return (← chunks files dirs source file).flatMap Chunk.render

def file (files : Files) (dirs : List Text) (path : Text) : Preprocess Text :=
  match files.read path with
  | .ok content => source files dirs content path
  | .error e => throw (.during (Text.ofString "reading " ++ path) e)

end Preprocess
end SmallC
