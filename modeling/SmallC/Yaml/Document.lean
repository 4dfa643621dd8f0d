import SmallC.Yaml.Node
import SmallC.Yaml.Token.Lexer

/-!
# From tokens to a document

The first document of a text. Its tokens are read in order, and a node is read with the
properties before it and the nodes within it. Reading looks two tokens ahead: a fault among
these, or one that leaves open whether a token begins a key, comes before any other.

Nodes are nested less deeply than there are tokens, and no collection has more entries; both
recursions are bounded so.
-/

namespace SmallC.Yaml

/-- Where the reading of a document is. -/
structure Reading where
  tokens : List Token
  /-- How many tokens came before. -/
  position : Nat := 0
  fault : Option Fault := none
  undecided : List Nat := []
  /-- What tag handles stand for. -/
  handles : List (Text × Text) := []
  /-- The numbers of anchored nodes by name, the last first. -/
  anchors : List (Text × Nat) := []
  anchored : Array Node := #[]
  references : Nat := 0
  deriving Repr

abbrev Read := EStateM Fault Reading

namespace Reading

def peek : Read Token := do
  let s ← get
  match s.fault, s.tokens with
  | some f, t :: _ :: _ :: _ => if s.undecided.contains s.position then throw f else return t
  | some f, _ => throw f
  | none, t :: _ => return t
  | none, [] => return ⟨.streamEnd, 0⟩

def advance : Read Unit :=
  modify fun s => { s with tokens := s.tokens.tail, position := s.position + 1 }

/-- The next token, if it satisfies `p`, is passed over. -/
def skipIf (p : TokenKind → Bool) : Read Bool := do
  let t ← peek
  if p t.kind then
    advance
    return true
  return false

def fail {α : Type} (start here : Nat) (problem : Problem) : Read α :=
  throw (.among start here problem)

/-- A scalar that is not written. -/
def unwritten (line : Nat) : Node := .scalar (line + 1) Tag.null []

/-- The node read by `child`, unless one of the given tokens comes in its place. -/
def childUnless (stops : List TokenKind) (line : Option Nat) (child : Read Node) : Read Node := do
  let t ← peek
  if stops.contains t.kind then return unwritten (line.getD t.line) else child

/-! ## Collections -/

/-- The items of a block sequence up to its end; `start` is its line. -/
def blockItems (child : Read Node) (start : Nat) : (fuel : Nat) → Read (List Node)
  | 0 => return []
  | fuel + 1 => do
    let t ← peek
    match t.kind with
    | .blockEntry =>
      advance
      let item ← childUnless [.blockEntry, .blockEnd] t.line child
      return item :: (← blockItems child start fuel)
    | .blockEnd =>
      advance
      return []
    | _ => fail start t.line .missingEntry

/-- The items of a sequence that stands in the column of the key before it. -/
def flushItems (child : Read Node) : (fuel : Nat) → Read (List Node)
  | 0 => return []
  | fuel + 1 => do
    let t ← peek
    if t.kind = .blockEntry then
      advance
      let item ← childUnless [.blockEntry, .key, .value, .blockEnd] t.line child
      return item :: (← flushItems child fuel)
    return []

def blockEntries (child : Read Node) (start : Nat) : (fuel : Nat) → Read (List (Node × Node))
  | 0 => return []
  | fuel + 1 => do
    let t ← peek
    match t.kind with
    | .key =>
      advance
      let key ← childUnless [.key, .value, .blockEnd] t.line child
      let u ← peek
      let value ←
        if u.kind = .value then
          advance
          childUnless [.key, .value, .blockEnd] u.line child
        else pure (unwritten u.line)
      return (key, value) :: (← blockEntries child start fuel)
    | .blockEnd =>
      advance
      return []
    | _ => fail start t.line .missingKey

/-- Passes over the comma that divides entries of a flow collection. -/
def separator (first : Bool) (close : Char) (start : Nat) : Read Unit := do
  if !first then
    let t ← peek
    if t.kind ≠ .flowEntry then fail start t.line (.missingSeparator close)
    advance

/-- The value of an entry of a flow collection that ends with the token `close`. -/
def flowValue (child : Read Node) (close : TokenKind) : Read Node := do
  let t ← peek
  if t.kind = .value then
    advance
    childUnless [.flowEntry, close] none child
  else return unwritten t.line

/-- A mapping of one entry, without braces, among the items of a flow sequence. -/
def flowPair (child : Read Node) (line : Nat) : Read Node := do
  let t ← peek
  let key ←
    if [.value, .flowEntry, .flowSequenceEnd].contains t.kind then
      advance
      pure (unwritten t.line)
    else child
  let value ← flowValue child .flowSequenceEnd
  return .mapping (line + 1) Tag.map [(key, value)]

def flowItems (child : Read Node) (start : Nat) :
    (fuel : Nat) → (first : Bool) → Read (List Node)
  | 0, _ => return []
  | fuel + 1, first => do
    if ← skipIf (· = .flowSequenceEnd) then return []
    separator first ']' start
    if ← skipIf (· = .flowSequenceEnd) then return []
    let t ← peek
    let item ←
      if t.kind = .key then
        advance
        flowPair child t.line
      else child
    return item :: (← flowItems child start fuel false)

def flowEntries (child : Read Node) (start : Nat) :
    (fuel : Nat) → (first : Bool) → Read (List (Node × Node))
  | 0, _ => return []
  | fuel + 1, first => do
    if ← skipIf (· = .flowMappingEnd) then return []
    separator first '\x7d' start
    if ← skipIf (· = .flowMappingEnd) then return []
    let t ← peek
    let entry ←
      if t.kind = .key then
        advance
        let key ← childUnless [.value, .flowEntry, .flowMappingEnd] none child
        pure (key, ← flowValue child .flowMappingEnd)
      else
        let key ← child
        pure (key, unwritten (← peek).line)
    return entry :: (← flowEntries child start fuel false)

/-! ## Nodes -/

structure Properties where
  anchor : Option Text := none
  /-- Handle, suffix and line of the tag. -/
  tag : Option (Text × Text × Nat) := none

def anchor? : Read (Option Text) := do
  match (← peek).kind with
  | .anchor name =>
    advance
    return some name
  | _ => return none

def tag? : Read (Option (Text × Text × Nat)) := do
  let t ← peek
  match t.kind with
  | .tag handle suffix =>
    advance
    return some (handle, suffix, t.line)
  | _ => return none

/-- An anchor and a tag, in either order. -/
def properties : Read Properties := do
  match ← anchor? with
  | some name => return { anchor := name, tag := ← tag? }
  | none =>
    match ← tag? with
    | some tag => return { tag, anchor := ← anchor? }
    | none => return {}

/-- The tag of a node whose properties begin on the line `start`. Without one, or if it is but an
exclamation mark, the implied tag holds. -/
def Properties.tagOr (p : Properties) (start : Nat) (implied : Tag) : Read Tag := do
  match p.tag with
  | none => return implied
  | some ([], suffix, _) =>
    return if suffix = Text.ofString "!" then implied else Tag.short suffix
  | some (handle, suffix, line) =>
    match (← get).handles.lookup handle with
    | some stem => return Tag.short (stem ++ suffix)
    | none => fail start line .undefinedHandle

/-- Reads a node with `read`; references within it may already refer to it. -/
def anchoring (p : Properties) (read : Read Node) : Read Node := do
  match p.anchor with
  | none => read
  | some name =>
    let number := (← get).anchored.size
    modify fun s => { s with
      anchors := (name, number) :: s.anchors, anchored := s.anchored.push (unwritten 0) }
    let node ← read
    modify fun s => { s with anchored := s.anchored.setIfInBounds number node }
    return node

def reference (line : Nat) (name : Text) : Read Node := do
  match (← get).anchors.lookup name with
  | none => throw { problem := .unknownAnchor name }
  | some target =>
    let number := (← get).references
    modify ({ · with references := number + 1 })
    return .reference (line + 1) name number target

/-- A node. Block collections occur only within blocks, and a sequence in the column of a key
only after that key. -/
def node : (fuel : Nat) → (inBlock afterKey : Bool) → Read Node
  | 0, _, _ => return unwritten 0
  | fuel + 1, inBlock, afterKey => do
    let first ← peek
    if let .reference name := first.kind then
      advance
      return ← reference first.line name
    let line := first.line + 1
    let p ← properties
    let t ← peek
    let implied := match t.kind with
      | .blockEntry => if afterKey then Tag.seq else Tag.null
      | .flowSequenceStart | .blockSequenceStart => Tag.seq
      | .flowMappingStart | .blockMappingStart => Tag.map
      | .scalar text isPlain => if isPlain then Tag.ofPlain text else Tag.str
      | _ => Tag.null
    let tag ← p.tagOr first.line implied
    let bound := (← get).tokens.length + 1
    let sequence (items : Read (List Node)) : Read Node :=
      anchoring p do return .sequence line tag (← items)
    let mapping (entries : Read (List (Node × Node))) : Read Node :=
      anchoring p do return .mapping line tag (← entries)
    match t.kind, inBlock, afterKey with
    | .blockEntry, _, true => sequence (flushItems (node fuel true false) bound)
    | .scalar text _, _, _ =>
      advance
      anchoring p do return .scalar line tag text
    | .flowSequenceStart, _, _ =>
      advance
      sequence (flowItems (node fuel false false) t.line bound true)
    | .flowMappingStart, _, _ =>
      advance
      mapping (flowEntries (node fuel false false) t.line bound true)
    | .blockSequenceStart, true, _ =>
      advance
      sequence (blockItems (node fuel true false) t.line bound)
    | .blockMappingStart, true, _ =>
      advance
      mapping (blockEntries (node fuel true true) t.line bound)
    | _, _, _ =>
      if p.anchor.isNone && p.tag.isNone then fail first.line t.line .missingContent
      anchoring p do return .scalar line tag []

/-! ## Documents -/

def directives : (fuel : Nat) → (versioned : Bool) → Read Unit
  | 0, _ => return
  | fuel + 1, versioned => do
    let t ← peek
    match t.kind with
    | .version major minor =>
      if versioned then fail 0 t.line .repeatedVersion
      if major ≠ 1 || minor ≠ 1 then fail 0 t.line .incompatibleVersion
      advance
      directives fuel true
    | .handle name stem =>
      if ((← get).handles.lookup name).isSome then fail 0 t.line .repeatedHandle
      modify fun s => { s with handles := s.handles ++ [(name, stem)] }
      advance
      directives fuel versioned
    | _ => return

def endsDocument : TokenKind → Bool
  | .version .. | .handle .. | .documentStart | .documentEnd | .streamEnd => true
  | _ => false

/-- The handles that need no directive. -/
def commonHandles : List (Text × Text) := [("!", "!"), ("!!", Tag.commonStem)]

def document : Read Document := do
  let bound := (← get).tokens.length
  let t ← peek
  if t.kind = .streamEnd then return {}
  let isExplicit := endsDocument t.kind && t.kind ≠ .documentEnd
  if isExplicit then
    directives (bound + 1) false
    let t ← peek
    if t.kind ≠ .documentStart then fail 0 t.line .missingDocumentStart
    advance
  modify fun s => { s with handles := s.handles ++ commonHandles }
  let t ← peek
  let root ←
    if isExplicit && endsDocument t.kind then pure (unwritten t.line)
    else node (bound + 1) true false
  let _ ← peek
  let s ← get
  return { root, anchored := s.anchored, references := s.references, size := bound }

end Reading

def Document.ofTokens (ts : Tokens) : Except Fault Document :=
  match Reading.document { tokens := ts.list, fault := ts.fault, undecided := ts.undecided } with
  | .ok document _ => .ok document
  | .error f _ => .error f

def Document.read (source : Text) : Except Fault Document :=
  match decode source with
  | .ok chars => Document.ofTokens (.ofChars chars)
  | .error problem => .error { problem }

end SmallC.Yaml
