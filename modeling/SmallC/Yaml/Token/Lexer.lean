import SmallC.Yaml.Scalar
import SmallC.Yaml.Token

/-!
# From characters to tokens

A lexer holds what is left of a document, the tokens so far, the columns of the blocks that are
open, and for the block and for each flow collection around the place reached the token that
may turn out to begin a key. A colon decides: the tokens for the key, and for the mapping if it
begins there, then go before that token. A key has to end on its line, after at most 1024
characters.

Columns are kept as margins: the margin of a block is the column after its own, and zero outside
all blocks.
-/

namespace SmallC.Yaml

structure KeyStart where
  /-- Its position among the tokens. -/
  position : Nat
  /-- Whether nothing else can stand there. -/
  required : Bool
  mark : Mark
  deriving DecidableEq, Repr

/-- Whether a key that begins so could still end at `here`. -/
def KeyStart.reaches (k : KeyStart) (here : Mark) : Bool :=
  here.line ≤ k.mark.line && here.index ≤ k.mark.index + 1024

structure Lexer where
  rest : Rest
  tokens : Array Token := #[]
  margin : Nat := 0
  /-- The margins of the blocks around the innermost one. -/
  outerMargins : List Nat := []
  keyStart : Option KeyStart := none
  /-- One for each flow collection around the place reached. -/
  outerKeyStarts : List (Option KeyStart) := []
  /-- Whether a key may begin here. -/
  keyAllowed : Bool := true
  ended : Bool := false
  deriving Repr

abbrev Lex := EStateM Fault Lexer

namespace Lexer

def inFlow (l : Lexer) : Bool := !l.outerKeyStarts.isEmpty

/-! ## Moving on -/

def fail {α : Type} (start : Mark) (problem : Problem) : Lex α := do
  throw (.within start (← get).rest.mark problem)

def failHere {α : Type} (problem : Problem) : Lex α := do
  fail (← get).rest.mark problem

def take {α : Type} (read : Rest → Except Fault (α × Rest)) : Lex α := do
  match read (← get).rest with
  | .ok (a, rest) =>
    modify ({ · with rest })
    return a
  | .error f => throw f

def skip (n : Nat) : Lex Unit := modify fun l => { l with rest := l.rest.drop n }

def skipWhile (p : Char → Bool) : Lex Unit := modify fun l => { l with rest := l.rest.dropWhile p }

/-- Takes the characters that satisfy `p`. -/
def word (p : Char → Bool) : Lex (List Char) := do
  let taken := (← get).rest.takeWhile p
  skipWhile p
  return taken

def peek : Lex Char := return (← get).rest.peek

def emit (mark : Mark) (kind : TokenKind) : Lex Unit :=
  modify fun l => { l with tokens := l.tokens.push ⟨kind, mark.line⟩ }

def emitAt (position : Nat) (mark : Mark) (kind : TokenKind) : Lex Unit :=
  modify fun l =>
    { l with tokens := l.tokens.insertIdxIfInBounds position ⟨kind, mark.line⟩ }

/-- A token of `n` characters. -/
def emitShort (n : Nat) (kind : TokenKind) : Lex Unit := do
  emit (← get).rest.mark kind
  skip n

def allowKey (b : Bool) : Lex Unit := modify ({ · with keyAllowed := b })

/-! ## White space -/

/-- The length of a comment, with the comments on the lines below it. What stands between
them is passed over with them. -/
def commentsLength : (inComment : Bool) → (taken sure : Nat) → List Char → Nat
  | true, taken, _, [] => taken
  | false, _, sure, [] => sure
  | true, taken, sure, c :: rest =>
    if isBreak c then commentsLength false (taken + 1) taken rest
    else commentsLength true (taken + 1) sure rest
  | false, taken, sure, c :: rest =>
    if c = '#' then commentsLength true (taken + 1) sure rest
    else if isSpace c then commentsLength false (taken + 1) sure rest
    else sure

/-- Passes over blanks, comments and line breaks. A tab may not stand where a key may begin. -/
def skipSpace : Nat → Lex Unit
  | 0 => return
  | fuel + 1 => do
    if (← get).rest.mark.index = 0 && (← peek) = '\uFEFF' then skip 1
    let l ← get
    let tabs := l.inFlow || !l.keyAllowed
    skipWhile fun c => c = ' ' || (tabs && c = '\t')
    if (← peek) = '#' then skip (commentsLength true 0 0 (← get).rest.chars)
    if isBreak (← peek) then
      skip 1
      if !(← get).inFlow then allowKey true
      skipSpace fuel

/-- Passes over a comment on the line of the token before it. -/
def skipLineComment : Lex Unit := do
  let rest := (← get).rest.dropWhile isBlank
  if rest.peek = '#' then modify ({ · with rest := rest.dropWhile (!isBreak ·) })

/-! ## Blocks -/

/-- Opens a block at a column deeper than the innermost one; its token goes to a position. -/
def openBlock (column position : Nat) (mark : Mark) (kind : TokenKind) : Lex Unit := do
  let l ← get
  if !l.inFlow && l.margin ≤ column then
    set { l with margin := column + 1, outerMargins := l.margin :: l.outerMargins }
    emitAt position mark kind

/-- Closes the blocks whose margin is greater than `margin`. -/
def closeBlocks (margin : Nat) (mark : Mark) : Lex Unit := do
  let l ← get
  if !l.inFlow then
    let margins := l.margin :: l.outerMargins
    let closed := margins.takeWhile (margin < ·)
    let kept := margins.dropWhile (margin < ·)
    set { l with
      margin := kept.headD 0, outerMargins := kept.tail,
      tokens := l.tokens ++ List.replicate closed.length (Token.mk .blockEnd mark.line) }

/-! ## Keys -/

def dropKey : Lex Unit := do
  match (← get).keyStart with
  | some k =>
    if k.required then fail k.mark .keyWithoutColon
    modify ({ · with keyStart := none })
  | none => return

def markKey : Lex Unit := do
  if (← get).keyAllowed then
    dropKey
    modify fun l =>
      let required := !l.inFlow && l.margin = l.rest.mark.column + 1
      { l with keyStart := some { position := l.tokens.size, required, mark := l.rest.mark } }

/-- The token that begins the key which a colon ends here. -/
def keyStart? : Lex (Option KeyStart) := do
  let l ← get
  match l.keyStart with
  | none => return none
  | some k =>
    if k.reaches l.rest.mark then return some k
    else
      dropKey
      return none

/-! ## Directives and properties -/

def nameEnd (c : Char) : Bool :=
  isSpace c || ['?', ':', ',', ']', '\x7d', '%', '@', '\x60'].contains c

def anchorName : Lex Text := do
  let start := (← get).rest.mark
  skip 1
  let name ← word isNamePart
  let rest := (← get).rest.chars
  if name.isEmpty || !(rest.isEmpty || nameEnd (rest.headD ' ')) then fail start .anchorName
  return Text.ofChars name

def isTagPart (c : Char) : Bool :=
  isNamePart c || [';', '/', '?', ':', '@', '&', '=', '+', '$', ',', '.', '!', '~', '*', '\'', '(',
    ')', '[', ']', '%'].contains c

/-- The text of a tag whose octets may be written as a percent sign and two digits. The first
`skip` characters have been taken account of, and `owed` octets of a character are to come. -/
def tagText : (skip owed : Nat) → List Char → Except Problem Text
  | _, 0, [] => .ok []
  | _, _ + 1, [] => .error .tagEscape
  | skip + 1, owed, _ :: rest => tagText skip owed rest
  | 0, owed, c :: rest =>
    if c = '%' then
      match if rest.length < 2 then none else Text.digitsValue? 16 0 (rest.take 2) with
      | none => .error .tagEscape
      | some n =>
        let octet := UInt8.ofNat n
        if owed = 0 then
          match octetsAfter? octet with
          | none => .error .tagLeadingOctet
          | some more => do return octet :: (← tagText 2 more rest)
        else if Text.isTail octet then do return octet :: (← tagText 2 (owed - 1) rest)
        else .error .tagTrailingOctet
    else if owed = 0 then do return Text.ofChars [c] ++ (← tagText 0 0 rest)
    else .error .tagEscape

def tagBody (start : Mark) : Lex Text := do
  let body ← word isTagPart
  match tagText 0 0 body with
  | .ok t => return t
  | .error p => fail start p

/-- The handle of a tag, or what could have been one. -/
def tagHandle (start : Mark) : Lex Text := do
  if (← peek) ≠ '!' then fail start .tagHandle
  skip 1
  let name ← word isNamePart
  if (← peek) = '!' then
    skip 1
    return Text.ofChars ('!' :: name ++ ['!'])
  return Text.ofChars ('!' :: name)

def checkSpace (start : Mark) : Lex Unit := do
  if !atSpace (← get).rest.chars then fail start .missingBlankOrBreak

/-- A tag: in angle brackets, with a handle of its own, or with the handle `!`. -/
def tag : Lex TokenKind := do
  let start := (← get).rest.mark
  match (← get).rest.chars with
  | '!' :: '<' :: _ =>
    skip 2
    let body ← tagBody start
    if body.isEmpty then fail start .tagBody
    if (← peek) ≠ '>' then fail start .verbatimTagEnd
    skip 1
    checkSpace start
    return .tag [] body
  | _ =>
    let handle ← tagHandle start
    let body ← tagBody start
    if handle.length > 1 && handle.getLast? = some '!'.toUInt8 then
      if body.isEmpty then fail start .tagBody
      checkSpace start
      return .tag handle body
    checkSpace start
    if handle.length = 1 && body.isEmpty then return .tag [] "!"
    return .tag "!" (handle.drop 1 ++ body)

def versionNumber (start : Mark) : Lex Nat := do
  let digits ← word Char.isDigit
  if digits.isEmpty then fail start .missingVersion
  if digits.length > 2 then fail start .longVersion
  return (Text.digitsValue? 10 0 digits).getD 0

def directive : Lex TokenKind := do
  let start := (← get).rest.mark
  skip 1
  let name ← word isNamePart
  if name.isEmpty then fail start .directiveName
  if !atSpace (← get).rest.chars then fail start .directiveNameEnd
  let kind ←
    if name = "YAML".toList then do
      skipWhile isBlank
      let major ← versionNumber start
      if (← peek) ≠ '.' then fail start .versionDot
      skip 1
      let minor ← versionNumber start
      pure (TokenKind.version major minor)
    else if name = "TAG".toList then do
      skipWhile isBlank
      let handle ← tagHandle start
      if handle.getLast? ≠ some '!'.toUInt8 then fail start .tagHandle
      if !isBlank (← peek) then fail start .missingBlank
      skipWhile isBlank
      let stem ← tagBody start
      if stem.isEmpty then fail start .tagBody
      checkSpace start
      pure (TokenKind.handle handle stem)
    else fail start .unknownDirective
  skipWhile isBlank
  if (← peek) = '#' then skipWhile (!isBreak ·)
  if !(← get).rest.chars.isEmpty then
    if !isBreak (← peek) then fail start .missingCommentOrBreak
    skip 1
  return kind

/-! ## One token -/

def leaveBlocks : Lex Unit := do
  closeBlocks 0 (← get).rest.mark
  dropKey
  allowKey false

def lexEnd : Lex Unit := do
  modify fun l =>
    let m := l.rest.mark
    if m.column = 0 then l
    else { l with rest.mark := { m with line := m.line + 1, column := 0 } }
  leaveBlocks
  emit (← get).rest.mark .streamEnd
  modify ({ · with ended := true })

def lexFlowStart (kind : TokenKind) : Lex Unit := do
  markKey
  modify fun l => { l with keyStart := none, outerKeyStarts := l.keyStart :: l.outerKeyStarts }
  allowKey true
  emitShort 1 kind
  skipLineComment

def lexFlowEnd (kind : TokenKind) : Lex Unit := do
  dropKey
  modify fun l => match l.outerKeyStarts with
    | [] => l
    | k :: outer => { l with keyStart := k, outerKeyStarts := outer }
  allowKey false
  emitShort 1 kind
  skipLineComment

def lexFlowEntry : Lex Unit := do
  dropKey
  allowKey true
  emitShort 1 .flowEntry
  skipLineComment

def lexBlockEntry : Lex Unit := do
  let l ← get
  if !l.inFlow then
    if !l.keyAllowed then failHere .misplacedEntry
    openBlock l.rest.mark.column l.tokens.size l.rest.mark .blockSequenceStart
  dropKey
  allowKey true
  emitShort 1 .blockEntry

def lexKey : Lex Unit := do
  let l ← get
  if !l.inFlow then
    if !l.keyAllowed then failHere .misplacedKey
    openBlock l.rest.mark.column l.tokens.size l.rest.mark .blockMappingStart
  dropKey
  allowKey (!l.inFlow)
  emitShort 1 .key
  skipLineComment

def lexValue : Lex Unit := do
  match ← keyStart? with
  | some k =>
    emitAt k.position k.mark .key
    openBlock k.mark.column k.position k.mark .blockMappingStart
    modify ({ · with keyStart := none })
    allowKey false
  | none =>
    let l ← get
    if !l.inFlow then
      if !l.keyAllowed then failHere .misplacedValue
      openBlock l.rest.mark.column l.tokens.size l.rest.mark .blockMappingStart
    allowKey (!l.inFlow)
  emitShort 1 .value
  skipLineComment

/-- A token that may begin a key, other than a collection. -/
def lexItem (read : Lex TokenKind) : Lex Unit := do
  markKey
  allowKey false
  let mark := (← get).rest.mark
  emit mark (← read)
  skipLineComment

def lexPlain : Lex Unit := do
  markKey
  let l ← get
  allowKey false
  match plain l.inFlow l.margin l.rest with
  | .error f => throw f
  | .ok p =>
    emit l.rest.mark (.scalar (Text.ofChars p.text) true)
    modify ({ · with rest := p.rest })
    if p.broken then allowKey true else skipLineComment

def lexBlockScalar : Lex Unit := do
  dropKey
  allowKey true
  let l ← get
  let text ← take (blockScalar l.margin)
  emit l.rest.mark (.scalar (Text.ofChars text) false)

/-- The characters that mean something at the start of a token, whatever follows them. -/
def indicators : List Char :=
  [',', '[', ']', '\x7b', '\x7d', '#', '&', '*', '!', '|', '>', '\'', '"', '%', '@', '\x60']

def startsPlain (inFlow : Bool) : List Char → Bool
  | [] => false
  | c :: rest =>
    if c = '-' then !atSpace rest
    else if c = '?' || c = ':' then !inFlow && !atSpace rest
    else !isSpace c && !indicators.contains c

def lexToken : Lex Unit := do
  let before := (← get).rest.mark
  skipSpace ((← get).rest.chars.length + 1)
  closeBlocks ((← get).rest.mark.column + 1) before
  let l ← get
  let lineStart := l.rest.mark.column = 0
  match l.rest.chars with
  | [] => lexEnd
  | c :: rest =>
    if lineStart && c = '%' then
      leaveBlocks
      emit l.rest.mark (← directive)
    else if lineStart && atMarker l.rest.chars then
      leaveBlocks
      emitShort 3 (if c = '-' then .documentStart else .documentEnd)
    else if c = '[' then lexFlowStart .flowSequenceStart
    else if c = '\x7b' then lexFlowStart .flowMappingStart
    else if c = ']' then lexFlowEnd .flowSequenceEnd
    else if c = '\x7d' then lexFlowEnd .flowMappingEnd
    else if c = ',' then lexFlowEntry
    else if c = '-' && atSpace rest then lexBlockEntry
    else if c = '?' && (l.inFlow || atSpace rest) then lexKey
    else if c = ':' && (l.inFlow || atSpace rest) then lexValue
    else if c = '*' then lexItem (.reference <$> anchorName)
    else if c = '&' then lexItem (.anchor <$> anchorName)
    else if c = '!' then lexItem tag
    else if (c = '|' || c = '>') && !l.inFlow then lexBlockScalar
    else if c = '\'' || c = '"' then
      lexItem ((fun t => .scalar (Text.ofChars t) false) <$> take quoted)
    else if startsPlain l.inFlow l.rest.chars then lexPlain
    else failHere .noToken

/-! ## All tokens -/

/-- The tokens of a document. Each takes a character at least, so a `fuel` that exceeds their
number by two is enough. -/
def run : (fuel : Nat) → Lexer → Tokens
  | 0, l => { list := l.tokens.toList }
  | fuel + 1, l =>
    if l.ended then { list := l.tokens.toList }
    else match lexToken l with
      | .ok _ l => run fuel l
      | .error f _ =>
        { list := l.tokens.toList, fault := some f,
          undecided := ((l.keyStart :: l.outerKeyStarts).filterMap id).filterMap fun k =>
            if k.reaches l.rest.mark then some k.position else none }

end Lexer

def Tokens.ofChars (cs : List Char) : Tokens :=
  Lexer.run (cs.length + 2) { rest := { chars := cs } }

end SmallC.Yaml
