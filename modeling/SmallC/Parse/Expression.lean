import SmallC.Lowering.Data
import SmallC.Parse.Type

/-!
# Expressions

Binary operators are read by binding power: an operand takes all operators to its right that bind
more tightly than the one to its left. Assignments group to the right. Operands are brought to a
common type as soon as both are known.
-/

namespace SmallC

namespace TokenKind

def power? : TokenKind → Option Nat
  | .assign | .plusAssign | .minusAssign | .starAssign | .slashAssign | .percentAssign => some 10
  | .question => some 15
  | .orLogical => some 20
  | .andLogical => some 30
  | .pipe => some 40
  | .caret => some 50
  | .amp => some 60
  | .equals | .notEquals => some 70
  | .less | .greater | .lessEq | .greaterEq => some 80
  | .shiftLeft | .shiftRight => some 90
  | .plus | .minus => some 100
  | .star | .slash | .percent => some 110
  | _ => none

def isAssignment : TokenKind → Bool
  | .assign | .plusAssign | .minusAssign | .starAssign | .slashAssign | .percentAssign => true
  | _ => false

def binaryOp : TokenKind → Op
  | .assign => .assign | .plusAssign => .asPlus | .minusAssign => .asMinus
  | .starAssign => .asStar | .slashAssign => .asSlash | .percentAssign => .asMod
  | .question => .ternary | .orLogical => .logOr | .andLogical => .logAnd
  | .pipe => .or | .caret => .xor | .amp => .and | .equals => .eq | .notEquals => .ne
  | .less => .lt | .greater => .gt | .lessEq => .le | .greaterEq => .ge
  | .shiftLeft => .lshift | .shiftRight => .rshift | .plus => .add | .minus => .subtract
  | .star => .multiply | .slash => .divide | .percent => .mod
  | _ => .none

def endsExpression : TokenKind → Bool
  | .semicolon | .rparen | .rbracket | .comma | .colon | .rbrace => true
  | _ => false

end TokenKind

namespace Parse

/-! ## Binary operators -/

def storable (value : Tree) (t : CType) (ctype : Option SymId) (fault : Fault) : Parse Tree := do
  match ← conversion value.type t ctype .none with
  | some c => return value.converted c t ctype
  | none => fail fault

def assignment (target value : Tree) (line : Int64) : Parse Tree := do
  unless target.isLvalue do fail .assignToRvalue
  let value ← storable value.asRvalue target.type target.ctype .incompatibleAssignment
  return .assign { type := value.type, line } target value

/-- The operation is done in the wider of two integer types, or in the type of the pointer, and
its outcome is stored as the target's type. -/
def compoundAssignment (op : Op) (target value : Tree) (line : Int64) : Parse Tree := do
  unless target.isLvalue do fail .assignToRvalue
  let value := value.asRvalue
  let left ← conversion target.type value.type value.ctype op
  let right ← conversion value.type target.type target.ctype op
  if left ≠ some .widen && right = none then fail .incompatibleBinary
  let type := if left = some .widen then value.type else target.type
  let value := value.adapted right target.type target.ctype
  return .compound { type, ctype := target.ctype, line } op target value

def binary (op : Op) (left right : Tree) (line : Int64) : Parse Tree := do
  let left := left.asRvalue
  let right := right.asRvalue
  let onLeft ← conversion left.type right.type right.ctype op
  let onRight ← conversion right.type left.type left.ctype op
  if onLeft = none && onRight = none then fail .incompatibleBinary
  let a := left.adapted onLeft right.type right.ctype
  let b := right.adapted onRight left.type left.ctype
  let ctype := left.ctype
  if op.isLogical then return .logical { type := .int, ctype, line } op a b
  else
    let type := if op.isComparison then .int else a.type
    return .binary { type, ctype, line } op a b

/-- The part of `cond ? yes : no` after `yes`. -/
def ternary (g : Grammar) (cond yes : Tree) (line : Int64) : Parse Tree := do
  let _ ← expect .colon ":"
  let no ← g.expression 0
  return .ternary { type := yes.type, ctype := yes.ctype, rvalue := true, line }
    cond.asRvalue.asCondition yes no

/-! ## Operands -/

/-- `left[index]`, which is what stands at `left + index`. -/
def arrayAccess (g : Grammar) (left : Tree) : Parse Tree := do
  unless left.type.isPointer do fail .notArray
  let _ ← advance
  let index ← g.expression 0
  let _ ← expect .rbracket "]"
  unless index.type.isInt do fail .indexNotInteger
  let c ← conversion index.type left.type left.ctype .add
  let index := c.elim .empty fun c => index.converted c left.type left.ctype
  let info : Info := { type := left.type, ctype := left.ctype, line := left.line }
  return .deref { info with type := left.type.pointee } (.binary info .add left.asRvalue index)

/-- The struct or union that a member is taken from, as an address. -/
def memberBase (left : Tree) (viaPointer : Bool) : Parse Tree := do
  if viaPointer then
    unless left.type = .structPointer || left.type = .unionPointer do fail .notCompositePointer
    return left
  else
    unless left.type.isComposite do fail .notComposite
    match left with
    | .ident info sym => return .addrOf info (some sym) .empty
    | .deref info operand => return .addrOf info none operand
    | _ => fail .notComposite

/-- `left.name` or `left->name`, which is what stands at the member's offset. -/
def memberAccess (left : Tree) (viaPointer : Bool) : Parse Tree := do
  let base ← memberBase left viaPointer
  let some composite := base.ctype | fail .notComposite
  let _ ← advance
  let name ← expectIdentifier
  let st ← table
  let some id := st.findIn (st.get composite).members name | fail (.noMember name)
  let member := st.get id
  let type ← ofType member.type.pointerTo
  let line := base.line
  let address := Tree.binary { type, ctype := member.ctype, line } .add base.asRvalue
    (.intLit { type := .long, line } member.offset)
  return .deref { type := member.type, ctype := member.ctype, line } address

/-- The type of a cast, up to its closing parenthesis. -/
def castType (g : Grammar) : Parse TypeSpec := do
  let (spec, _) ← g.typeSpec .none
  let t ← stars spec.type
  if t.isComposite || t = .void then fail .badCast
  return { type := t, ctype := spec.ctype }

def parenthesised (g : Grammar) : Parse Tree := do
  let opening ← advance
  if ← isTypeName then
    let spec ← castType g
    let _ ← expect .rparen ")"
    let operand ← g.unaryExpression
    return .cast { type := spec.type, ctype := spec.ctype, line := opening.line } operand.asRvalue
  else
    let t ← g.expression 0
    let _ ← expect .rparen ")"
    return t

/-- Expressions between commas up to a token, which is left. -/
def expressionList (g : Grammar) (last : TokenKind) : Parse (List Tree) :=
  iterate (fun done => do
    if ← isAt last then return .inr done.reverse
    let t ← g.expression 0
    if ← isAt last then return .inr (t :: done).reverse
    let _ ← expect .comma ","
    return .inl (t :: done)) []

/-- Arguments adapted to parameters, as far as there are parameters. -/
def adaptArgs : (args : List Tree) → (params : List Symbol) → Parse (List Tree)
  | arg :: args, param :: params => do
    let arg ← storable arg param.type param.ctype (.incompatibleArgument param.name)
    return arg :: (← adaptArgs args params)
  | args, _ => return args

def functionCall (g : Grammar) (sym : SymId) (line : Int64) : Parse Tree := do
  let _ ← expect .lparen "("
  let args ← expressionList g .rparen
  let _ ← expect .rparen ")"
  let st ← table
  let function := st.get sym
  let args ← adaptArgs args (function.members.map st.get)
  return .call { type := function.type, ctype := function.ctype, line } sym args

/-- The size of a type, once `sizeof` has been read. -/
def sizeofOperand (g : Grammar) (line : Int64) : Parse Tree := do
  unless ← isAt .lparen do fail .sizeofParenthesis
  let _ ← advance
  let (spec, _) ← g.typeSpec .none
  let t ← stars spec.type
  let size ← ofType ((← table).symbols.sizeOf t spec.ctype)
  let _ ← expect .rparen ")"
  return .intLit { type := .int, line } size

/-- Adjacent string literals make one string. -/
def stringOperand (first : Token) : Parse Tree := do
  let l ← emit Lower.newLabel
  let text ← iterate (fun text => do
    if ← isAt .string then return .inl (text ++ (← advance).lexeme) else return .inr text)
    first.lexeme
  emit (Lower.string l text)
  return .strLit { type := .charPointer, line := first.line } l

/-- A name stands for a constant of an enumeration if there is one of that name. -/
def resolve (name : Text) : Parse Referent := do
  let st ← table
  match st.findEnumVal name with
  | some id => return .constant (st.get id).value
  | none =>
    let some id := st.lookup name | fail (.unknownName name)
    return .symbol id

def identifierOperand (g : Grammar) (t : Token) : Parse Tree := do
  match ← g.resolve t.lexeme with
  | .constant v =>
    let _ ← advance
    return .intLit { type := .int, line := t.line } v
  | .symbol id =>
    let _ ← advance
    let sym ← symbol id
    let info : Info := { type := sym.type, ctype := sym.ctype, line := t.line }
    match sym.kind with
    | .variable => return .ident info id
    | .array => return .addrOf { info with rvalue := true } (some id) .empty
    | _ =>
      unless ← isAt .lparen do fail (.functionWithoutParentheses t.lexeme)
      functionCall g id t.line

def primary (g : Grammar) : Parse Tree := do
  let t ← peek
  match t.kind with
  | .staticKw | .externKw => fail .localStorageClass
  | .sizeofKw =>
    let _ ← advance
    sizeofOperand g t.line
  | .integer =>
    let _ ← advance
    let type := if 0 ≤ t.value && t.value < 256 then CType.char else .int
    return .intLit { type, line := t.line } t.value
  | .string =>
    let _ ← advance
    stringOperand t
  | .identifier => identifierOperand g t
  | .lparen => parenthesised g
  | kind => fail (.noPrimary kind)

/-- Whether an operand ends in `++` or `--`. -/
def isStepped : Tree → Bool
  | .step _ op _ => op = .postInc || op = .postDec
  | _ => false

/-- `++` or `--` after an operand. -/
def stepAfter (operand : Tree) (t : Token) : Parse Tree := do
  if operand.info.rvalue then fail (.stepRvalue t.kind)
  if isStepped operand then fail .stepTwice
  unless operand.isLvalue do fail (.stepNonVariable t.kind)
  let _ ← advance
  let op := if t.kind = .minusMinus then Op.postDec else .postInc
  return .step { type := operand.type, ctype := operand.ctype, line := t.line } op operand

/-- An operand with what follows it: `[]`, `.`, `->`, `++`, `--`. -/
def postfixed (g : Grammar) : Parse Tree := do
  iterate (fun operand => do
    let t ← peek
    match t.kind with
    | .lbracket => return .inl (← arrayAccess g operand)
    | .dot => return .inl (← memberAccess operand false)
    | .arrow => return .inl (← memberAccess operand true)
    | .plusPlus | .minusMinus => return .inl (← stepAfter operand t)
    | _ => return .inr operand) (← primary g)

/-- `&` before an identifier. -/
def addressOf (operand : Tree) (line : Int64) : Parse Tree := do
  match operand with
  | .ident info sym =>
    let type ← ofType info.type.pointerTo
    modifyTable fun st => st.update sym fun s => { s with hasAddr := true }
    return .addrOf { type, ctype := info.ctype, line } (some sym) .empty
  | .addrOf _ (some sym) _ =>
    if (← symbol sym).kind = .array then fail .addressOfArray else fail .addressOfNonIdentifier
  | _ => fail .addressOfNonIdentifier

/-- `*` before a pointer. -/
def contentOf (operand : Tree) : Parse Tree := do
  let operand := operand.asRvalue
  unless operand.type.isPointer do fail .derefNonPointer
  return .deref { type := operand.type.pointee, ctype := operand.ctype, line := operand.line }
    operand

/-- `-`, `~` and `!` before an operand. A char has no sign, so its negation is an int. -/
def unaryOf (kind : TokenKind) (operand : Tree) (line : Int64) : Tree :=
  let operand := operand.asRvalue
  let operand :=
    if kind = .minus && operand.type = .char then operand.withType .int else operand
  let op := if kind = .minus then Op.negate else if kind = .bang then .logNot else .invert
  .unary { type := operand.type, ctype := operand.ctype, line } op operand

/-- `++` or `--` before an identifier. -/
def stepBefore (kind : TokenKind) (operand : Tree) (line : Int64) : Parse Tree := do
  let .ident info _ := operand | fail (.stepNonIdentifier kind)
  let op := if kind = .minusMinus then Op.preDec else .preInc
  return .step { type := info.type, ctype := info.ctype, line } op operand

def unaryExpression (g : Grammar) : Parse Tree := do
  let t ← peek
  match t.kind with
  | .amp =>
    let _ ← advance
    addressOf (← g.unaryExpression) t.line
  | .star =>
    let _ ← advance
    contentOf (← g.unaryExpression)
  | .minus | .tilde | .bang =>
    let _ ← advance
    return unaryOf t.kind (← g.unaryExpression) t.line
  | .plusPlus | .minusMinus =>
    let _ ← advance
    stepBefore t.kind (← g.unaryExpression) t.line
  | _ => postfixed g

/-! ## The whole -/

/-- One operator to the right of `left` and its right operand, or the end of the expression. -/
def continued (g : Grammar) (power : Nat) (left : Tree) : Parse (Tree ⊕ Tree) := do
  let t ← peek
  if t.kind.endsExpression then return .inr left.asRvalue
  let some p := t.kind.power? | fail (.syntaxToken t.kind)
  if p < power || (p = power && !t.kind.isAssignment) then return .inr left.asRvalue
  let _ ← advance
  let right ← g.expression p
  match t.kind with
  | .question => return .inr (← ternary g left right t.line)
  | .assign => return .inl (← assignment left right t.line)
  | kind =>
    if kind.isAssignment then
      return .inl (← compoundAssignment kind.binaryOp left right t.line)
    else return .inl (← binary kind.binaryOp left right t.line)

def expression (g : Grammar) (power : Nat) : Parse Tree := do
  iterate (continued g power) (← unaryExpression g)

end Parse
end SmallC
