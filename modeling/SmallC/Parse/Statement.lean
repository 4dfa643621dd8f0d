import SmallC.Parse.Declaration

/-!
# Statements

An empty statement, an empty block and a declaration without initialisers give the empty tree.
`for` becomes a `while` loop with the last part of its head at the end of the body.
-/

namespace SmallC.Parse

def condition (g : Grammar) : Parse Tree := do
  let _ ← expect .lparen "("
  let t ← g.expression 0
  let _ ← expect .rparen ")"
  return t.asCondition

def loopBody (g : Grammar) : Parse Tree := do
  modify fun s => { s with loops := s.loops + 1 }
  let body ← g.statement
  modify fun s => { s with loops := s.loops - 1 }
  return body

/-- The statement after `else`, if there is one. -/
def elsePart (g : Grammar) : Parse Tree := do
  if ← isAt .elseKw then
    let _ ← advance
    g.statement
  else return .empty

def ifStatement (g : Grammar) : Parse Tree := do
  let line := (← advance).line
  let cond ← condition g
  let yes ← g.statement
  let no ← elsePart g
  return .branch { line } cond yes no

def whileStatement (g : Grammar) : Parse Tree := do
  let line := (← advance).line
  let cond ← condition g
  let body ← loopBody g
  return .loop { line } cond body

/-- A `for` loop with what stands in its head. -/
def forLoop (line : Int64) (first : List Tree) (cond : Tree) (last : List Tree) (body : Tree) : Tree :=
  let inside := if body.isEmpty then last else body :: last
  .block { line } (first ++ [.loop { line } cond (.block { line } inside)])

def forStatement (g : Grammar) : Parse Tree := do
  let line := (← advance).line
  let _ ← expect .lparen "("
  let first ← expressionList g .semicolon
  let _ ← expect .semicolon ";"
  let cond ← g.expression 0
  let _ ← expect .semicolon ";"
  let last ← expressionList g .rparen
  let _ ← expect .rparen ")"
  let body ← loopBody g
  return forLoop line first cond.asCondition last body

def returnType : Parse TypeSpec := do
  let st ← table
  match st.function with
  | some id => return { type := (st.get id).type, ctype := (st.get id).ctype }
  | none => return { type := .none }

/-- The value that a function of a type is left with, if there is one. -/
def returned (g : Grammar) (spec : TypeSpec) (line : Int64) : Parse Tree := do
  if ← isAt .semicolon then return .result { line } .empty
  else
    if spec.type = .void then fail .voidReturn
    let value ← g.expression 0
    let value ← storable value spec.type spec.ctype .incompatibleReturn
    return .result { type := spec.type, line } value

def returnStatement (g : Grammar) : Parse Tree := do
  let line := (← advance).line
  let t ← returned g (← returnType) line
  let _ ← expect .semicolon ";"
  return t

def breakStatement : Parse Tree := do
  let s ← get
  if s.loops = 0 && s.switches = 0 then fail .strayBreak
  let line := (← advance).line
  let _ ← expect .semicolon ";"
  return .breakOut { line }

def continueStatement : Parse Tree := do
  if (← get).loops = 0 then fail .strayContinue
  let line := (← advance).line
  let _ ← expect .semicolon ";"
  return .continueOn { line }

/-! ## Switches -/

/-- The value of an arm, which must be a literal that no arm before has. -/
def armValue (g : Grammar) (seen : List (ArmHead × Tree)) : Parse Int64 := do
  let .intLit _ v ← g.expression 0 | fail .caseNotLiteral
  if seen.any fun arm => arm.1.value = some v then fail .duplicateCase
  return v

def armLabel (g : Grammar) (seen : List (ArmHead × Tree)) (kind : TokenKind) :
    Parse (Option Int64) :=
  if kind = .defaultKw then return none else some <$> armValue g seen

/-- The code of an arm, which is none if another one follows at once. -/
def armBody (g : Grammar) : Parse Tree := do
  if ← isAt .caseKw then return .empty else g.block true

/-- One more arm, or the end of the switch. The arms so far are in reverse. -/
def nextArm (g : Grammar) (seen : List (ArmHead × Tree)) :
    Parse (List (ArmHead × Tree) ⊕ List (ArmHead × Tree)) := do
  if ← isAt .rbrace then return .inr seen.reverse
  let t ← peek
  unless t.kind = .caseKw || t.kind = .defaultKw do fail (.switchToken t.kind)
  if seen.any fun arm => arm.1.value = none then fail .afterDefault
  let _ ← advance
  let value ← armLabel g seen t.kind
  let _ ← expect .colon ":"
  let body ← armBody g
  return .inl (({ info := { line := t.line }, value }, body) :: seen)

def switchStatement (g : Grammar) : Parse Tree := do
  let line := (← advance).line
  let _ ← expect .lparen "("
  let scrutinee ← g.expression 0
  let _ ← expect .rparen ")"
  let _ ← expect .lbrace "\x7b"
  unless scrutinee.type.isInt do fail .switchNotInteger
  modify fun s => { s with switches := s.switches + 1 }
  let arms ← iterate (nextArm g) []
  if arms.isEmpty then fail .noCases
  let _ ← advance
  modify fun s => { s with switches := s.switches - 1 }
  return .switch { line } scrutinee arms

/-! ## The whole -/

/-- A declaration of locals and the assignments of their initialisers. -/
def localDeclaration (g : Grammar) : Parse (List Tree) := do
  let (_, inits) ← declaration g .local .semicolon .eof
  let _ ← expect .semicolon ";"
  return inits

/-- A block, unless there is nothing in it. -/
def blockOf (line : Int64) (stmts : List Tree) : Tree :=
  if stmts.isEmpty then .empty else .block { line } stmts

def statement (g : Grammar) : Parse Tree := do
  let t ← peek
  match t.kind with
  | .semicolon =>
    let _ ← advance
    return .empty
  | .lbrace =>
    let _ ← advance
    let body ← g.block false
    let _ ← expect .rbrace "\x7d"
    return body
  | .ifKw => ifStatement g
  | .whileKw => whileStatement g
  | .forKw => forStatement g
  | .returnKw => returnStatement g
  | .breakKw => breakStatement
  | .continueKw => continueStatement
  | .switchKw => switchStatement g
  | _ =>
    if ← isTypeName then return blockOf t.line (← localDeclaration g)
    let e ← expression g 0
    let _ ← expect .semicolon ";"
    return e

def endsBlock (inSwitch : Bool) : TokenKind → Bool
  | .rbrace => true
  | .caseKw | .defaultKw => inSwitch
  | _ => false

/-- One more statement of a block, or its end. The statements so far are in reverse. -/
def nextStatement (g : Grammar) (inSwitch : Bool) (done : List Tree) :
    Parse (List Tree ⊕ List Tree) := do
  let kind := (← peek).kind
  if endsBlock inSwitch kind then return .inr done.reverse
  if kind = .eof then fail (.expected "\x7d")
  if ← isTypeName then return .inl ((← localDeclaration g).reverse ++ done)
  let t ← statement g
  return .inl (if t.isEmpty then done else t :: done)

def block (g : Grammar) (inSwitch : Bool) : Parse Tree := do
  let line := (← peek).line
  return blockOf line (← iterate (nextStatement g inSwitch) [])

end SmallC.Parse
