import SmallC.Parse.Expression

/-!
# Declarations

A declaration is a type and names with what surrounds them. Data of file scope is written as soon
as its name and initialiser are read, a function as soon as its body is. Initialisers of locals
become assignments.
-/

namespace SmallC.Parse

/-- Whether a literal of one type is a value of another integer type. -/
def hasRoom (t literal : CType) : Bool :=
  t.isInt && match t.scalarSize, literal.size none with
    | .ok room, .ok needed => needed ≤ room
    | _, _ => false

/-- The value of a folded expression for a variable of a type. For a `char *` it may be a string,
whose value is its label, or zero. A cast changes the type of what it is applied to. -/
def constantValue (t : CType) (tree : Tree) : Except Fault Int64 := do
  let tree := match tree with
    | .cast info operand => operand.withType info.type
    | tree => tree
  let value ← match tree with
    | .intLit _ v => pure v
    | .strLit _ l => pure (Int64.ofInt l)
    | _ => throw .generalInitialiser
  if t = .charPointer && (tree.op = .strLit || value = 0) || hasRoom t tree.type then
    return value
  throw .literalMismatch

/-- A constant for a variable of a type. -/
def constant (g : Grammar) (t : CType) : Parse Int64 := do
  let tree ← expression g 0
  match constantValue t tree.fold with
  | .ok v => return v
  | .error fault => fail fault

/-- The symbol that a declaration of file scope is about, if it was declared before. A symbol
defined here and one declared as defined elsewhere are one if their types agree. -/
def redeclared (storage : StorageClass) (name : Text) (t : CType) (ctype : Option SymId) :
    Parse (Option SymId) := do
  let st ← table
  let some id := st.findGlobal name | return none
  let sym := st.get id
  if (sym.storage = .global && storage = .external)
      || (sym.storage = .external && storage = .global) then
    if t ≠ sym.type then fail (.externMismatch sym.name)
    if (t.base = .struct || t.base = .union) && ctype ≠ sym.ctype then
      fail (.externMismatch sym.name)
    modifyTable fun st => st.update id fun s => { s with storage := .global }
    return some id
  else fail (.duplicateGlobal sym.name)

/-- A symbol of file scope, new or declared before. -/
def fileScopeSymbol (storage : StorageClass) (name : Text) (t : CType) (ctype : Option SymId)
    (kind : Kind) (count : Int64) : Parse SymId := do
  match ← redeclared storage name t ctype with
  | some id => return id
  | none => withTable fun st => st.addGlobal name t ctype kind storage count

def writeData (storage : StorageClass) (id : SymId) : Parse Unit := do
  if storage = .global || storage = .static then
    let st ← table
    emit (Lower.data st.symbols (st.get id))

/-! ## Variables and arrays -/

def scalarSymbol (name : Text) (t : CType) (ctype : Option SymId) (storage : StorageClass) :
    Parse SymId := do
  match storage with
  | .static | .external | .global => fileScopeSymbol storage name t ctype .variable 1
  | .local =>
    let id ← withTable fun st => st.addLocal name t ctype .variable 1
    modifyTable fun st => st.update id fun s => { s with hasAddr := t.isComposite }
    return id
  | .param => withTable fun st => st.addParam name t ctype
  | _ => withTable fun st => st.addMember name t ctype .variable 1

/-- The initialiser of a variable, if there is one: that of a local is an assignment. -/
def initialiser (g : Grammar) (name : Text) (id : SymId) (info : Info) (storage : StorageClass) :
    Parse (Option Tree) := do
  if ← isAt .assign then
    unless storage = .global || storage = .local || storage = .static do
      fail (.notInitialisable name)
    let _ ← advance
    if storage = .local then
      let value ← expression g 0
      let value ← storable value.asRvalue info.type info.ctype .incompatibleAssignment
      return some (.assign { type := value.type, line := info.line } (.ident info id) value)
    else
      let v ← constant g info.type
      modifyTable fun st => st.update id fun s => { s with init := [v] }
      return none
  else return none

/-- A variable, and the assignment of its initialiser if it is a local. -/
def scalar (g : Grammar) (name : Text) (t : CType) (ctype : Option SymId)
    (storage : StorageClass) : Parse (SymId × Option Tree) := do
  let line := (← peek).line
  let id ← scalarSymbol name t ctype storage
  let init ← initialiser g name id { type := t, ctype, line } storage
  writeData storage id
  return (id, init)

/-- The length in brackets, if one is given. -/
def arrayLength (g : Grammar) : Parse (Option Int64) := do
  let _ ← advance
  if ← isAt .rbracket then
    let _ ← advance
    return none
  else
    let n ← constant g .int
    if n ≤ 0 then fail (.arraySize n)
    let _ ← expect .rbracket "]"
    return some n

/-- The values between braces, at most as many as the length given. -/
def arrayValues (g : Grammar) (t : CType) (length : Option Int64) : Parse (List Int64) := do
  let _ ← expect .lbrace "\x7b"
  iterate (fun done => do
    if length = some (Int64.ofNat done.length) then fail .tooManyValues
    let done := (← constant g t) :: done
    if ← isAt .rbrace then
      let _ ← advance
      return .inr done.reverse
    let _ ← expect .comma "comma"
    return .inl done) []

def arraySymbol (name : Text) (t : CType) (ctype : Option SymId) (storage : StorageClass) :
    Parse SymId := do
  match storage with
  | .static | .external | .global => fileScopeSymbol storage name t ctype .array 0
  | .local =>
    let id ← withTable fun st => st.addLocal name t ctype .array 0
    modifyTable fun st => st.update id fun s => { s with hasAddr := true }
    return id
  | _ => fail .arrayParameter

/-- The length of an array of which `length` is given: without one it is as long as its
initialiser. -/
def arrayInitialiser (g : Grammar) (name : Text) (t : CType) (storage : StorageClass)
    (id : SymId) (length : Option Int64) : Parse (Option Int64) := do
  if ← isAt .assign then
    unless storage = .global || storage = .static do fail (.notInitialisable name)
    let _ ← advance
    let values ← arrayValues g t length
    modifyTable fun st => st.update id fun s => { s with init := values }
    return some (max (length.getD (-1)) (Int64.ofNat values.length))
  else return length

/-- An array, whose symbol has the type of a pointer to an element. -/
def array (g : Grammar) (name : Text) (t : CType) (ctype : Option SymId)
    (storage : StorageClass) : Parse SymId := do
  let length ← arrayLength g
  let pointer ← ofType t.pointerTo
  let id ← arraySymbol name pointer ctype storage
  let length ← arrayInitialiser g name t storage id length
  let count := max (length.getD (-1)) 0
  if storage ≠ .external && count = 0 then fail (.emptyArray (← symbol id).name)
  let size ← ofType ((← table).symbols.sizeOf t ctype)
  modifyTable fun st => st.update id fun s => { s with count, size := count * size }
  writeData storage id
  return id

/-! ## Functions -/

/-- Parameters up to the closing parenthesis, checked against those of an earlier declaration. -/
def parameters (g : Grammar) (earlier : Option Symbol) : Parse Nat := do
  let st ← table
  let expected := earlier.map fun f => f.members.map fun id => (st.get id).type
  let count ← iterate (fun (count : Nat) => do
    if ← isAt .rparen then return .inr count
    if (← isAt .voidKw) && (← peekNext).kind = .rparen then
      let _ ← advance
      return .inr 0
    let (spec, _) ← g.declaration .param .comma .rparen
    if spec.bare then fail .parameterType
    if expected.any fun types => types[count]? ≠ some spec.type then
      fail (.prototypeType (count + 1))
    if ← isAt .rparen then return .inr (count + 1)
    let _ ← expect .comma "comma"
    return .inl (count + 1)) 0
  match earlier with
  | some f =>
    if Int64.ofNat count ≠ f.count then fail (.parameterCount f.name)
    return count
  | none => return count

/-- Folds the body of a function, writes its code and forgets its locals. -/
def finishFunction (info : Info) (id : SymId) (body : Tree) : Parse Unit := do
  modify fun s =>
    let definition : Definition :=
      { info, sym := id, locals := s.table.locals, symbols := s.table.symbols, read := body }
    { s with functions := s.functions.push definition }
  let outcome ← modifyGet fun s =>
    let out := s.out
    let table := s.table
    let s := { s with out := {}, table := {} }
    let (outcome, symbols, out) := out.function table.symbols id table.locals body.fold
    (outcome, { s with out, table := { table with symbols } })
  match outcome with
  | .error e => fail (.lowering e)
  | .ok () => modifyTable (·.clearLocals)

/-- A function that returns a value ends with a statement that returns one. -/
def checkReturns (t : CType) (body : Tree) : Parse Unit := do
  if t ≠ .void then
    match body with
    | .block _ stmts =>
      match stmts.getLast? with
      | none => fail .noStatements
      | some (.result ..) => pure ()
      | some _ => fail .noReturn
    | _ => fail .noStatements

/-- The body of a function, whose parameter names count from here on. -/
def functionBody (g : Grammar) (id : SymId) (params : List SymId) (info : Info) (name : Text) :
    Parse Unit := do
  if (← symbol id).defined then fail (.alreadyDefined name)
  modifyTable fun st =>
    { st.update id fun s =>
        { s with
          defined := true, members := params,
          storage := if s.storage = .external then .global else s.storage } with
      function := some id }
  modify fun s => { s with loops := 0, switches := 0 }
  let _ ← expect .lbrace "\x7b"
  let body ← g.block false
  let _ ← expect .rbrace "\x7d"
  checkReturns info.type body
  finishFunction info id body

/-- A symbol for a function, with the label of its end. -/
def newFunction (name : Text) (t : CType) (ctype : Option SymId) (storage : StorageClass) :
    Parse SymId := do
  let id ← withTable fun st => st.addGlobal name t ctype .function storage 0
  let endLabel ← emit Lower.newLabel
  modifyTable fun st => st.update id fun s => { s with endLabel }
  return id

/-- The symbol of a function, which may have been declared before. -/
def functionSymbol (earlier : Option SymId) (name : Text) (t : CType) (ctype : Option SymId)
    (storage : StorageClass) : Parse SymId :=
  match earlier with
  | some id => do
    if (← symbol id).kind ≠ .function then fail (.duplicateGlobal name)
    return id
  | none => newFunction name t ctype storage

/-- A body, unless the declaration ends here. -/
def bodyIfAny (g : Grammar) (id : SymId) (params : List SymId) (info : Info) (name : Text) :
    Parse Unit := do
  if ← isAt .semicolon then return
  functionBody g id params info name

/-- A function, declared or defined. -/
def function (g : Grammar) (name : Text) (t : CType) (ctype : Option SymId)
    (storage : StorageClass) : Parse SymId := do
  let line := (← peek).line
  let st ← table
  let earlier := st.lookup name
  let id ← functionSymbol earlier name t ctype storage
  let _ ← expect .lparen "("
  let count ← parameters g (earlier.map st.get)
  let _ ← expect .rparen ")"
  let params ← withTable (·.takeParams)
  modifyTable fun st =>
    if earlier.isSome then st
    else st.update id fun s => { s with count := Int64.ofNat count, members := params }
  bodyIfAny g id params { type := t, ctype, line } name
  return id

/-! ## The whole -/

def checkName (storage : StorageClass) (name : Text) : Parse Unit := do
  let st ← table
  if storage = .member then
    if (st.findMember name).isSome then fail (.duplicateMember name)
  else if (st.findLocal name).isSome
      || (storage = .param && (st.findIn st.params name).isSome) then
    fail (.duplicateLocal name)

def declarator (g : Grammar) (t : CType) (ctype : Option SymId) (storage : StorageClass) :
    Parse (SymId × Option Tree) := do
  let name ← expectIdentifier
  if ← isAt .lparen then
    unless storage.isFileScope do fail .nestedFunction
    return (← function g name t ctype storage, none)
  checkName storage name
  if ← isAt .lbracket then return (← array g name t ctype storage, none)
  scalar g name t ctype storage

/-- One name of a declaration, and what has been declared if it was the last one. -/
def nextDeclarator (g : Grammar) (spec : TypeSpec) (storage : StorageClass)
    (end1 end2 : TokenKind) (done : List Tree) : Parse (List Tree ⊕ (TypeSpec × List Tree)) := do
  let t ← stars spec.type
  let (id, init) ← declarator g t spec.ctype storage
  let whole : TypeSpec := { type := t, ctype := spec.ctype }
  if (← symbol id).kind = .function then return .inr (whole, done)
  let done := done ++ init.toList
  if (← isAt end1) || (← isAt end2) then return .inr (whole, done)
  let _ ← expect .comma "comma"
  return .inl done

def declaration (g : Grammar) (storage : StorageClass) (end1 end2 : TokenKind) :
    Parse (TypeSpec × List Tree) := do
  let (spec, storage) ← typeSpec g storage
  if spec.bare then return (spec, [])
  iterate (nextDeclarator g spec storage end1 end2) []

end SmallC.Parse
