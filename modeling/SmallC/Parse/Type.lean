import SmallC.Parse.State

/-!
# Type specifiers

A type at the front of a declaration, of a cast or of `sizeof`: a keyword, a struct, union or
enumeration that is named or defined here, or a type name. Words of storage class may stand before
it, and `typedef` makes a type name.
-/

namespace SmallC.Parse

def storageWords (storage : StorageClass) : Parse StorageClass :=
  iterate (fun storage => do
    match (← peek).kind with
    | .externKw =>
      if storage = .static then fail .externStatic
      let _ ← advance
      return .inl .external
    | .staticKw =>
      if storage = .local then fail .staticLocal
      if storage = .external then fail .externStatic
      let _ ← advance
      return .inl .static
    | _ => return .inr storage) storage

/-- The members of a struct or union up to its closing brace. -/
def memberList (g : Grammar) : Parse Unit :=
  iterate (fun () => do
    if ← isAt .rbrace then return .inr ()
    let (spec, _) ← g.declaration .member .semicolon .rbrace
    if spec.bare then fail .memberType
    skip .semicolon
    return .inl ()) ()

/-- The body of a struct or union. A member may define another one, so the members collected
around it are put aside meanwhile. -/
def compositeBody (g : Grammar) (isUnion : Bool) (name : Text) : Parse SymId := do
  let id ← withTable fun st => if isUnion then st.addUnion name else st.addStruct name
  let _ ← advance
  let outer ← withTable (·.takeMembers)
  memberList g
  let _ ← expect .rbrace "\x7d"
  let members ← withTable (·.takeMembers)
  modifyTable fun st => { st with members := outer }
  if members.isEmpty then fail (.noMembers name)
  ofType (← withTable fun st => st.layout id members)
  return id

/-- The name of a struct, union or enumeration, if it has one. -/
def tag : Parse (Option Text) := do
  if ← isAt .identifier then return some (← advance).lexeme else return none

/-- A struct or union, named or defined. -/
def compositeType (g : Grammar) (isUnion : Bool) : Parse SymId := do
  let _ ← advance
  let name ← tag
  let st ← table
  let known := name.bind fun name => if isUnion then st.findUnion name else st.findStruct name
  let name := name.getD []
  if ← isAt .lbrace then
    if known.isSome then fail (.compositeDefined name)
    compositeBody g isUnion name
  else
    let some id := known | fail (.unknownComposite name)
    return id

/-- The value of an enumerator, `next` if none is given. -/
def enumeratorValue (next : Int64) : Parse Int64 := do
  if ← isAt .assign then
    let _ ← advance
    unless ← isAt .integer do fail .enumeratorValue
    return (← advance).value
  else return next

/-- Enumerators count up from zero or from the last value given. -/
def enumerators : Parse Unit :=
  iterate (fun (value : Int64) => do
    let name ← expectIdentifier
    if ((← table).findEnumVal name).isSome then fail (.enumeratorDefined name)
    let value ← enumeratorValue value
    let _ ← withTable fun st => st.addEnum name .enumVal value
    if ← isAt .rbrace then return .inr ()
    let _ ← expect .comma "comma"
    return .inl (value + 1)) 0

/-- An enumeration, named or defined. -/
def enumType : Parse Unit := do
  let _ ← advance
  let name ← tag
  let st ← table
  let known := name.bind st.findEnumType
  let name := name.getD []
  if ← isAt .lbrace then
    let _ ← advance
    if let some id := known then fail (.enumDefined (st.get id).name)
    let _ ← withTable fun st => st.addEnum name .enumType 0
    enumerators
    let _ ← advance
  else if known.isNone then fail (.unknownEnum name)

def stars (t : CType) : Parse CType :=
  iterate (fun t => do
    if ← isAt .star then
      let t ← ofType t.pointerTo
      let _ ← advance
      return .inl t
    else return .inr t) t

def typedefType (g : Grammar) : Parse TypeSpec := do
  let _ ← advance
  let (spec, storage) ← g.typeSpec .none
  if storage ≠ .none then fail .typedefStorage
  let t ← stars spec.type
  unless ← isAt .identifier do fail (.expected "identifier")
  let name := (← peek).lexeme
  if ((← table).findTypedef name).isSome then fail (.typedefDefined name)
  let _ ← withTable fun st => st.addTypedef name t spec.ctype
  let _ ← advance
  return { type := t, ctype := spec.ctype }

def namedType (name : Text) : Parse TypeSpec := do
  let st ← table
  let some id := st.findTypedef name | fail (.unknownType name)
  let _ ← advance
  return { type := (st.get id).type, ctype := (st.get id).ctype }

def keywordType (t : CType) : Parse TypeSpec := do
  let _ ← advance
  return { type := t }

def orBare (spec : TypeSpec) : Parse TypeSpec := do
  return { spec with bare := ← isAt .semicolon }

def plainType (g : Grammar) : Parse TypeSpec := do
  let t ← peek
  match t.kind with
  | .voidKw => keywordType .void
  | .charKw => keywordType .char
  | .intKw => keywordType .int
  | .longKw => keywordType .long
  | .structKw =>
    let id ← compositeType g false
    orBare { type := .struct, ctype := some id }
  | .unionKw =>
    let id ← compositeType g true
    orBare { type := .union, ctype := some id }
  | .enumKw =>
    enumType
    orBare { type := .int }
  | .typedefKw => orBare (← typedefType g)
  | .identifier => namedType t.lexeme
  | kind => fail (.illegalType kind)

def typeSpec (g : Grammar) (storage : StorageClass) : Parse (TypeSpec × StorageClass) := do
  let storage ← storageWords storage
  let spec ← plainType g
  return (spec, storage)

end SmallC.Parse
