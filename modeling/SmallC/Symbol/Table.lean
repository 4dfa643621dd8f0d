import SmallC.Symbol

/-!
# Symbol tables

One table for each name space: file scope, locals and parameters of the function at hand, members
of the struct or union being defined, tags, enumerations and type names. In a table the first
symbol with a name is the one found.
-/

namespace SmallC

structure SymbolTable where
  symbols : Symbols := #[]
  globals : List SymId := []
  locals : List SymId := []
  /-- Parameters of the function being declared. -/
  params : List SymId := []
  /-- Members of the struct or union being defined. -/
  members : List SymId := []
  structs : List SymId := []
  unions : List SymId := []
  /-- Enumeration types and enumerators. -/
  enums : List SymId := []
  typedefs : List SymId := []
  /-- The function whose body is being compiled. -/
  function : Option SymId := none
  deriving Repr

namespace SymbolTable

def get (st : SymbolTable) (id : SymId) : Symbol := st.symbols.get id

def update (st : SymbolTable) (id : SymId) (f : Symbol → Symbol) : SymbolTable :=
  { st with symbols := st.symbols.update id f }

def create (st : SymbolTable) (s : Symbol) : SymId × SymbolTable :=
  (st.symbols.size, { st with symbols := st.symbols.push s })

/-- The size of `count` things of a type; a struct or union counts once. -/
def storageSize (st : SymbolTable) (t : CType) (ctype : Option SymId) (count : Int64) : Int64 :=
  if t.isPointer || t.isInt then
    match t.scalarSize with
    | .ok n => count * n
    | .error _ => 0
  else if t.isComposite then (st.symbols.definedSize ctype).getD 0
  else 0

def sized (st : SymbolTable) (name : Text) (t : CType) (ctype : Option SymId) (kind : Kind)
    (storage : StorageClass) (count : Int64) : Symbol :=
  { name, type := t, ctype, kind, storage, count, size := st.storageSize t ctype count }

/-! ## Adding -/

def addGlobal (st : SymbolTable) (name : Text) (t : CType) (ctype : Option SymId) (kind : Kind)
    (storage : StorageClass) (count : Int64) : SymId × SymbolTable :=
  let (id, st) := st.create (st.sized name t ctype kind storage count)
  (id, { st with globals := st.globals ++ [id] })

def addLocal (st : SymbolTable) (name : Text) (t : CType) (ctype : Option SymId) (kind : Kind)
    (count : Int64) : SymId × SymbolTable :=
  let (id, st) := st.create (st.sized name t ctype kind .local count)
  (id, { st with locals := st.locals ++ [id] })

def addParam (st : SymbolTable) (name : Text) (t : CType) (ctype : Option SymId) :
    SymId × SymbolTable :=
  let (id, st) := st.create (st.sized name t ctype .variable .param 1)
  (id, { st with params := st.params ++ [id] })

def addMember (st : SymbolTable) (name : Text) (t : CType) (ctype : Option SymId) (kind : Kind)
    (count : Int64) : SymId × SymbolTable :=
  let (id, st) := st.create (st.sized name t ctype kind .member count)
  (id, { st with members := st.members ++ [id] })

def addStruct (st : SymbolTable) (name : Text) : SymId × SymbolTable :=
  let (id, st) := st.create { name, type := .struct, storage := .struct }
  (id, { st with structs := st.structs ++ [id] })

def addUnion (st : SymbolTable) (name : Text) : SymId × SymbolTable :=
  let (id, st) := st.create { name, type := .union, storage := .union }
  (id, { st with unions := st.unions ++ [id] })

def addEnum (st : SymbolTable) (name : Text) (storage : StorageClass) (value : Int64) :
    SymId × SymbolTable :=
  let (id, st) := st.create { name, type := .int, storage, value }
  (id, { st with enums := st.enums ++ [id] })

def addTypedef (st : SymbolTable) (name : Text) (t : CType) (ctype : Option SymId) :
    SymId × SymbolTable :=
  let (id, st) := st.create { name, type := t, ctype, storage := .typedef }
  (id, { st with typedefs := st.typedefs ++ [id] })

/-! ## Finding -/

/-- The first of the symbols `ids` with a name. -/
def findIn (st : SymbolTable) (ids : List SymId) (name : Text) : Option SymId :=
  ids.find? fun id => (st.get id).name = name

def findGlobal (st : SymbolTable) (name : Text) : Option SymId := st.findIn st.globals name

/-- Looks at the parameters of the current function, then at its locals. -/
def findLocal (st : SymbolTable) (name : Text) : Option SymId :=
  let params := match st.function with
    | some f => (st.get f).members
    | none => []
  (st.findIn params name).or (st.findIn st.locals name)

/-- What an identifier stands for: parameters hide locals, locals hide globals. -/
def lookup (st : SymbolTable) (name : Text) : Option SymId :=
  (st.findLocal name).or (st.findGlobal name)

def findMember (st : SymbolTable) (name : Text) : Option SymId := st.findIn st.members name

def findStruct (st : SymbolTable) (name : Text) : Option SymId := st.findIn st.structs name

def findUnion (st : SymbolTable) (name : Text) : Option SymId := st.findIn st.unions name

def findEnum (st : SymbolTable) (storage : StorageClass) (name : Text) : Option SymId :=
  st.enums.find? fun id => (st.get id).name = name ∧ (st.get id).storage = storage

def findEnumType (st : SymbolTable) (name : Text) : Option SymId := st.findEnum .enumType name

def findEnumVal (st : SymbolTable) (name : Text) : Option SymId := st.findEnum .enumVal name

def findTypedef (st : SymbolTable) (name : Text) : Option SymId := st.findIn st.typedefs name

/-! ## Ends of scopes -/

def takeParams (st : SymbolTable) : List SymId × SymbolTable :=
  (st.params, { st with params := [] })

def takeMembers (st : SymbolTable) : List SymId × SymbolTable :=
  (st.members, { st with members := [] })

def clearLocals (st : SymbolTable) : SymbolTable :=
  { st with locals := [], params := [], function := none }

/-- Drops what only one file can see. -/
def purgeStatics (st : SymbolTable) : SymbolTable :=
  { st with globals := st.globals.filter fun id => (st.get id).storage ≠ .static }

/-! ## Layout of structs and unions -/

/-- Where a member of the given type and size goes in a struct whose members so far end at
`used`, and where they end with it. The first member stands at offset 0. -/
def placeMember (isUnion isFirst : Bool) (t : CType) (size used : Int64) : Int64 × Int64 :=
  if isUnion then (0, max used size)
  else if isFirst then (0, size)
  else
    let offset := t.align used 1
    (offset, offset + size)

/-- Gives members their offsets one after another and ends with the size of the whole. Members
before one without a size keep their offsets. -/
def layOut (isUnion : Bool) :
    (isFirst : Bool) → (used : Int64) → List SymId → SymbolTable →
      Except TypeFault Int64 × SymbolTable
  | _, used, [], st => (.ok used, st)
  | isFirst, used, m :: ms, st =>
    let member := st.get m
    match st.symbols.sizeOf member.type member.ctype with
    | .error e => (.error e, st)
    | .ok size =>
      let (offset, used) := placeMember isUnion isFirst member.type size used
      layOut isUnion false used ms (st.update m fun s => { s with offset })

def layout (st : SymbolTable) (composite : SymId) (members : List SymId) :
    Except TypeFault Unit × SymbolTable :=
  match layOut ((st.get composite).type = .union) true 0 members st with
  | (.error e, st) => (.error e, st)
  | (.ok size, st) => (.ok (), st.update composite fun s => { s with members, size })

end SymbolTable
end SmallC
