import SmallC.CType

/-!
# Symbols

A symbol is a named thing that a program declares: a variable, a function, an array, a tag of a
struct or union, a member, an enumerator or a type name. Symbols refer to each other, a struct to
its members and a pointer to the struct it points at, so they are kept in one array and named by
their position in it.
-/

namespace SmallC

inductive Kind where
  | variable
  | function
  | array
  | other
  deriving DecidableEq, Repr

inductive StorageClass where
  | none
  | global
  | local
  | param
  | external
  | static
  | struct
  | union
  | member
  | enumType
  | enumVal
  | typedef
  | other
  deriving DecidableEq, Repr

namespace StorageClass

def all : List StorageClass :=
  [.none, .global, .local, .param, .external, .static, .struct, .union, .member, .enumType,
    .enumVal, .typedef]

def ofCode (n : Int) : StorageClass :=
  if 0 ≤ n then (all[n.toNat]?).getD .other else .other

def name : StorageClass → Text
  | .none => "none"
  | .global => "global"
  | .local => "local"
  | .param => "param"
  | .external => "extern"
  | .static => "static"
  | .struct => "struct"
  | .union => "union"
  | .member => "member"
  | .enumType => "enumtype"
  | .enumVal => "enumval"
  | .typedef => "typedef"
  | .other => "unknown class"

/-- Whether storage of this class is visible outside functions. -/
def isFileScope : StorageClass → Bool
  | .global | .static | .external => true
  | _ => false

end StorageClass

def Kind.ofCode (n : Int) : Kind :=
  if n = 0 then .variable else if n = 1 then .function else if n = 2 then .array else .other

/-- The position of a symbol among all symbols. -/
abbrev SymId := Nat

structure Symbol where
  name : Text
  type : CType := .none
  /-- The definition of the struct or union that the type is built on. -/
  ctype : Option SymId := none
  kind : Kind := .variable
  storage : StorageClass := .none
  size : Int64 := 0
  /-- The length of an array, or the number of parameters of a function. -/
  count : Int64 := 0
  /-- The members of a struct or union, or the parameters of a function. -/
  members : List SymId := []
  /-- Initial values of a global; for a `char *` the labels of strings. -/
  init : List Int64 := []
  /-- The label where a function ends. -/
  endLabel : Int := 0
  /-- Whether a function has a body. -/
  defined : Bool := false
  /-- Whether a local or parameter must have an address. -/
  hasAddr : Bool := false
  /-- Where a member stands in its struct. -/
  offset : Int64 := 0
  /-- The value of an enumerator. -/
  value : Int64 := 0
  deriving DecidableEq, Repr

namespace Symbol

instance : Inhabited Symbol := ⟨{ name := [] }⟩

def isFileScope (s : Symbol) : Bool := s.storage.isFileScope

end Symbol

/-- All symbols, each at the position that names it. -/
abbrev Symbols := Array Symbol

namespace Symbols

def get (ss : Symbols) (id : SymId) : Symbol := (ss[id]?).getD default

def update (ss : Symbols) (id : SymId) (f : Symbol → Symbol) : Symbols := ss.modify id f

def definedSize (ss : Symbols) (ctype : Option SymId) : Option Int64 :=
  ctype.map fun id => (ss.get id).size

def sizeOf (ss : Symbols) (t : CType) (ctype : Option SymId) : Except TypeFault Int64 :=
  t.size (ss.definedSize ctype)

end Symbols
end SmallC
