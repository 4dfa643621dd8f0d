import SmallC.Symbol.Table

/-!
# Listing of symbols

One line for each symbol, the members of a tag and the parameters of a function indented below
it. Members nest no deeper than there are symbols.
-/

namespace SmallC.SymbolTable

/-- The base of a type as the listing names it, with a blank. -/
def listedBase (st : SymbolTable) (s : Symbol) : Text :=
  match s.type.base with
  | .void | .char | .int | .long => s.type.base.name ++ Text.ofString " "
  | .struct | .union =>
    let tag := match s.ctype with
      | some id => (st.get id).name
      | none => s.name
    s.type.base.name ++ Text.ofString " " ++ tag ++ Text.ofString " "
  | _ => "unknown type "

def listedExtent (s : Symbol) : Text :=
  match s.kind with
  | .variable =>
    if s.storage = .enumVal then Text.ofString ", value " ++ Text.ofInt64 s.value
    else Text.ofString ", size " ++ Text.ofInt64 s.size
  | .function => Text.ofString ", " ++ Text.ofInt64 s.count ++ Text.ofString " params"
  | .array =>
    Text.ofString ", " ++ Text.ofInt64 s.count ++ Text.ofString " elems, size "
      ++ Text.ofInt64 s.size
  | .other => []

def kindMark : Kind → Text
  | .function => "()"
  | .array => "[]"
  | _ => []

def listedLine (st : SymbolTable) (s : Symbol) (indent : Nat) : Text :=
  Text.blanks indent ++ st.listedBase s ++ s.type.stars ++ s.name ++ kindMark s.kind
    ++ Text.ofString ": " ++ s.storage.name ++ listedExtent s ++ Text.ofString "\n"

/-- Whether the members of a symbol are listed with it: those of a tag or a function are, those
of a variable stand with its tag. -/
def listsMembers (s : Symbol) : Bool :=
  s.kind = .function || (s.type.isComposite && (s.storage = .struct || s.storage = .union))

def listSymbols (st : SymbolTable) : (depth indent : Nat) → List SymId → Text
  | 0, _, _ => []
  | depth + 1, indent, ids =>
    ids.flatMap fun id =>
      let s := st.get id
      st.listedLine s indent ++
        (if listsMembers s then st.listSymbols depth (indent + 4) s.members else [])

def listTable (st : SymbolTable) (title : Text) (ids : List SymId) : Text :=
  (if ids.isEmpty then [] else title ++ Text.ofString "\n--------\n")
    ++ st.listSymbols (st.symbols.size + 1) 0 ids

/-- The tables of globals, enumerations and type names. -/
def listing (st : SymbolTable) : Text :=
  st.listTable "Global" st.globals ++ Text.ofString "\n"
    ++ st.listTable "Enums" st.enums ++ Text.ofString "\n"
    ++ st.listTable "Typedefs" st.typedefs

end SmallC.SymbolTable
