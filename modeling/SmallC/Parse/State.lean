import SmallC.Conversion
import SmallC.Lowering.Function
import SmallC.Symbol.Table

/-!
# Reading tokens

Parsing reads tokens from the front of a list and hands finished pieces on at once: symbols to
their tables, data and code to the emitter, functions to a list. The first diagnostic
ends it, at the token then in front; all that was handed on before stays.

Loops are bounded by the number of tokens at the start, which is larger than the number of rounds
that consume a token each.
-/

namespace SmallC

def TokenKind.beginsType : TokenKind → Bool
  | .voidKw | .charKw | .intKw | .longKw | .structKw | .unionKw | .enumKw | .typedefKw => true
  | _ => false

structure ParseState where
  rest : List Token
  /-- More than the number of tokens at the start. -/
  bound : Nat
  table : SymbolTable
  out : Emitter
  /-- The functions finished so far. -/
  functions : Array Definition := #[]
  /-- How many loops and switches surround the statement at hand. -/
  loops : Int := 0
  switches : Int := 0
  /-- The file that tokens belong to where no line marker names one. -/
  file : Text

abbrev Parse := EStateM Diagnostic ParseState

namespace Parse

def peek : Parse Token := do return (← get).rest.headD default

def peekNext : Parse Token := do return (← get).rest.tail.headD default

def fail {α : Type} (fault : Fault) : Parse α := do
  let t ← peek
  let s ← get
  throw { fault, line := t.line, file := if t.file = [] then s.file else t.file }

def isAt (kind : TokenKind) : Parse Bool := do return (← peek).kind = kind

def advance : Parse Token := do
  let t ← peek
  modify fun s => { s with rest := s.rest.tail }
  return t

def expect (kind : TokenKind) (what : Text) : Parse Token := do
  if ← isAt kind then advance else fail (.expected what)

def skip (kind : TokenKind) : Parse Unit := do
  if ← isAt kind then
    let _ ← advance

def expectIdentifier : Parse Text := do return (← expect .identifier "identifier").lexeme

def ofType {α : Type} : Except TypeFault α → Parse α
  | .ok a => pure a
  | .error e => fail (.lowering (.type e))

def table : Parse SymbolTable := do return (← get).table

def symbol (id : SymId) : Parse Symbol := do return (← get).table.get id

def withTable {α : Type} (f : SymbolTable → α × SymbolTable) : Parse α :=
  modifyGet fun s =>
    let table := s.table
    let s := { s with table := {} }
    let (a, table) := f table
    (a, { s with table })

def modifyTable (f : SymbolTable → SymbolTable) : Parse Unit := withTable fun t => ((), f t)

def emit {α : Type} (code : Lower α) : Parse α := do
  let outcome : Except LowerFault α ← modifyGet fun s =>
    let out := s.out
    let s := { s with out := {} }
    match code out with
    | .ok a out => (.ok a, { s with out })
    | .error e out => (.error e, { s with out })
  match outcome with
  | .ok a => return a
  | .error e => fail (.lowering e)

/-- Repeats a step until it ends, `bound` times at most. -/
def iterateUpTo {α β : Type} (step : α → Parse (α ⊕ β)) : (bound : Nat) → α → Parse β
  | 0, _ => fail .exhausted
  | bound + 1, a => do
    match ← step a with
    | .inl a => iterateUpTo step bound a
    | .inr b => return b

def iterate {α β : Type} (step : α → Parse (α ⊕ β)) (a : α) : Parse β := do
  iterateUpTo step (← get).bound a

def isTypeName : Parse Bool := do
  let t ← peek
  let st ← table
  return t.kind.beginsType || (t.kind = .identifier && (st.findTypedef t.lexeme).isSome)

/-- How the type `l` is adapted to `r`, whose definition is `ctype`. -/
def conversion (l r : CType) (ctype : Option SymId) (op : Op) : Parse (Option Conversion) := do
  ofType (Conversion.between l r ((← table).symbols.definedSize ctype) op)

end Parse

structure TypeSpec where
  type : CType
  ctype : Option SymId := none
  /-- It defines a struct, union, enumeration or type name, and nothing is declared with it. -/
  bare : Bool := false

inductive Referent where
  | constant (v : Int64)
  | symbol (id : SymId)

/-- The parts of the grammar that contain each other. Each may be used once a token has been
consumed. -/
structure Grammar where
  /-- An expression whose operators bind more tightly than a power. -/
  expression : Nat → Parse Tree
  unaryExpression : Parse Tree
  /-- A type with storage class words before it; these change the class. -/
  typeSpec : StorageClass → Parse (TypeSpec × StorageClass)
  /-- A declaration up to one of two tokens, and the assignments of its initialisers. -/
  declaration : StorageClass → TokenKind → TokenKind → Parse (TypeSpec × List Tree)
  statement : Parse Tree
  /-- Statements up to a closing brace, inside a switch also up to the next arm. -/
  block : Bool → Parse Tree
  /-- What a name stands for. -/
  resolve : Text → Parse Referent

end SmallC
