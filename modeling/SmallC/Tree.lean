import SmallC.Op
import SmallC.Symbol

/-!
# Syntax trees

Expressions and statements are nodes of one kind of tree. Every node carries its type, whether
its value rather than its location is wanted, and its line. `empty` stands for a statement or
operand that is not there.
-/

namespace SmallC

structure Info where
  type : CType := .none
  /-- The definition of the struct or union that the type is built on. -/
  ctype : Option SymId := none
  /-- The value is wanted, not the location. -/
  rvalue : Bool := false
  line : Int64 := 0
  deriving DecidableEq, Repr, Inhabited

/-- What stands before the code of an arm of a switch: the value tested, none for `default`. -/
structure ArmHead where
  info : Info
  value : Option Int64
  deriving DecidableEq, Repr

inductive Tree where
  | empty
  | intLit (info : Info) (value : Int64)
  /-- The address of the string with a label. -/
  | strLit (info : Info) (label : Int)
  | ident (info : Info) (sym : SymId)
  /-- The address of a symbol, or the address that the operand computes. -/
  | addrOf (info : Info) (sym : Option SymId) (operand : Tree)
  /-- What stands at an address, or the address itself when a location is wanted. -/
  | deref (info : Info) (operand : Tree)
  | binary (info : Info) (op : Op) (left right : Tree)
  /-- `&&` and `||`. -/
  | logical (info : Info) (op : Op) (left right : Tree)
  | assign (info : Info) (target value : Tree)
  /-- `target op= value`; the operation is done in the type of the node. -/
  | compound (info : Info) (op : Op) (target value : Tree)
  /-- The operand in the wider type of the node. -/
  | widen (info : Info) (operand : Tree)
  /-- An integer times the size of what a pointer points at. -/
  | scale (info : Info) (operand : Tree) (size : Int64)
  | cast (info : Info) (operand : Tree)
  | unary (info : Info) (op : Op) (operand : Tree)
  /-- Whether the operand differs from zero. -/
  | toBool (info : Info) (operand : Tree)
  /-- `++` and `--` before or after the target. -/
  | step (info : Info) (op : Op) (target : Tree)
  | ternary (info : Info) (cond yes no : Tree)
  | call (info : Info) (sym : SymId) (args : List Tree)
  | block (info : Info) (stmts : List Tree)
  | branch (info : Info) (cond yes no : Tree)
  | loop (info : Info) (cond body : Tree)
  | switch (info : Info) (scrutinee : Tree) (arms : List (ArmHead × Tree))
  | arm (head : ArmHead) (body : Tree)
  | result (info : Info) (value : Tree)
  | breakOut (info : Info)
  | continueOn (info : Info)
  | function (info : Info) (sym : SymId) (body : Tree)

namespace Tree

instance : Inhabited Tree := ⟨.empty⟩

def isEmpty : Tree → Bool
  | .empty => true
  | _ => false

def info : Tree → Info
  | .empty => {}
  | .intLit i _ | .strLit i _ | .ident i _ | .addrOf i _ _ | .deref i _ | .binary i _ _ _
  | .logical i _ _ _ | .assign i _ _ | .compound i _ _ _ | .widen i _ | .scale i _ _
  | .cast i _ | .unary i _ _ | .toBool i _ | .step i _ _ | .ternary i _ _ _ | .call i _ _
  | .block i _ | .branch i _ _ _ | .loop i _ _ | .switch i _ _ | .result i _
  | .breakOut i | .continueOn i | .function i _ _ => i
  | .arm head _ => head.info

def mapInfo (f : Info → Info) : Tree → Tree
  | .empty => .empty
  | .intLit i v => .intLit (f i) v
  | .strLit i l => .strLit (f i) l
  | .ident i s => .ident (f i) s
  | .addrOf i s a => .addrOf (f i) s a
  | .deref i a => .deref (f i) a
  | .binary i op a b => .binary (f i) op a b
  | .logical i op a b => .logical (f i) op a b
  | .assign i a b => .assign (f i) a b
  | .compound i op a b => .compound (f i) op a b
  | .widen i a => .widen (f i) a
  | .scale i a n => .scale (f i) a n
  | .cast i a => .cast (f i) a
  | .unary i op a => .unary (f i) op a
  | .toBool i a => .toBool (f i) a
  | .step i op a => .step (f i) op a
  | .ternary i c a b => .ternary (f i) c a b
  | .call i s as => .call (f i) s as
  | .block i ss => .block (f i) ss
  | .branch i c a b => .branch (f i) c a b
  | .loop i c a => .loop (f i) c a
  | .switch i a arms => .switch (f i) a arms
  | .arm head a => .arm { head with info := f head.info } a
  | .result i a => .result (f i) a
  | .breakOut i => .breakOut (f i)
  | .continueOn i => .continueOn (f i)
  | .function i s a => .function (f i) s a

def asRvalue (t : Tree) : Tree := t.mapInfo fun i => { i with rvalue := true }

def withType (t : Tree) (type : CType) : Tree := t.mapInfo fun i => { i with type }

def type (t : Tree) : CType := t.info.type

def ctype (t : Tree) : Option SymId := t.info.ctype

def line (t : Tree) : Int64 := t.info.line

def op : Tree → Op
  | .empty => .none
  | .intLit .. => .intLit
  | .strLit .. => .strLit
  | .ident .. => .ident
  | .addrOf .. => .addr
  | .deref .. => .deref
  | .binary _ op _ _ => op
  | .logical _ op _ _ => op
  | .assign .. => .assign
  | .compound _ op _ _ => op
  | .widen .. => .widen
  | .scale .. => .scale
  | .cast .. => .cast
  | .unary _ op _ => op
  | .toBool .. => .toBool
  | .step _ op _ => op
  | .ternary .. => .ternary
  | .call .. => .call
  | .block .. => .glue
  | .branch .. => .ifElse
  | .loop .. => .whileLoop
  | .switch .. => .switchOn
  | .arm head _ => if head.value = none then .defaultArm else .caseArm
  | .result .. => .result
  | .breakOut _ => .breakOut
  | .continueOn _ => .continueOn
  | .function .. => .function

/-- Whether a value can be stored where the tree points. -/
def isLvalue : Tree → Bool
  | .ident .. | .deref .. => true
  | _ => false

/-- The tree as a condition: anything but a comparison is tested against zero. -/
def asCondition (t : Tree) : Tree :=
  if t.op.isComparison then t
  else .toBool { type := t.type, ctype := t.ctype, line := t.line } t

end Tree
end SmallC
