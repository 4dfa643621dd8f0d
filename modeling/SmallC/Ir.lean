import SmallC.CType

/-!
# Intermediate code

The code of a file is a list of lines: data definitions, and functions made of labels and
instructions on temporaries. Temporaries are numbered and may be set more than once; a value that
is not there is the temporary without a number. Names of file scope and of a frame are told
apart.

An instruction works on 32-bit words or on 64-bit longs; the class `blank` is that of no value.
-/

namespace SmallC

/-- A numbered temporary, or none. -/
abbrev Temp := Option Nat

namespace Ir

inductive Cls where
  | word
  | long
  | blank
  deriving DecidableEq, Repr

inductive Storage where
  | global (name : Text)
  | frame (name : Text)
  deriving DecidableEq, Repr

inductive Value where
  | temp (t : Temp)
  | named (s : Storage)
  | int (v : Int64)
  | string (l : Int)
  /-- A parameter before it is copied to its slot. -/
  | incoming (name : Text)
  deriving DecidableEq, Repr

inductive Dest where
  | temp (t : Temp)
  | named (s : Storage)
  /-- What the function returns. -/
  | result
  deriving DecidableEq, Repr

inductive Arith where
  | add | sub | mul | div | rem | and | or | xor | shl | shr
  deriving DecidableEq, Repr

inductive Relation where
  | eq | ne | lt | gt | le | ge
  deriving DecidableEq, Repr

/-- The relation that holds exactly when this one does not. -/
def Relation.negated : Relation → Relation
  | .eq => .ne
  | .ne => .eq
  | .lt => .ge
  | .gt => .le
  | .le => .gt
  | .ge => .lt

/-- How a value is read from memory: a byte without sign, a word with sign, a long. -/
inductive Load where
  | byte | word | long
  deriving DecidableEq, Repr

inductive Width where
  | byte
  | cls (c : Cls)
  deriving DecidableEq, Repr

/-- How a value is made wider: a byte without sign, or a value of a class with sign. -/
inductive Extend where
  | byte
  | signed (c : Cls)
  deriving DecidableEq, Repr

inductive Rhs where
  | copy (v : Value)
  | load (k : Load) (address : Value)
  | arith (op : Arith) (a b : Value)
  | compare (r : Relation) (c : Cls) (a b : Value)
  | extend (k : Extend) (t : Temp)
  /-- Room for `count` units of `align` bytes. -/
  | alloc (align : Nat) (count : Int64)
  | call (function : Text) (args : List (Cls × Temp))
  deriving DecidableEq, Repr

inductive Instr where
  | set (dest : Dest) (c : Cls) (rhs : Rhs)
  | call (function : Text) (args : List (Cls × Temp))
  | store (w : Width) (value address : Value)
  | jump (l : Int)
  /-- To the first label if the temporary is not zero, else to the second. -/
  | branch (t : Temp) (yes no : Int)
  deriving DecidableEq, Repr

inductive Item where
  | byte (v : Int64)
  | word (v : Int64)
  | long (v : Int64)
  /-- The address of the string with a label. -/
  | string (l : Int64)
  | zeros (size : Int64)
  deriving DecidableEq, Repr

/-- A parameter in the head of a function; one with an address comes in under another name. -/
structure Param where
  cls : Cls
  name : Text
  hasAddr : Bool
  deriving DecidableEq, Repr

inductive Line where
  | data (exported : Bool) (name : Text) (align : Int64) (items : List Item)
  | string (l : Int) (bytes : Text)
  | opening (exported : Bool) (c : Cls) (name : Text) (params : List Param)
  | label (l : Int)
  | instr (i : Instr)
  | ret (withValue : Bool)
  | closing
  deriving DecidableEq, Repr

end Ir

def CType.cls (t : CType) : Except TypeFault Ir.Cls :=
  if t.isPointer then .ok .long
  else match t.base with
    | .void => .ok .blank
    | .char | .int => .ok .word
    | .long => .ok .long
    | _ => .error (.noClass t)

end SmallC
