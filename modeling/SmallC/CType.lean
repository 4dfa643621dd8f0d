import SmallC.Text

/-!
# Types

A type is a base kind under a number of pointer levels. The base kinds of the language are six,
and `none` is the type of statements; a tree or symbol that was not built from source may carry
another one, which has a number and nothing else.

Sizes are 64-bit words and wrap. The size of a struct or union is not known here: it comes with
its definition.
-/

namespace SmallC

inductive Base where
  | none
  | void
  | char
  | int
  | long
  | struct
  | union
  | other (index : Int)
  deriving DecidableEq, Repr

structure CType where
  base : Base
  depth : Fin 16 := 0
  deriving DecidableEq, Repr

inductive TypeFault where
  | pointerTo (t : CType)
  | valueAt (t : CType)
  | noSize (t : CType)
  | undefined (t : CType)
  | noClass (t : CType)
  | compositeOperand
  deriving DecidableEq, Repr

namespace Base

def index : Base → Int
  | .none => 0
  | .void => 1
  | .char => 2
  | .int => 3
  | .long => 4
  | .struct => 5
  | .union => 6
  | .other n => n

def ofIndex (n : Int) : Base :=
  if n = 0 then .none
  else if n = 1 then .void
  else if n = 2 then .char
  else if n = 3 then .int
  else if n = 4 then .long
  else if n = 5 then .struct
  else if n = 6 then .union
  else .other n

def name : Base → Text
  | .none => "none"
  | .void => "void"
  | .char => "char"
  | .int => "int"
  | .long => "long"
  | .struct => "struct"
  | .union => "union"
  | .other n => Text.ofString "type" ++ Text.ofInt (16 * n)

end Base

namespace CType

abbrev none : CType := ⟨.none, 0⟩
abbrev void : CType := ⟨.void, 0⟩
abbrev char : CType := ⟨.char, 0⟩
abbrev int : CType := ⟨.int, 0⟩
abbrev long : CType := ⟨.long, 0⟩
abbrev struct : CType := ⟨.struct, 0⟩
abbrev union : CType := ⟨.union, 0⟩
abbrev charPointer : CType := ⟨.char, 1⟩
abbrev voidPointer : CType := ⟨.void, 1⟩
abbrev structPointer : CType := ⟨.struct, 1⟩
abbrev unionPointer : CType := ⟨.union, 1⟩

instance : Inhabited CType := ⟨none⟩

/-- The number of a type: sixteen times its base, plus its depth. -/
def code (t : CType) : Int := 16 * t.base.index + t.depth.val

def ofCode (n : Int) : CType :=
  ⟨Base.ofIndex (n / 16), ⟨(n % 16).toNat, by omega⟩⟩

def isInt (t : CType) : Bool :=
  t = char || t = int || t = long

def isPointer (t : CType) : Bool := t.depth ≠ 0

def isComposite (t : CType) : Bool := t = struct || t = union

def stripped (t : CType) : CType := ⟨t.base, 0⟩

def pointerTo (t : CType) : Except TypeFault CType :=
  if h : t.depth.val < 15 then .ok ⟨t.base, ⟨t.depth.val + 1, by omega⟩⟩
  else .error (.pointerTo t)

def valueAt (t : CType) : Except TypeFault CType :=
  if t.depth.val = 0 then .error (.valueAt t)
  else .ok ⟨t.base, ⟨t.depth.val - 1, by omega⟩⟩

/-- The type one pointer level down; a type without levels has no base. -/
def pointee (t : CType) : CType :=
  match t.valueAt with
  | .ok u => u
  | .error _ => none

def stars (t : CType) : Text := List.replicate t.depth.val '*'.toUInt8

def name (t : CType) : Text :=
  if t.base = .none then Base.name .none else t.base.name ++ t.stars

def scalarSize (t : CType) : Except TypeFault Int64 :=
  if t.isPointer then .ok 8
  else match t.base with
    | .char => .ok 1
    | .int => .ok 4
    | .long => .ok 8
    | _ => .error (.noSize t)

/-- The size of a type, where `defined` is the size of the composite's definition. -/
def size (t : CType) (defined : Option Int64) : Except TypeFault Int64 :=
  if t.isComposite then
    match defined with
    | some n => .ok n
    | .none => .error (.undefined t)
  else t.scalarSize

/-- The nearest suitable offset for `t`, upwards for `dir = 1` and downwards for `dir = -1`: a
char stands anywhere, all else on a multiple of four. -/
def align (t : CType) (offset dir : Int64) : Int64 :=
  if t = char then offset else (offset + dir * 3) &&& ~~~3

end CType

def TypeFault.message : TypeFault → Text
  | .pointerTo t => Text.ofString "unrecognised in pointer_to: type " ++ Text.ofInt t.code
  | .valueAt t => Text.ofString "unrecognised in value_at: type " ++ Text.ofInt t.code
  | .noSize t => Text.ofString "bad type in cgprimsize: " ++ Text.ofInt t.code
  | .undefined t =>
    Text.ofString "composite type " ++ t.name ++ Text.ofString " has no definition"
  | .noClass t => Text.ofString "bad type in cgqbetype: " ++ Text.ofInt t.code
  | .compositeOperand => "Don't know how to do this yet"

end SmallC
