import SmallC.Tree

/-!
# Conversions between types

What has to happen to an expression of one type before it can stand beside, or be stored into,
another type. The answer depends on the two types, the operation, and for pointer arithmetic on
the size of what the pointer points at.

Assignments, returns and initialisers ask with the operation `none`; only there does a `void *`
become any other pointer.
-/

namespace SmallC

inductive Conversion where
  | keep
  | widen
  | scale (size : Int64)
  deriving DecidableEq, Repr

namespace Conversion

def isScalar (t : CType) : Bool := t.isInt || t.isPointer

/-- What integers of different types need: nothing can be made narrower. -/
def betweenInts (l r : CType) : Option Conversion :=
  if l = r then some .keep
  else match l.scalarSize, r.scalarSize with
    | .ok m, .ok n => if m < n then some .widen else none
    | _, _ => none

/-- What an integer beside a pointer needs, where `defined` is the size of the definition that
the pointer is built on. -/
def toPointer (r : CType) (defined : Option Int64) : Except TypeFault Conversion := do
  let size ← r.pointee.size defined
  return if 1 < size then .scale size else .widen

/-- How an expression of type `l` is adapted to type `r` for an operation; none if it cannot be. -/
def between (l r : CType) (defined : Option Int64) (op : Op) :
    Except TypeFault (Option Conversion) :=
  if op.isLogical then
    .ok (if isScalar l && isScalar r then some .keep else none)
  else if l.isComposite || r.isComposite then .error .compositeOperand
  else if l.isInt && r.isInt then .ok (betweenInts l r)
  else if l.isPointer && r.isPointer &&
      (op.isComparison || (op = .none && (l = r || l = .voidPointer))) then
    .ok (some .keep)
  else if op.isAdditive && l.isInt && r.isPointer then
    (toPointer r defined).map some
  else .ok none

end Conversion

def Tree.converted (t : Tree) (c : Conversion) (type : CType) (ctype : Option SymId) : Tree :=
  match c with
  | .keep => t
  | .widen => .widen { type, line := t.line } t
  | .scale size => .scale { type, ctype, line := t.line } t size

def Tree.adapted (t : Tree) (c : Option Conversion) (type : CType) (ctype : Option SymId) : Tree :=
  match c with
  | some c => t.converted c type ctype
  | none => t

end SmallC
