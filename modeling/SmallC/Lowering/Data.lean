import SmallC.Lowering.Emitter
import SmallC.Symbol

/-!
# Data definitions

A variable or array of file scope becomes one definition with an item for each element. Functions
and declarations of things defined elsewhere become nothing.
-/

namespace SmallC

/-- The first `n` of the values, followed by zeros if there are fewer. -/
def padded : (n : Nat) → List Int64 → List Int64
  | 0, _ => []
  | n + 1, [] => 0 :: padded n []
  | n + 1, v :: vs => v :: padded n vs

/-- An element of the given type and size. A value of a `char *` other than zero is the label of
a string. -/
def Ir.Item.ofValue (t : CType) (size : Int64) (v : Int64) : Ir.Item :=
  if size = 1 then .byte v
  else if size = 4 then .word v
  else if size = 8 then
    if t = .charPointer && v ≠ 0 then .string v else .long v
  else .zeros size

namespace Lower

/-- The definition of a symbol of file scope. -/
def data (ss : Symbols) (s : Symbol) : Lower Unit := do
  if s.kind = .function || s.storage = .external then return
  let isArray := s.kind = .array
  let t := if isArray then s.type.pointee else s.type
  let size ← ofType (if isArray then ss.sizeOf t s.ctype else .ok s.size)
  let align ← ofType (if t.isComposite then .ok 8 else t.scalarSize)
  let count := if isArray then s.count.toInt.toNat else 1
  line (.data (s.storage = .global) s.name align ((padded count s.init).map (.ofValue t size)))

/-- A string that ends in a zero byte. -/
def string (l : Int) (bytes : Text) : Lower Unit := line (.string l bytes)

end Lower
end SmallC
