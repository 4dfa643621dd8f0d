import SmallC.Lowering.Emitter
import SmallC.Symbol

/-!
# Code for single operations

Each function writes the instructions of one operation on values that are already in temporaries
and gives the temporary with the outcome. Where the type of a value has no class, nothing is
written.
-/

namespace SmallC

def Symbol.storageName (s : Symbol) : Ir.Storage :=
  if s.isFileScope then .global s.name else .frame s.name

/-- Whether a variable is read and written through an address. -/
def Symbol.inMemory (s : Symbol) : Bool := s.hasAddr || s.isFileScope

def Op.relation? : Op → Option Ir.Relation
  | .eq => some .eq
  | .ne => some .ne
  | .lt => some .lt
  | .gt => some .gt
  | .le => some .le
  | .ge => some .ge
  | _ => .none

def Op.arith? : Op → Option Ir.Arith
  | .add => some .add
  | .subtract => some .sub
  | .multiply => some .mul
  | .divide => some .div
  | .mod => some .rem
  | .and => some .and
  | .or => some .or
  | .xor => some .xor
  | .lshift => some .shl
  | .rshift => some .shr
  | _ => .none

/-- What is read from memory for a thing of the given size, and the class it then has. -/
def Ir.Load.ofSize? (size : Int64) : Option (Ir.Cls × Ir.Load) :=
  if size = 1 then some (.word, .byte)
  else if size = 4 then some (.word, .word)
  else if size = 8 then some (.long, .long)
  else none

/-- What is written to memory for a thing of the given size. -/
def Ir.Width.ofSize? (size : Int64) : Option Ir.Width :=
  if size = 1 then some .byte
  else if size = 4 then some (.cls .word)
  else if size = 8 then some (.cls .long)
  else none

namespace Lower

open Ir

def setTemp (t : Temp) (c : Cls) (rhs : Rhs) : Lower Unit := instr (.set (.temp t) c rhs)

def loadInt (v : Int64) (t : CType) : Lower Temp := do
  let c ← cls t
  let r ← newTemp
  setTemp r c (.copy (.int v))
  return r

def loadString (l : Int) : Lower Temp := do
  let r ← newTemp
  setTemp r .long (.copy (.string l))
  return r

/-- Reads a thing of the given size at an address into `r`. -/
def loadSized (r : Temp) (size : Int64) (address : Value) : Lower Unit :=
  match Load.ofSize? size with
  | some (c, k) => setTemp r c (.load k address)
  | none => pure ()

def storeSized (size : Int64) (value address : Value) : Lower Unit :=
  match Width.ofSize? size with
  | some w => instr (.store w value address)
  | none => pure ()

/-- Adds `offset` to a variable in memory. -/
def bumpSlot (s : Symbol) (offset : Int64) : Lower Unit := do
  let r ← newTemp
  let address := Value.named s.storageName
  loadSized r s.size address
  match Load.ofSize? s.size with
  | some (c, _) => setTemp r c (.arith .add (.temp r) (.int offset))
  | none => pure ()
  storeSized s.size (.temp r) address

/-- How far `++` and `--` move a value of a type. -/
def stepSize (ss : Symbols) (t : CType) (ctype : Option SymId) (op : Op) :
    Except TypeFault Int64 := do
  let step ← if t.isPointer then ss.sizeOf t.pointee ctype else pure 1
  return if op = .preDec || op = .postDec then -step else step

def stepVar (s : Symbol) (c : Cls) (step : Int64) : Lower Unit :=
  if s.inMemory then bumpSlot s step
  else
    instr (.set (.named s.storageName) c (.arith .add (.named s.storageName) (.int step)))

def stepVarIf (now : Bool) (s : Symbol) (c : Cls) (step : Int64) : Lower Unit :=
  if now then stepVar s c step else pure ()

/-- Reads a variable into `r`. -/
def readVar (r : Temp) (s : Symbol) (c : Cls) : Lower Unit :=
  if s.inMemory then loadSized r s.size (.named s.storageName)
  else setTemp r c (.copy (.named s.storageName))

/-- Reads a variable, stepping it before or after as the operation says. -/
def loadVar (ss : Symbols) (s : Symbol) (op : Op) : Lower Temp := do
  let c ← cls s.type
  let r ← newTemp
  let step ← ofType (stepSize ss s.type s.ctype op)
  stepVarIf (op = .preInc || op = .preDec) s c step
  readVar r s c
  stepVarIf (op = .postInc || op = .postDec) s c step
  return r

/-- Leaves the outcome in the first operand's temporary. -/
def arith (op : Op) (a b : Temp) (t : CType) : Lower Temp := do
  let c ← cls t
  match op.arith? with
  | none => throw (.unknownBinary op)
  | some op =>
    setTemp a c (.arith op (.temp a) (.temp b))
    return a

def unary (op : Op) (a : Temp) (t : CType) : Lower Temp := do
  let c ← cls t
  match op with
  | .negate => setTemp a c (.arith .sub (.int 0) (.temp a))
  | .invert => setTemp a c (.arith .xor (.temp a) (.int (-1)))
  | .logNot => setTemp a c (.compare .eq c (.temp a) (.int 0))
  | _ => throw (.unknownUnary op)
  return a

/-- Puts a constant into a temporary that is already there. -/
def setConstant (r : Temp) (v : Int64) (t : CType) : Lower Unit := do
  setTemp r (← cls t) (.copy (.int v))

/-- Turns a value into 0 or 1. In a branch, a loop or an `&&` it also jumps to `l` if the value
is zero, in an `||` if it is not. -/
def truth (r : Temp) (parent : Op) (l : Int) (t : CType) : Lower Temp := do
  let c ← cls t
  let next ← newLabel
  let outcome ← newTemp
  setTemp outcome .long (.compare .ne c (.temp r) (.int 0))
  match parent with
  | .ifElse | .whileLoop | .logAnd => instr (.branch outcome next l)
  | .logOr => instr (.branch outcome l next)
  | _ => pure ()
  label next
  return outcome

def argClasses : List (Temp × CType) → Lower (List (Cls × Temp))
  | [] => return []
  | (r, t) :: args => do
    let c ← cls t
    return (c, r) :: (← argClasses args)

def call (function : Symbol) (args : List (Temp × CType)) : Lower Temp := do
  let r ← newTemp
  if function.type = .void then
    instr (.call function.name (← argClasses args))
  else
    let c ← cls function.type
    setTemp r c (.call function.name (← argClasses args))
  return r

/-- Shifts a value left by `k` as a long. -/
def shiftLeft (r : Temp) (k : Int64) (t : CType) : Lower Temp := do
  let size ← ofType t.scalarSize
  let wide ← newTemp
  let outcome ← newTemp
  if size < 8 then
    setTemp wide .long (.extend (.signed .word) r)
    setTemp outcome .long (.arith .shl (.temp wide) (.int k))
  else
    setTemp outcome .long (.arith .shl (.temp r) (.int k))
  return outcome

def asLong (r : Temp) (size : Int64) : Lower Temp :=
  if size < 8 then do
    let wide ← newTemp
    setTemp wide .long (.extend (.signed .word) r)
    return some wide
  else return r

/-- Multiplies a value by `k` as a long. -/
def timesConstant (r : Temp) (k : Int64) (t : CType) : Lower Temp := do
  let size ← ofType t.scalarSize
  let wide ← asLong r size
  let factor ← loadInt k .long
  arith .multiply wide factor .long

def storeVar (r : Temp) (s : Symbol) : Lower Unit := do
  let c ← cls s.type
  if s.isFileScope then
    let w := if s.type = .char then Width.byte else .cls c
    instr (.store w (.temp r) (.named (.global s.name)))
  else if s.hasAddr then instr (.store (.cls c) (.temp r) (.named (.frame s.name)))
  else instr (.set (.named (.frame s.name)) c (.copy (.temp r)))

/-- Leaves 1 or 0 in a new temporary. -/
def compare (rel : Relation) (a b : Temp) (t : CType) : Lower Temp := do
  let c ← cls t
  let outcome ← newTemp
  setTemp outcome c (.compare rel c (.temp a) (.temp b))
  return outcome

/-- Jumps to `l` unless the values are equal. -/
def jumpUnlessEqual (a b : Temp) (l : Int) (t : CType) : Lower Unit := do
  let c ← cls t
  let next ← newLabel
  let outcome ← newTemp
  setTemp outcome c (.compare .ne c (.temp a) (.temp b))
  instr (.branch outcome l next)
  label next

/-- Jumps to `l` unless the condition is 1. -/
def jumpUnlessTrue (r : Temp) (l : Int) : Lower Unit := do
  let one ← loadInt 1 .int
  jumpUnlessEqual r one l .int

/-- The test of an arm of a switch on `r`: on to `here` if the value is the arm's, else to `next`.
An arm without a value is for all that come to it. -/
def armTest (r : Temp) (t : CType) (next here : Int) : (value : Option Int64) → Lower Unit
  | some v => do
    let value ← loadInt v t
    jumpUnlessEqual r value next t
    jump here
  | none => pure ()

/-- Makes a value wider: a char has no sign, all else has. A long is already wide enough. -/
def widen (r : Temp) (source target : CType) : Lower Temp := do
  if source = .long || source.isPointer then return r
  let narrow ← cls source
  let wide ← cls target
  let outcome ← newTemp
  if source = .char then setTemp outcome wide (.extend .byte r)
  else setTemp outcome wide (.extend (.signed narrow) r)
  return outcome

def inType (r : Temp) (source target : CType) : Lower Temp :=
  if source = target then return r else widen r source target

/-- Leaves a function with a value, or without one. -/
def leave (r : Temp) (function : Symbol) : Lower Unit := do
  if r.isSome then
    let c ← cls function.type
    instr (.set .result c (.copy (.temp r)))
  jump function.endLabel

def address (s : Symbol) : Lower Temp := do
  let r ← newTemp
  setTemp r .long (.copy (.named s.storageName))
  return r

def loadThrough (r : Temp) (pointer : CType) : Lower Temp := do
  let t ← ofType pointer.valueAt
  match t.scalarSize with
  | .error _ => throw (.loadType pointer)
  | .ok size =>
    let outcome ← newTemp
    loadSized outcome size (.temp r)
    return outcome

def storeThrough (r address : Temp) (t : CType) : Lower Unit :=
  match t.scalarSize with
  | .error _ => throw (.storeType t)
  | .ok size => storeSized size (.temp r) (.temp address)

def move (r target : Temp) (t : CType) : Lower Unit := do
  setTemp target (← cls t) (.copy (.temp r))

/-- Converts a value: between pointers and types of one size nothing happens, a narrower type
copies, a wider one extends. -/
def cast (r : Temp) (source target : CType) : Lower Temp := do
  let copied ← newTemp
  if target.isPointer then
    if source.isPointer then return r
    widen r source target
  else
    let c ← cls target
    let oldSize ← ofType source.scalarSize
    let newSize ← ofType target.scalarSize
    if newSize = oldSize then return r
    else if newSize < oldSize then
      setTemp copied c (.copy (.temp r))
      return copied
    else widen r source target

end Lower
end SmallC
