import SmallC.Lowering.Tree
import SmallC.Tree.Fold

/-!
# Code for functions

A function begins with slots for what must have an address: such parameters, such locals, and all
chars among the locals, which from then on count as having one.
-/

namespace SmallC

/-- A function with all that its code comes from. -/
structure Definition where
  info : Info
  sym : SymId
  locals : List SymId
  /-- The symbols when the function is written. -/
  symbols : Symbols
  /-- What it does, as it was read. -/
  read : Tree

def Definition.body (d : Definition) : Tree := d.read.fold

def Definition.tree (d : Definition) : Tree := .function d.info d.sym d.body

namespace Lower

open Ir

def param (p : Symbol) : Lower Param := do
  return { cls := ← cls p.type, name := p.name, hasAddr := p.hasAddr }

/-- The slot of a parameter, if it must have one. -/
def paramSlot (p : Symbol) : Lower Unit :=
  if p.hasAddr then do
    let size ← ofType p.type.scalarSize
    instr (.set (.named (.frame p.name)) .long (.alloc (if size = 8 then 8 else 4) 1))
    storeSized size (.incoming p.name) (.named (.frame p.name))
  else pure ()

/-- The head of a function and the slots of its parameters. -/
def functionHead (ss : Symbols) (function : Symbol) : Lower Unit := do
  let c ← cls function.type
  let params ← function.members.mapM fun id => param (ss.get id)
  line (.opening (function.storage = .global) c function.name params)
  label (← newLabel)
  function.members.forM fun id => paramSlot (ss.get id)

/-- The slots of locals, and the symbols after it. -/
def localSlots : Symbols → List SymId → List Instr × Symbols
  | ss, [] => ([], ss)
  | ss, id :: ids =>
    let s := ss.get id
    let slot (align : Nat) (count : Int64) : Instr :=
      .set (.named (.frame s.name)) .long (.alloc align count)
    if s.hasAddr then
      let (slots, ss) := localSlots ss ids
      (slot 8 ((max s.size 1 + 7) >>> 3) :: slots, ss)
    else if s.type = .char then
      let (slots, ss) := localSlots (ss.update id fun s => { s with hasAddr := true }) ids
      (slot 4 1 :: slots, ss)
    else localSlots ss ids

def functionBody (ss : Symbols) (function : Symbol) (body : Tree) : Lower Unit := do
  let _ ← body.lower ss { function }
  label function.endLabel
  line (.ret (function.type ≠ .void))
  line .closing

end Lower

/-- Writes a function. The symbols after it are given also where its code fails. -/
def Emitter.function (ss : Symbols) (id : SymId) (locals : List SymId) (body : Tree)
    (e : Emitter) : Except LowerFault Unit × Symbols × Emitter :=
  let function := ss.get id
  match Lower.functionHead ss function e with
  | .error fault e => (.error fault, ss, e)
  | .ok _ e =>
    let (slots, ss) := Lower.localSlots ss locals
    let code := do
      slots.forM Lower.instr
      Lower.functionBody ss function body
    match code e with
    | .error fault e => (.error fault, ss, e)
    | .ok _ e => (.ok (), ss, e)

end SmallC
