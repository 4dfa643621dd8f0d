import SmallC.Fault
import SmallC.Ir.Printer

/-!
# Emitting code

The lines written so far, with the counters of temporaries and labels. Both counters start at
one and are never reset, so a number is given out once. Label 0 is never given out.

A failure ends the work at hand; what was written and counted before it stays.
-/

namespace SmallC

structure Emitter where
  temps : Nat := 0
  labels : Int := 0
  lines : Array Ir.Line := #[]
  deriving Repr

def Emitter.text (e : Emitter) : Text := Ir.render e.lines.toList

abbrev Lower := EStateM LowerFault Emitter

namespace Lower

def line (l : Ir.Line) : Lower Unit := modify fun e => { e with lines := e.lines.push l }

def instr (i : Ir.Instr) : Lower Unit := line (.instr i)

def label (l : Int) : Lower Unit := line (.label l)

def jump (l : Int) : Lower Unit := instr (.jump l)

def newTemp : Lower Nat := do
  modify fun e => { e with temps := e.temps + 1 }
  return (← get).temps

def newLabel : Lower Int := do
  modify fun e => { e with labels := e.labels + 1 }
  return (← get).labels

/-- The label given, or else a new one. -/
def orNewLabel : Option Int → Lower Int
  | some l => pure l
  | none => newLabel

def newLabels : Nat → Lower (List Int)
  | 0 => return []
  | n + 1 => do
    let l ← newLabel
    return l :: (← newLabels n)

def ofType {α : Type} : Except TypeFault α → Lower α
  | .ok a => pure a
  | .error e => throw (.type e)

def cls (t : CType) : Lower Ir.Cls := ofType t.cls

end Lower
end SmallC
