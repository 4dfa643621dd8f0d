import SmallC.Proofs.Ir.Lines

/-!
# How lines mention variables

A line may mention the variables of a function in several ways: it reserves a slot for one, it loads
from or stores to one, or it reads or writes one as a value.
-/

namespace SmallC

namespace Ir

/-- A way in which a line mentions a name of the frame. -/
inductive Use where
  /-- Room for `count` units of `align` bytes is reserved under the name. -/
  | slot (align : Nat) (count : Int64)
  /-- It comes in as a parameter. -/
  | param (c : Cls)
  /-- It is the address that is loaded from. -/
  | loaded
  /-- It is the address that is stored to. -/
  | stored (w : Width)
  | copied (c : Cls)
  | operand (c : Cls)
  | written (c : Cls)
  deriving DecidableEq, Repr

/-- The class of what a store takes its bytes from. -/
def Width.valueCls : Width → Cls
  | .byte => .word
  | .cls c => c

/-- The name of the frame that a value is, if it is one. -/
@[simp] def Value.uses : Value → Use → List (Text × Use)
  | .named (.frame name), u => [(name, u)]
  | .named (.global _), _ => []
  | .temp _, _ => []
  | .int _, _ => []
  | .string _, _ => []
  | .incoming _, _ => []

@[simp] def Rhs.uses (c : Cls) : Rhs → List (Text × Use)
  | .copy v => v.uses (.copied c)
  | .load _ address => address.uses .loaded
  | .arith _ a b => a.uses (.operand c) ++ b.uses (.operand c)
  | .compare _ d a b => a.uses (.operand d) ++ b.uses (.operand d)
  | .extend _ _ => []
  | .alloc _ _ => []
  | .call _ _ => []

def Dest.uses : Dest → Cls → Rhs → List (Text × Use)
  | .named (.frame name), .long, .alloc align count => [(name, .slot align count)]
  | .named (.frame name), c, rhs => rhs.uses c ++ [(name, .written c)]
  | _, c, rhs => rhs.uses c

def Instr.uses : Instr → List (Text × Use)
  | .set dest c rhs => dest.uses c rhs
  | .store w value address => value.uses (.operand w.valueCls) ++ address.uses (.stored w)
  | .call .. | .jump _ | .branch .. => []

def Line.uses : Line → List (Text × Use)
  | .opening _ _ _ params =>
    params.filterMap fun p => if p.hasAddr then none else some (p.name, .param p.cls)
  | .instr i => i.uses
  | _ => []

/-- How the lines mention names of the frame, in their order. -/
def usesOf (code : List Line) : List (Text × Use) := code.flatMap Line.uses

@[simp] lemma usesOf_nil : usesOf [] = [] := rfl

@[simp] lemma usesOf_cons (line : Line) (code : List Line) :
    usesOf (line :: code) = line.uses ++ usesOf code := rfl

@[simp] lemma usesOf_append (a b : List Line) : usesOf (a ++ b) = usesOf a ++ usesOf b :=
  List.flatMap_append

lemma mem_usesOf_flatten {pieces : List (List Line)} {piece : List Line} (hp : piece ∈ pieces)
    {x : Text × Use} (hx : x ∈ usesOf piece) : x ∈ usesOf pieces.flatten := by
  obtain ⟨line, hl, hx⟩ := List.mem_flatMap.mp hx
  exact List.mem_flatMap.mpr ⟨line, List.mem_flatten.mpr ⟨piece, hp, hl⟩, hx⟩

end Ir

end SmallC
