import SmallC.Lowering.Tree
import SmallC.Proofs.Tree.Flow

/-!
# Classes of temporaries, as a tree tells them

The value of an expression is left in a temporary, and some operations leave their outcome in the
temporary of an operand: arithmetic, `!`, `-` and `~`, the end of `&&` and `||`, a choice, a compound
assignment and a product with the size of what a pointer points at. The class they set it with
comes from a type, and the class it was set with before may be another. A tree is `steady` if they
agree wherever this happens.
-/

namespace SmallC

open Ir

/-- The class of the temporary that a variable is read into; none if reading it takes no code. -/
def Symbol.readClass (s : Symbol) : Option Cls :=
  if s.inMemory then (Load.ofSize? s.size).map Prod.fst else s.type.cls.toOption

/-- A temporary that was set with a class, or not at all, may be set as a value of the type. -/
def CType.agrees (t : CType) (v : Option Cls) : Bool := v.all fun c => t.cls.toOption = some c

namespace Tree

/-- The class of the temporary that what stands at a location is read into. -/
@[simp]
def loadClass (ss : Symbols) : Tree → Option Cls
  | .ident _ s => (ss.get s).readClass
  | .deref i _ => i.type.cls.toOption
  | _ => none

/-- The class that the temporary of a value was last set with; none if it never was. -/
@[simp]
def valueClass (ss : Symbols) : Tree → Option Cls
  | .intLit i _ => i.type.cls.toOption
  | .strLit .. => some .long
  | .ident _ s => (ss.get s).readClass
  | .addrOf _ (some _) _ => some .long
  | .addrOf _ none a => a.valueClass ss
  | .deref i a => if i.rvalue then a.type.pointee.cls.toOption else a.valueClass ss
  | .binary _ op a b => if op.relation?.isSome then a.type.cls.toOption else b.type.cls.toOption
  | .logical _ _ _ b => b.type.cls.toOption
  | .assign _ _ b => b.valueClass ss
  | .compound i _ _ _ => i.type.cls.toOption
  | .widen i a => if a.type.isWide then a.valueClass ss else i.type.cls.toOption
  | .scale .. => some .long
  | .cast i a => if a.type.castsFreely i.type then a.valueClass ss else i.type.cls.toOption
  | .unary _ _ a => a.type.cls.toOption
  | .toBool .. => some .long
  | .step _ _ a => a.loadClass ss
  | .ternary _ _ _ b => b.type.cls.toOption
  | .call _ s _ => if (ss.get s).type = .void then none else (ss.get s).type.cls.toOption
  | _ => none

/-- The class of a value of type `source` once it is converted for an operation in `target`. -/
def convertedClass (v : Option Cls) (source target : CType) : Option Cls :=
  if source = target || source.isWide then v else target.cls.toOption

mutual

/-- No temporary of the code is set with two classes. -/
@[simp]
def steady (ss : Symbols) : Tree → Bool
  | .addrOf _ none a | .deref _ a | .widen _ a | .cast _ a | .toBool _ a | .step _ _ a
  | .result _ a => a.steady ss
  | .binary _ op a b => a.steady ss && b.steady ss &&
      (op.relation?.isSome || b.type.agrees (a.valueClass ss))
  | .logical _ _ a b => a.steady ss && b.steady ss && b.type.agrees (b.valueClass ss)
  | .assign _ a b => a.steady ss && b.steady ss
  | .compound i _ a b => a.steady ss && b.steady ss &&
      i.type.agrees (convertedClass (a.loadClass ss) a.type i.type)
  | .scale _ a n => a.steady ss &&
      ((shiftOf? n).isSome || !a.type.isWide || CType.long.agrees (a.valueClass ss))
  | .unary _ _ a => a.steady ss && a.type.agrees (a.valueClass ss)
  | .ternary _ c a b => c.steady ss && a.steady ss && b.steady ss &&
      b.type.agrees a.type.cls.toOption
  | .call _ _ args => steadyAll ss args
  | .block _ stmts => steadyAll ss stmts
  | .branch _ c a b => c.steady ss && a.steady ss && b.steady ss
  | .loop _ c a => c.steady ss && a.steady ss
  | .switch _ a arms => a.steady ss && steadyArms ss arms
  | _ => true

@[simp]
def steadyAll (ss : Symbols) : List Tree → Bool
  | [] => true
  | t :: ts => t.steady ss && steadyAll ss ts

@[simp]
def steadyArms (ss : Symbols) : List (ArmHead × Tree) → Bool
  | [] => true
  | (_, body) :: arms => body.steady ss && steadyArms ss arms

end

/-- The tree has a value: it is not a variable of which only the location is wanted. -/
def Valued (t : Tree) : Prop := ∀ i s, t = .ident i s → i.rvalue = true

variable {t : Tree}

lemma Loaded.valued (h : t.Loaded) : t.Valued := by
  rintro i s rfl
  exact h rfl

lemma Valued.of_not_ident (h : ∀ i s, t ≠ .ident i s) : t.Valued := fun i s ht => absurd ht (h i s)

lemma Valued.of_isComparison (h : t.op.isComparison) : t.Valued := by
  rintro i s rfl
  cases h

end Tree
end SmallC
