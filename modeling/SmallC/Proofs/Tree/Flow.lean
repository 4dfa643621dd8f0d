import SmallC.Proofs.Ir.Lines
import SmallC.Proofs.Tree.Shape

/-!
# Flow of control in a tree

What can be told of the code of a tree without writing it. A tree is `silent` if it has no code.
It is `audible` if the values that its code reads are there: no function without a value is called
for one, and no variable is read that takes no code to read. `strays` says that a `break` or
`continue` in it finds nothing to leave. `tidy` follows the flow of control through a tree as `scan`
does through lines: nothing but a loop may stand after a statement that jumps, unless it is silent,
and the body of a loop must not end in a jump.
-/

namespace SmallC

/-- Reading the variable takes no code: its size is not that of a value. -/
def Symbol.silent (s : Symbol) : Bool := s.inMemory && (Ir.Load.ofSize? s.size).isNone

/-- A value of the type is already as wide as a long. -/
def CType.isWide (t : CType) : Bool := t = .long || t.isPointer

/-- A conversion that leaves the value as it is. -/
def CType.castsFreely (source target : CType) : Bool :=
  if target.isPointer then source.isPointer || source = .long
  else source.scalarSize.toOption = target.scalarSize.toOption

namespace Tree

variable {noLoop : Bool} {t : Tree}

def silent (ss : Symbols) : Tree → Bool
  | .empty => true
  | .ident i s => !i.rvalue || (ss.get s).silent
  | .addrOf _ none a => a.silent ss
  | .deref i a => !i.rvalue && a.silent ss
  | .widen _ a => a.silent ss && (a.type = .long || a.type.isPointer)
  | .cast i a => a.silent ss && a.type.castsFreely i.type
  | .step _ _ (.ident _ s) => (ss.get s).silent
  | _ => false

mutual

/-- The value of an expression is there, and so are those that its code reads. -/
@[simp]
def audible (ss : Symbols) : Tree → Bool
  | .ident _ s => !(ss.get s).silent
  | .addrOf _ none a | .deref _ a | .widen _ a | .scale _ a _ | .cast _ a | .unary _ _ a
  | .toBool _ a => a.audible ss
  | .binary _ _ a b | .logical _ _ a b => a.audible ss && b.audible ss
  | .assign _ (.ident ..) b => b.audible ss
  | .assign _ a b | .compound _ _ a b => a.audible ss && b.audible ss
  | .step _ _ a => a.audible ss
  | .ternary _ c a b => c.audible ss && a.audible ss && b.audible ss
  | .call _ s args => (ss.get s).type ≠ .void && audibleAll ss args
  | _ => true

@[simp]
def audibleAll (ss : Symbols) : List Tree → Bool
  | [] => true
  | t :: ts => t.audible ss && audibleAll ss ts

end

mutual

/-- The values that the code of a statement reads are there. What a statement leaves is not read. -/
@[simp]
def heard (ss : Symbols) : Tree → Bool
  | .block _ stmts => heardAll ss stmts
  | .branch _ c a b => c.audible ss && a.heard ss && b.heard ss
  | .loop _ c a => c.audible ss && a.heard ss
  | .switch _ a arms => a.audible ss && heardArms ss arms
  | .result _ a => a.audible ss
  | .call _ _ args => audibleAll ss args
  | .ident .. | .step _ _ (.ident ..) => true
  | t => t.audible ss

@[simp]
def heardAll (ss : Symbols) : List Tree → Bool
  | [] => true
  | t :: ts => t.heard ss && heardAll ss ts

@[simp]
def heardArms (ss : Symbols) : List (ArmHead × Tree) → Bool
  | [] => true
  | (_, body) :: arms => body.heard ss && heardArms ss arms

end

mutual

/-- A `break` or `continue` leaves the tree, where `noLoop` says that there is no loop around it
and `noEnd` that there is neither a loop nor a switch. -/
def strays (noLoop noEnd : Bool) : Tree → Bool
  | .breakOut _ => noEnd
  | .continueOn _ => noLoop
  | .block _ stmts => straysAny noLoop noEnd stmts
  | .branch _ _ yes no => yes.strays noLoop noEnd || no.strays noLoop noEnd
  | .loop _ _ body => body.strays false false
  | .switch _ _ arms => straysArms noLoop arms
  | _ => false

def straysAny (noLoop noEnd : Bool) : List Tree → Bool
  | [] => false
  | t :: ts => t.strays noLoop noEnd || straysAny noLoop noEnd ts

def straysArms (noLoop : Bool) : List (ArmHead × Tree) → Bool
  | [] => false
  | (_, body) :: arms => body.strays noLoop false || straysArms noLoop arms

end

mutual

/-- How control comes out at the end of a statement: true if it does not, as the statement ends
in a jump; none if something stands after a jump. -/
def tidy (ss : Symbols) (closed : Bool) : Tree → Option Bool
  | .block _ stmts => tidyAll ss closed stmts
  | .branch _ _ yes no =>
    if closed then none
    else (yes.tidy ss false).bind fun _ => (no.tidy ss false).bind fun _ => some false
  | .loop _ _ body => (body.tidy ss false).bind fun closed => if closed then none else some false
  | .switch _ scrutinee arms =>
    (Ir.through (scrutinee.silent ss) closed).bind fun _ => tidyArms ss arms
  | .result .. | .breakOut _ | .continueOn _ => if closed then none else some true
  | t => Ir.through (t.silent ss) closed

def tidyAll (ss : Symbols) (closed : Bool) : List Tree → Option Bool
  | [] => some closed
  | t :: ts => (t.tidy ss closed).bind fun closed => tidyAll ss closed ts

def tidyArms (ss : Symbols) : List (ArmHead × Tree) → Option Bool
  | [] => some false
  | (_, body) :: arms => (body.tidy ss false).bind fun _ => tidyArms ss arms

end

/-- What the statement at the end of a body returns, if it is one that returns. -/
def finalValue? : Tree → Option Tree
  | .block _ stmts =>
    match stmts.getLast? with
    | some (.result _ a) => some a
    | _ => none
  | _ => none

def endsInResult (t : Tree) : Bool := t.finalValue?.isSome

def endsInValue (t : Tree) : Bool := t.finalValue?.any fun a => !a.isEmpty

lemma straysAny_eq_false {noEnd : Bool} {ts : List Tree} :
    straysAny noLoop noEnd ts = false ↔ ∀ t ∈ ts, t.strays noLoop noEnd = false := by
  induction ts with
  | nil => simp [straysAny]
  | cons t ts ih => simp [straysAny, ih]

lemma straysArms_eq_false {arms : List (ArmHead × Tree)} :
    straysArms noLoop arms = false ↔ ∀ arm ∈ arms, arm.2.strays noLoop false = false := by
  induction arms with
  | nil => simp [straysArms]
  | cons arm arms ih => simp [straysArms, ih]

variable {ss : Symbols} {scope : Scope}

lemma IsExpression.strays_eq (ht : IsExpression ss scope t) (noLoop noEnd : Bool) :
    t.strays noLoop noEnd = false := by
  cases ht <;> rfl

/-! ## Folding keeps the flow -/

lemma IsStatement.strays_fold (ht : IsStatement ss scope t) (noLoop noEnd : Bool) :
    t.fold.strays noLoop noEnd = t.strays noLoop noEnd := by
  induction ht generalizing noLoop noEnd with
  | empty | leave | breakOut | continueOn | result => rfl
  | expression ht => rw [ht.strays_eq, ht.fold.strays_eq]
  | @block _ ts hts ih =>
    rw [Tree.fold, strays, strays]
    clear hts
    induction ts with
    | nil => rfl
    | cons t ts ihts =>
      rw [foldAll, straysAny, straysAny, ih t (.head ts), ihts fun t' ht => ih t' (.tail t ht)]
  | branch _ _ _ iha ihb => rw [Tree.fold, strays, strays, iha, ihb]
  | loop _ _ iha => rw [Tree.fold, strays, strays, iha]
  | @switch _ _ arms _ _ some ordered harms ih =>
    rw [Tree.fold, strays, strays]
    clear some ordered harms
    induction arms with
    | nil => rfl
    | cons arm arms ihs =>
      rw [foldArms, straysArms, straysArms, ih arm (.head arms),
        ihs fun arm' harm => ih arm' (.tail arm harm)]

lemma fold_isEmpty (t : Tree) : t.fold.isEmpty = t.isEmpty := by
  cases t with
  | binary i op a b =>
    rcases foldsTo_binary i op a.fold b.fold with ⟨-, h⟩ | ⟨-, v, h⟩ <;> rw [fold, h] <;> rfl
  | unary i op a =>
    rcases foldsTo_unary i op a.fold with ⟨-, h⟩ | ⟨-, v, h⟩ <;> rw [fold, h] <;> rfl
  | _ => rfl

lemma finalValue?_fold (t : Tree) : t.fold.finalValue? = t.finalValue?.map fold := by
  cases t with
  | block i ts =>
    rw [fold, finalValue?, finalValue?, foldAll_eq_map, List.getLast?_map]
    cases ts.getLast? with
    | none => rfl
    | some last =>
      cases last with
      | binary j op a b =>
        rcases foldsTo_binary j op a.fold b.fold with ⟨-, h⟩ | ⟨-, v, h⟩ <;>
          simp [fold, h]
      | unary j op a =>
        rcases foldsTo_unary j op a.fold with ⟨-, h⟩ | ⟨-, v, h⟩ <;> simp [fold, h]
      | _ => rfl
  | binary i op a b =>
    rcases foldsTo_binary i op a.fold b.fold with ⟨-, h⟩ | ⟨-, v, h⟩ <;> rw [fold, h] <;> rfl
  | unary i op a =>
    rcases foldsTo_unary i op a.fold with ⟨-, h⟩ | ⟨-, v, h⟩ <;> rw [fold, h] <;> rfl
  | _ => rfl

lemma endsInResult_fold (t : Tree) : t.fold.endsInResult = t.endsInResult := by
  rw [endsInResult, endsInResult, finalValue?_fold, Option.isSome_map]

lemma endsInValue_fold (t : Tree) : t.fold.endsInValue = t.endsInValue := by
  rw [endsInValue, endsInValue, finalValue?_fold, Option.any_map]
  simp only [fold_isEmpty]

end Tree
end SmallC
