import SmallC.Lowering.Instr
import SmallC.Proofs.Machine
import SmallC.Tree

/-!
# Values of expressions

What an expression computes, in the arithmetic of the code for it. A value of class word is one of 32 bits that is
read with its sign, and an operation wraps at the width of its class. Variables, memory, strings and functions
are a parameter. An expression without a value, as a quotient by zero, has no outcome.
-/

namespace SmallC

open Ir

@[simp] lemma setWidth_signExtend (w : BitVec 32) : (w.signExtend 64).setWidth 32 = w := by
  apply BitVec.eq_of_getLsbD_eq
  intro i hi
  simp [BitVec.getLsbD_signExtend, hi]
  omega

namespace Ir.Cls

def read (c : Cls) (v : BitVec 64) : BitVec 64 :=
  match c with
  | .word => (v.setWidth 32).signExtend 64
  | _ => v

def arith (c : Cls) (op : Arith) (a b : BitVec 64) : Option (BitVec 64) :=
  match c with
  | .word => (op.apply (a.setWidth 32) (b.setWidth 32)).map (·.signExtend 64)
  | .long => op.apply a b
  | .blank => none

@[simp] lemma setWidth_read (c : Cls) (v : BitVec 64) : (c.read v).setWidth 32 = v.setWidth 32 := by
  cases c <;> simp [read]

lemma ne_test (c : Cls) (a b : BitVec 64) : Relation.ne.test c a b = decide (c.read a ≠ c.read b) := by
  cases c with
  | word =>
    have same : Cls.word.read a = Cls.word.read b ↔ a.setWidth 32 = b.setWidth 32 := by
      refine ⟨fun h => ?_, fun h => by rw [read, read, h]⟩
      rw [← setWidth_read .word a, h, setWidth_read]
    simp [Relation.test, Relation.holds, same]
  | long | blank => rfl

@[simp] lemma read_fit (T : Target) (c : Cls) (v : BitVec 64) : c.read (T.fit c v) = c.read v := by
  cases c <;> simp [read, Target.fit]

end Ir.Cls

variable {W α : Type}

@[simp] lemma bind_at {β : Type} (x : StateT W Option α) (f : α → StateT W Option β) (σ : W) :
    (x >>= f) σ = (x σ).bind fun p => f p.1 p.2 := rfl

@[simp] lemma pure_at (a : α) (σ : W) : (pure a : StateT W Option α) σ = some (a, σ) := rfl

@[simp] lemma lift_at (x : Option α) (σ : W) :
    (StateT.lift x : StateT W Option α) σ = x.map fun a => (a, σ) := by
  cases x <;> rfl

/-- What expressions work on. -/
structure Store where
  World : Type
  read : SymId → StateT World Option (BitVec 64)
  write : SymId → BitVec 64 → StateT World Option Unit
  load : CType → BitVec 64 → StateT World Option (BitVec 64)
  store : CType → BitVec 64 → BitVec 64 → StateT World Option Unit
  call : SymId → List (BitVec 64) → StateT World Option (BitVec 64)
  address : SymId → BitVec 64
  string : Int → BitVec 64
  /-- How far `++` and `--` move a value. -/
  step : Info → Op → BitVec 64

namespace Store

variable (S : Store)

abbrev Eval (α : Type) := StateT S.World Option α

def cls (t : CType) : S.Eval Cls := StateT.lift t.cls.toOption

/-- The outcome of an arithmetic operation in a type. -/
def arith (t : CType) (op : Op) (a b : BitVec 64) : S.Eval (BitVec 64) := do
  let c ← S.cls t
  StateT.lift (op.arith?.bind fun f => c.arith f a b)

def unary (t : CType) (op : Op) (a : BitVec 64) : S.Eval (BitVec 64) := do
  let c ← S.cls t
  match op with
  | .negate => StateT.lift (c.arith .sub 0 a)
  | .invert => StateT.lift (c.arith .xor a (-1))
  | .logNot => return if Relation.eq.test c a 0 then 1 else 0
  | _ => failure

/-- A value of one type in a wider one: a char has no sign. -/
def widen (source target : CType) (a : BitVec 64) : S.Eval (BitVec 64) := do
  let c ← S.cls target
  return c.read (if source = .char then (a.setWidth 8).setWidth 64 else a)

/-- A value in the type that an operation is done in. -/
def inType (source target : CType) (a : BitVec 64) : S.Eval (BitVec 64) :=
  if source = target then return a else S.widen source target a

/-- A value moved by `++` or `--`, and the value that the operation has. -/
def moved (i : Info) (op : Op) (old : BitVec 64) : S.Eval (BitVec 64 × BitVec 64) := do
  let c ← S.cls i.type
  let new := c.read (old + S.step i op)
  return (new, if op = .preInc || op = .preDec then new else old)

variable {S}

lemma cls_ok {t : CType} {c : Cls} (h : t.cls = .ok c) : S.cls t = pure c := by
  rw [cls, h]
  rfl

end Store

namespace Tree

mutual

def eval (S : Store) : Tree → S.Eval (BitVec 64)
  | .intLit i v => do return (← S.cls i.type).read v.toBitVec
  | .strLit _ l => return S.string l
  | .ident _ s => S.read s
  | .addrOf _ (some s) _ => return S.address s
  | .addrOf _ none a => a.eval S
  | .deref i a => do
    let p ← a.eval S
    if i.rvalue then S.load i.type p else return p
  | .binary i op a b => do
    let x ← a.eval S
    let y ← b.eval S
    match op.relation? with
    | some r => do return if r.test (← S.cls a.type) x y then 1 else 0
    | none => S.arith i.type op x y
  | .logical _ op a b => do
    let x ← a.eval S
    if x = 0 ↔ op = .logOr then
      return if (← b.eval S) = 0 then 0 else 1
    else return if op = .logOr then 1 else 0
  | .assign _ target b => do
    let v ← b.eval S
    match target with
    | .ident _ s =>
      S.write s v
      return v
    | .deref i a =>
      S.store i.type (← a.eval S) v
      return v
    | _ => failure
  | .compound i op target b =>
    match target with
    | .ident j s => do
      let x ← S.inType j.type i.type (← S.read s)
      let v ← S.arith i.type op.underlying x (← b.eval S)
      S.write s v
      return v
    | .deref j a => do
      let p ← a.eval S
      let x ← S.inType j.type i.type (← S.load j.type p)
      let v ← S.arith i.type op.underlying x (← b.eval S)
      S.store j.type p v
      return v
    | _ => failure
  | .widen i a => do S.widen a.type i.type (← a.eval S)
  | .scale _ a n => return (← a.eval S) * n.toBitVec
  | .cast i a => do
    let v ← a.eval S
    match a.type.scalarSize, i.type.scalarSize with
    | .ok m, .ok n => if n ≤ m then return (← S.cls i.type).read v else S.widen a.type i.type v
    | _, _ => failure
  | .unary i op a => do S.unary i.type op (← a.eval S)
  | .toBool _ a => return if (← a.eval S) = 0 then 0 else 1
  | .step _ op target =>
    match target with
    | .ident j s => do
      let (new, v) ← S.moved j op (← S.read s)
      S.write s new
      return v
    | .deref j a => do
      let p ← a.eval S
      let (new, v) ← S.moved j op (← S.load j.type p)
      S.store j.type p new
      return v
    | _ => failure
  | .ternary _ c a b => do
    if (← c.eval S) = 0 then b.eval S else a.eval S
  | .call _ s args => do S.call s (← evalArgs S args)
  | _ => failure

/-- The values of arguments, the last of which is computed first. -/
def evalArgs (S : Store) : List Tree → S.Eval (List (BitVec 64))
  | [] => return []
  | t :: ts => do
    let vs ← evalArgs S ts
    return (← t.eval S) :: vs

end

lemma eval_literal {S : Store} {i : Info} {c : Cls} (h : i.type.cls = .ok c) (v : Int64) :
    (Tree.intLit i v).eval S = pure (c.read v.toBitVec) := by
  rw [Tree.eval, Store.cls_ok h, pure_bind]

end Tree
end SmallC
