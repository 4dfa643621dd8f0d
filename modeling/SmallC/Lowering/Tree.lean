import SmallC.Lowering.Instr
import SmallC.Tree

/-!
# Code for trees

The code of a tree leaves its value in a temporary, if it has one. Conditions jump past what
depends on them; `&&`, `||` and `?:` leave the paths not taken; a switch tests its arms in order
and lets the code of one run into that of the next.
-/

namespace SmallC

/-- Where jumps out of a subtree go, and what the subtree is an operand of. Label 0 is no
target. -/
structure Context where
  /-- Where a failing condition jumps. -/
  ifLabel : Int := 0
  /-- Where `continue` jumps. -/
  loopTop : Int := 0
  /-- Where `break` jumps. -/
  loopEnd : Int := 0
  parent : Op := .function
  function : Symbol

namespace Context

def under (ctx : Context) (op : Op) : Context := { ctx with parent := op }

/-- The context of a condition that jumps to `l` when it fails. -/
def condition (ctx : Context) (op : Op) (l : Int) : Context :=
  { ctx with parent := op, ifLabel := l }

end Context

namespace Tree

open Lower

/-- How many places a multiplication by a size shifts, if it is a shift. -/
def shiftOf? (size : Int64) : Option Int64 :=
  if size = 2 then some 1 else if size = 4 then some 2 else if size = 8 then some 3 else none

mutual

def lower (ss : Symbols) (ctx : Context) : Tree → Lower Temp
  | .empty => return none
  | .block _ stmts => do
    lowerAll ss (ctx.under .glue) stmts
    return none
  | .branch _ cond yes no => do
    let otherwise ← newLabel
    let body := ctx.condition .ifElse 0
    if no.isEmpty then
      let r ← cond.lower ss (ctx.condition .ifElse otherwise)
      jumpUnlessTrue r otherwise
      let _ ← yes.lower ss body
      label otherwise
      return none
    else
      let last ← newLabel
      let r ← cond.lower ss (ctx.condition .ifElse otherwise)
      jumpUnlessTrue r otherwise
      let _ ← yes.lower ss body
      label (← newLabel)
      jump last
      label otherwise
      let _ ← no.lower ss body
      label last
      return none
  | .loop _ cond body => do
    let start ← newLabel
    let last ← newLabel
    label start
    let inside : Context := { ctx with loopTop := start, loopEnd := last }
    let r ← cond.lower ss (inside.condition .whileLoop last)
    jumpUnlessTrue r last
    let _ ← body.lower ss (inside.condition .whileLoop 0)
    jump start
    label last
    return none
  | .switch _ scrutinee arms => do
    let last ← newLabel
    let tests ← newLabels arms.length
    let r ← scrutinee.lower ss (ctx.under .switchOn)
    let inside : Context := { ctx with ifLabel := 0, loopEnd := last, parent := .switchOn }
    let code ← lowerArms ss inside r scrutinee.type arms (tests ++ [last]) none
    code.forM label
    label last
    return none
  | .logical _ op left right => do
    let short ← newLabel
    let last ← newLabel
    let r ← left.lower ss (ctx.under op)
    let _ ← truth r op short left.type
    let r ← right.lower ss (ctx.under op)
    let _ ← truth r op short right.type
    setConstant r (if op = .logOr then 0 else 1) right.type
    jump last
    label short
    setConstant r (if op = .logOr then 1 else 0) right.type
    label last
    return r
  | .ternary _ cond yes no => do
    let otherwise ← newLabel
    let last ← newLabel
    let r ← cond.lower ss (ctx.condition .ternary otherwise)
    jumpUnlessTrue r otherwise
    let outcome ← newTemp
    let side := ctx.condition .ternary 0
    let r ← yes.lower ss side
    move r outcome yes.type
    jump last
    label otherwise
    let r ← no.lower ss side
    move r outcome no.type
    label last
    return some outcome
  | .call _ sym args => do
    let values ← lowerArgs ss (ctx.under .call) args
    Lower.call (ss.get sym) values
  | .assign _ target value => do
    let r ← value.lower ss (ctx.under .assign)
    match target with
    | .ident _ sym =>
      storeVar r (ss.get sym)
      return r
    | .deref info _ =>
      let address ← target.lower ss (ctx.under .assign)
      storeThrough r address info.type
      return r
    | _ => throw (.assignTarget target.op)
  | .compound info op target value => do
    let inside := ctx.under op
    match target with
    | .ident tinfo sym =>
      let r ← loadVar ss (ss.get sym) .ident
      let r ← inType r tinfo.type info.type
      let v ← value.lower ss inside
      let r ← arith op.underlying r v info.type
      storeVar r (ss.get sym)
      return r
    | .deref tinfo operand =>
      let address ← operand.lower ss inside
      let pointer ← ofType tinfo.type.pointerTo
      let r ← loadThrough address pointer
      let r ← inType r tinfo.type info.type
      let v ← value.lower ss inside
      let r ← arith op.underlying r v info.type
      storeThrough r address tinfo.type
      return r
    | _ => throw (.assignThrough target.op)
  | .step _ op target => do
    match target with
    | .ident _ sym => loadVar ss (ss.get sym) op
    | .deref info operand =>
      let address ← operand.lower ss (ctx.under op)
      let pointer ← ofType info.type.pointerTo
      let old ← loadThrough address pointer
      let step ← ofType (stepSize ss info.type info.ctype op)
      let c ← cls info.type
      let new ← newTemp
      setTemp new c (.arith .add (.temp old) (.int step))
      storeThrough new address info.type
      return if op = .preInc || op = .preDec then some new else old
    | _ => throw (.step op target.op)
  | .result _ value => do
    let r ← value.lower ss (ctx.under .result)
    leave r ctx.function
    return none
  | .breakOut _ => do
    jump ctx.loopEnd
    return none
  | .continueOn _ => do
    jump ctx.loopTop
    return none
  | .intLit info v => loadInt v info.type
  | .strLit _ l => loadString l
  | .ident info sym =>
    if info.rvalue || ctx.parent = .deref then loadVar ss (ss.get sym) .ident
    else return none
  | .addrOf _ (some sym) _ => address (ss.get sym)
  | .addrOf _ none operand => operand.lower ss (ctx.under .addr)
  | .deref info operand => do
    let r ← operand.lower ss (ctx.under .deref)
    if info.rvalue then loadThrough r operand.type else return r
  | .widen info operand => do
    let r ← operand.lower ss (ctx.under .widen)
    Lower.widen r operand.type info.type
  | .scale _ operand size => do
    let r ← operand.lower ss (ctx.under .scale)
    match shiftOf? size with
    | some k => shiftLeft r k operand.type
    | none => timesConstant r size operand.type
  | .cast info operand => do
    let r ← operand.lower ss (ctx.under .cast)
    Lower.cast r operand.type info.type
  | .unary _ op operand => do
    let r ← operand.lower ss (ctx.under op)
    Lower.unary op r operand.type
  | .toBool _ operand => do
    let r ← operand.lower ss (ctx.under .toBool)
    truth r ctx.parent ctx.ifLabel operand.type
  | .binary _ op left right => do
    let a ← left.lower ss (ctx.under op)
    let b ← right.lower ss (ctx.under op)
    match op.relation? with
    | some rel => compare rel a b left.type
    | none => arith op a b right.type
  | .arm head _ => throw (.unknownNode (if head.value = none then .defaultArm else .caseArm))
  | .function .. => throw (.unknownNode .function)

def lowerAll (ss : Symbols) (ctx : Context) : List Tree → Lower Unit
  | [] => return
  | t :: ts => do
    let _ ← t.lower ss ctx
    lowerAll ss ctx ts

/-- The values of arguments, the last of which is computed first. -/
def lowerArgs (ss : Symbols) (ctx : Context) : List Tree → Lower (List (Temp × CType))
  | [] => return []
  | t :: ts => do
    let rest ← lowerArgs ss ctx ts
    let r ← t.lower ss ctx
    return (r, t.type) :: rest

/-- The arms of a switch on the value `r`. `tests` are the labels of the tests of these arms and
of what follows them; `code` is the label of the code that the arms before run into. An arm
without code shares the code of the next one. -/
def lowerArms (ss : Symbols) (ctx : Context) (r : Temp) (t : CType) :
    List (ArmHead × Tree) → (tests : List Int) → (code : Option Int) → Lower (Option Int)
  | [], _, code => return code
  | (head, body) :: arms, tests, code => do
    let here ← orNewLabel code
    label (tests.headD 0)
    armTest r t (tests.tail.headD 0) here head.value
    if body.isEmpty then lowerArms ss ctx r t arms tests.tail (some here)
    else
      label here
      let _ ← body.lower ss ctx
      lowerArms ss ctx r t arms tests.tail none

end

end Tree
end SmallC
