import SmallC.Tree

/-!
# Folding of constants

Sums, differences, products and quotients of two literals and `~`, `!` of one become literals,
from the leaves up. A quotient by zero stays. Words are 64 bits and wrap.

Nothing else is folded: no remainder, no shift, no comparison, no negation. An arm that stands by
itself is left as it is.
-/

namespace SmallC.Tree

/-- The literal that a binary operation on two literals becomes. -/
def foldBinary (info : Info) (op : Op) (left right : Tree) : Tree :=
  let unfolded := Tree.binary info op left right
  let literal (v : Int64) : Tree := .intLit { type := info.type, line := info.line } v
  match left, right with
  | .intLit _ a, .intLit _ b =>
    match op with
    | .add => literal (a + b)
    | .subtract => literal (a - b)
    | .multiply => literal (a * b)
    | .divide => if b = 0 then unfolded else literal (a / b)
    | _ => unfolded
  | _, _ => unfolded

/-- The literal that a unary operation on a literal becomes. -/
def foldUnary (info : Info) (op : Op) (operand : Tree) : Tree :=
  let unfolded := Tree.unary info op operand
  let literal (v : Int64) : Tree := .intLit { type := info.type, line := info.line } v
  match operand with
  | .intLit _ a =>
    match op with
    | .invert => literal (~~~a)
    | .logNot => literal (if a = 0 then 1 else 0)
    | _ => unfolded
  | _ => unfolded

mutual

def fold : Tree → Tree
  | .binary i op a b => foldBinary i op a.fold b.fold
  | .unary i op a => foldUnary i op a.fold
  | .logical i op a b => .logical i op a.fold b.fold
  | .assign i a b => .assign i a.fold b.fold
  | .compound i op a b => .compound i op a.fold b.fold
  | .addrOf i s a => .addrOf i s a.fold
  | .deref i a => .deref i a.fold
  | .widen i a => .widen i a.fold
  | .scale i a n => .scale i a.fold n
  | .cast i a => .cast i a.fold
  | .toBool i a => .toBool i a.fold
  | .step i op a => .step i op a.fold
  | .ternary i c a b => .ternary i c.fold a.fold b.fold
  | .call i s as => .call i s (foldAll as)
  | .block i ss => .block i (foldAll ss)
  | .branch i c a b => .branch i c.fold a.fold b.fold
  | .loop i c a => .loop i c.fold a.fold
  | .switch i a arms => .switch i a.fold (foldArms arms)
  | .result i a => .result i a.fold
  | .function i s a => .function i s a.fold
  | t@(.empty) | t@(.intLit ..) | t@(.strLit ..) | t@(.ident ..) | t@(.arm ..)
  | t@(.breakOut _) | t@(.continueOn _) => t

def foldAll : List Tree → List Tree
  | [] => []
  | t :: ts => t.fold :: foldAll ts

def foldArms : List (ArmHead × Tree) → List (ArmHead × Tree)
  | [] => []
  | (head, body) :: arms => (head, body.fold) :: foldArms arms

end

end SmallC.Tree
