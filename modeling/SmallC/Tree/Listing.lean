import SmallC.Tree

/-!
# Listing of trees

One node on a line, its operands below it and two columns further in; statements of a block stand
side by side. Branches and loops are numbered: a listing continues the numbers of the one before.
-/

namespace SmallC.Tree

/-- A line of the listing at a column. -/
def listedAt (column : Nat) (t : Text) : Text := Text.blanks column ++ t ++ Text.ofString "\n"

/-- An operation with what follows it on its line. -/
def named (op : Op) (what : Text) : Text := op.name ++ Text.ofString " " ++ what

/-- What the line of a node says. Branches, loops and blocks have lines of their own. -/
def headline (ss : Symbols) (t : Tree) : Text :=
  match t with
  | .function _ s _ | .call _ s _ | .addrOf _ (some s) _ => named t.op (ss.get s).name
  | .step _ op (.ident _ s) => named op (ss.get s).name
  | .intLit _ v => named t.op (Text.ofInt64 v)
  | .strLit _ l => named t.op (Text.ofString "rval label L" ++ Text.ofInt l)
  | .ident i s =>
    if i.rvalue then named t.op (Text.ofString "rval " ++ (ss.get s).name)
    else named t.op (ss.get s).name
  | .deref i _ => if i.rvalue then named t.op "rval" else t.op.name
  | .scale _ _ n => named t.op (Text.ofInt64 n)
  | .cast i _ => named t.op (Text.ofInt i.type.code)
  | .arm head _ =>
    match head.value with
    | some v => named t.op (Text.ofInt64 v)
    | none => t.op.name
  | _ => t.op.name

mutual

/-- The lines of a tree at a column, where `label` is the next number, and the number after. -/
def listFrom (ss : Symbols) (column : Nat) (label : Int) : Tree → Text × Int
  | .empty => ([], label)
  | .branch _ c a b =>
    let (line, label) :=
      if b.isEmpty then (Text.ofString "IF", label + 1)
      else (Text.ofString "IF, end L" ++ Text.ofInt (label + 1), label + 2)
    let (t1, label) := listFrom ss (column + 2) label c
    let (t2, label) := listFrom ss (column + 2) label a
    let (t3, label) := listFrom ss (column + 2) label b
    (listedAt column line ++ t1 ++ t2 ++ t3, label)
  | .loop _ c a =>
    let line := Text.ofString "WHILE, start L" ++ Text.ofInt label
    let (t1, label) := listFrom ss (column + 2) (label + 2) c
    let (t2, label) := listFrom ss (column + 2) label a
    (listedAt column line ++ t1 ++ t2, label)
  | .block _ stmts => listAll ss column label stmts
  | t@(.call _ _ args) => under t (listAll ss (column + 2) label args)
  | t@(.function _ _ a) | t@(.addrOf _ _ a) | t@(.deref _ a) | t@(.scale _ a _)
  | t@(.cast _ a) | t@(.widen _ a) | t@(.unary _ _ a) | t@(.toBool _ a) | t@(.arm _ a)
  | t@(.result _ a) => under t (listFrom ss (column + 2) label a)
  | t@(.step _ _ a) =>
    match a with
    | .ident _ _ => under t ([], label)
    | a => under t (listFrom ss (column + 2) label a)
  | t@(.binary _ _ a b) | t@(.logical _ _ a b) | t@(.assign _ b a) | t@(.compound _ _ b a) =>
    let (t1, label) := listFrom ss (column + 2) label a
    let (t2, label) := listFrom ss (column + 2) label b
    under t (t1 ++ t2, label)
  | t@(.ternary _ c a b) =>
    let (t1, label) := listFrom ss (column + 2) label c
    let (t2, label) := listFrom ss (column + 2) label a
    let (t3, label) := listFrom ss (column + 2) label b
    under t (t1 ++ t2 ++ t3, label)
  | t@(.switch _ a arms) =>
    let (t1, label) := listFrom ss (column + 2) label a
    let (t2, label) := listArms ss (column + 2) label arms
    under t (t1 ++ t2, label)
  | t@(.intLit ..) | t@(.strLit ..) | t@(.ident ..) | t@(.breakOut _) | t@(.continueOn _) =>
    under t ([], label)
where
  under (t : Tree) (below : Text × Int) : Text × Int :=
    (listedAt column (headline ss t) ++ below.1, below.2)

def listAll (ss : Symbols) (column : Nat) (label : Int) : List Tree → Text × Int
  | [] => ([], label)
  | t :: ts =>
    let (t1, label) := listFrom ss column label t
    let (t2, label) := listAll ss column label ts
    (t1 ++ t2, label)

def listArms (ss : Symbols) (column : Nat) (label : Int) : List (ArmHead × Tree) → Text × Int
  | [] => ([], label)
  | (head, body) :: arms =>
    let (t1, label) := listFrom ss (column + 2) label body
    let (t2, label) := listArms ss column label arms
    (listedAt column (headline ss (.arm head .empty)) ++ t1 ++ t2, label)

end

/-- The listing of one function after another, each followed by two empty lines. -/
def listFunctions (ss : Symbols) : (label : Int) → List Tree → Text
  | _, [] => []
  | label, t :: ts =>
    let (text, label) := listFrom ss 0 label t
    text ++ Text.ofString "\n\n" ++ listFunctions ss label ts

end SmallC.Tree
