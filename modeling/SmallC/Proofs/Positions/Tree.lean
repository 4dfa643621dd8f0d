import Mathlib
import SmallC.Conversion
import SmallC.Lowering.Function
import SmallC.Tree.Listing

/-!
# Trees without lines

`unplaced` forgets the lines of a tree and nothing else. What is made of a tree does not need them:
folding, adapting, listing and writing code give the same for a tree without lines, up to the lines in
what they give.
-/

namespace SmallC

def Info.unplaced (i : Info) : Info := { i with line := 0 }

def ArmHead.unplaced (head : ArmHead) : ArmHead := { head with info := head.info.unplaced }

namespace Tree

mutual

def unplaced : Tree → Tree
  | .empty => .empty
  | .intLit i v => .intLit i.unplaced v
  | .strLit i l => .strLit i.unplaced l
  | .ident i s => .ident i.unplaced s
  | .addrOf i s a => .addrOf i.unplaced s a.unplaced
  | .deref i a => .deref i.unplaced a.unplaced
  | .binary i op a b => .binary i.unplaced op a.unplaced b.unplaced
  | .logical i op a b => .logical i.unplaced op a.unplaced b.unplaced
  | .assign i a b => .assign i.unplaced a.unplaced b.unplaced
  | .compound i op a b => .compound i.unplaced op a.unplaced b.unplaced
  | .widen i a => .widen i.unplaced a.unplaced
  | .scale i a n => .scale i.unplaced a.unplaced n
  | .cast i a => .cast i.unplaced a.unplaced
  | .unary i op a => .unary i.unplaced op a.unplaced
  | .toBool i a => .toBool i.unplaced a.unplaced
  | .step i op a => .step i.unplaced op a.unplaced
  | .ternary i c a b => .ternary i.unplaced c.unplaced a.unplaced b.unplaced
  | .call i s as => .call i.unplaced s (unplacedAll as)
  | .block i ss => .block i.unplaced (unplacedAll ss)
  | .branch i c a b => .branch i.unplaced c.unplaced a.unplaced b.unplaced
  | .loop i c a => .loop i.unplaced c.unplaced a.unplaced
  | .switch i a arms => .switch i.unplaced a.unplaced (unplacedArms arms)
  | .arm head a => .arm head.unplaced a.unplaced
  | .result i a => .result i.unplaced a.unplaced
  | .breakOut i => .breakOut i.unplaced
  | .continueOn i => .continueOn i.unplaced
  | .function i s a => .function i.unplaced s a.unplaced

def unplacedAll : List Tree → List Tree
  | [] => []
  | t :: ts => t.unplaced :: unplacedAll ts

def unplacedArms : List (ArmHead × Tree) → List (ArmHead × Tree)
  | [] => []
  | (head, body) :: arms => (head.unplaced, body.unplaced) :: unplacedArms arms

end

/-! ## The root -/

section
variable (t : Tree)

@[simp] lemma info_unplaced : t.unplaced.info = t.info.unplaced := by cases t <;> rfl

@[simp] lemma type_unplaced : t.unplaced.type = t.type := by rw [type, info_unplaced]; rfl

@[simp] lemma ctype_unplaced : t.unplaced.ctype = t.ctype := by rw [ctype, info_unplaced]; rfl

@[simp] lemma line_unplaced : t.unplaced.line = 0 := by rw [line, info_unplaced]; rfl

@[simp] lemma rvalue_unplaced : t.unplaced.info.rvalue = t.info.rvalue := by rw [info_unplaced]; rfl

@[simp] lemma op_unplaced : t.unplaced.op = t.op := by cases t <;> rfl

@[simp] lemma isEmpty_unplaced : t.unplaced.isEmpty = t.isEmpty := by cases t <;> rfl

@[simp] lemma isLvalue_unplaced : t.unplaced.isLvalue = t.isLvalue := by cases t <;> rfl

lemma asRvalue_unplaced : t.unplaced.asRvalue = t.asRvalue.unplaced := by cases t <;> rfl

lemma withType_unplaced (type : CType) : t.unplaced.withType type = (t.withType type).unplaced := by
  cases t <;> rfl

lemma asCondition_unplaced : t.unplaced.asCondition = t.asCondition.unplaced := by
  unfold asCondition
  rw [op_unplaced]
  split
  · rfl
  · simp only [type_unplaced, ctype_unplaced, line_unplaced, unplaced, Info.unplaced]

lemma converted_unplaced (c : Conversion) (type : CType) (ctype : Option SymId) :
    t.unplaced.converted c type ctype = (t.converted c type ctype).unplaced := by
  cases c <;> simp only [converted, line_unplaced, unplaced, Info.unplaced]

lemma adapted_unplaced (c : Option Conversion) (type : CType) (ctype : Option SymId) :
    t.unplaced.adapted c type ctype = (t.adapted c type ctype).unplaced := by
  cases c with
  | none => rfl
  | some c => exact converted_unplaced t c type ctype

end

lemma unplacedAll_eq_map (ts : List Tree) : unplacedAll ts = ts.map unplaced := by
  induction ts with
  | nil => rfl
  | cons t ts ih => rw [unplacedAll, ih, List.map_cons]

def unplacedArm (arm : ArmHead × Tree) : ArmHead × Tree := (arm.1.unplaced, arm.2.unplaced)

lemma unplacedArms_eq_map (arms : List (ArmHead × Tree)) : unplacedArms arms = arms.map unplacedArm := by
  induction arms with
  | nil => rfl
  | cons arm arms ih => rw [unplacedArms, ih, List.map_cons, unplacedArm]

/-! ## Folding -/

lemma foldBinary_unplaced (i : Info) (op : Op) (a b : Tree) :
    foldBinary i.unplaced op a.unplaced b.unplaced = (foldBinary i op a b).unplaced := by
  cases a <;> try rfl
  cases b <;> try rfl
  unfold foldBinary
  dsimp only [unplaced]
  split <;> try rfl
  split <;> rfl

lemma foldUnary_unplaced (i : Info) (op : Op) (a : Tree) :
    foldUnary i.unplaced op a.unplaced = (foldUnary i op a).unplaced := by
  cases a <;> try rfl
  unfold foldUnary
  dsimp only [unplaced]
  split <;> rfl

mutual

lemma fold_unplaced (t : Tree) : t.unplaced.fold = t.fold.unplaced := by
  match t with
  | .binary i op a b =>
    simp only [unplaced, fold, fold_unplaced a, fold_unplaced b, foldBinary_unplaced]
  | .unary i op a => simp only [unplaced, fold, fold_unplaced a, foldUnary_unplaced]
  | .logical _ _ a b | .assign _ a b | .compound _ _ a b =>
    simp only [unplaced, fold, fold_unplaced a, fold_unplaced b]
  | .addrOf _ _ a | .deref _ a | .widen _ a | .scale _ a _ | .cast _ a | .toBool _ a | .step _ _ a
  | .result _ a | .function _ _ a => simp only [unplaced, fold, fold_unplaced a]
  | .ternary _ c a b | .branch _ c a b =>
    simp only [unplaced, fold, fold_unplaced c, fold_unplaced a, fold_unplaced b]
  | .loop _ c a => simp only [unplaced, fold, fold_unplaced c, fold_unplaced a]
  | .call _ _ ts | .block _ ts => simp only [unplaced, fold, foldAll_unplaced ts]
  | .switch _ a arms => simp only [unplaced, fold, fold_unplaced a, foldArms_unplaced arms]
  | .empty | .intLit .. | .strLit .. | .ident .. | .arm .. | .breakOut _ | .continueOn _ =>
    simp only [unplaced, fold]

lemma foldAll_unplaced (ts : List Tree) : foldAll (unplacedAll ts) = unplacedAll (foldAll ts) := by
  match ts with
  | [] => rfl
  | t :: ts => simp only [unplacedAll, foldAll, fold_unplaced t, foldAll_unplaced ts]

lemma foldArms_unplaced (arms : List (ArmHead × Tree)) :
    foldArms (unplacedArms arms) = unplacedArms (foldArms arms) := by
  match arms with
  | [] => rfl
  | (head, body) :: arms =>
    simp only [unplacedArms, foldArms, fold_unplaced body, foldArms_unplaced arms]

end

/-! ## Code -/

lemma length_unplacedArms (arms : List (ArmHead × Tree)) : (unplacedArms arms).length = arms.length := by
  rw [unplacedArms_eq_map, List.length_map]

mutual

lemma lower_unplaced (ss : Symbols) (ctx : Context) (t : Tree) :
    t.unplaced.lower ss ctx = t.lower ss ctx := by
  match t with
  | .empty | .intLit .. | .strLit .. | .ident .. | .breakOut _ | .continueOn _ | .arm .. | .function .. =>
    simp only [unplaced, lower, Info.unplaced, ArmHead.unplaced]
  | .addrOf _ (some _) _ => simp only [unplaced, lower]
  | .addrOf _ none a => simp only [unplaced, lower, lower_unplaced ss _ a]
  | .deref _ a | .widen _ a | .scale _ a _ | .cast _ a | .unary _ _ a | .toBool _ a | .result _ a =>
    simp only [unplaced, lower, lower_unplaced ss _ a, type_unplaced, Info.unplaced]
  | .binary _ _ a b | .logical _ _ a b =>
    simp only [unplaced, lower, lower_unplaced ss _ a, lower_unplaced ss _ b, type_unplaced]
  | .assign _ a b =>
    have value := lower_unplaced ss (ctx.under .assign) b
    cases a with
    | deref j c => simp only [unplaced, lower, Info.unplaced, type_unplaced, lower_unplaced ss _ c, value]
    | _ => simp only [unplaced, lower, ArmHead.unplaced, value, op]
  | .compound _ op a b =>
    have value := lower_unplaced ss (ctx.under op) b
    cases a with
    | deref j c => simp only [unplaced, lower, Info.unplaced, lower_unplaced ss _ c, value]
    | _ => simp only [unplaced, lower, Info.unplaced, ArmHead.unplaced, value, Tree.op]
  | .step _ op a =>
    cases a with
    | deref j c => simp only [unplaced, lower, Info.unplaced, lower_unplaced ss _ c]
    | _ => simp only [unplaced, lower, ArmHead.unplaced, Tree.op]
  | .ternary _ c a b | .branch _ c a b =>
    simp only [unplaced, lower, lower_unplaced ss _ c, lower_unplaced ss _ a, lower_unplaced ss _ b,
      type_unplaced, isEmpty_unplaced]
  | .loop _ c a => simp only [unplaced, lower, lower_unplaced ss _ c, lower_unplaced ss _ a]
  | .call _ _ ts => simp only [unplaced, lower, lowerArgs_unplaced ss _ ts]
  | .block _ ts => simp only [unplaced, lower, lowerAll_unplaced ss _ ts]
  | .switch _ a arms =>
    simp only [unplaced, lower, lower_unplaced ss _ a, lowerArms_unplaced ss _ _ _ arms, type_unplaced,
      length_unplacedArms]

lemma lowerAll_unplaced (ss : Symbols) (ctx : Context) (ts : List Tree) :
    lowerAll ss ctx (unplacedAll ts) = lowerAll ss ctx ts := by
  match ts with
  | [] => rfl
  | t :: ts => simp only [unplacedAll, lowerAll, lower_unplaced ss ctx t, lowerAll_unplaced ss ctx ts]

lemma lowerArgs_unplaced (ss : Symbols) (ctx : Context) (ts : List Tree) :
    lowerArgs ss ctx (unplacedAll ts) = lowerArgs ss ctx ts := by
  match ts with
  | [] => rfl
  | t :: ts =>
    simp only [unplacedAll, lowerArgs, lower_unplaced ss ctx t, lowerArgs_unplaced ss ctx ts, type_unplaced]

lemma lowerArms_unplaced (ss : Symbols) (ctx : Context) (r : Temp) (type : CType)
    (arms : List (ArmHead × Tree)) (tests : List Int) (code : Option Int) :
    lowerArms ss ctx r type (unplacedArms arms) tests code = lowerArms ss ctx r type arms tests code := by
  match arms with
  | [] => rfl
  | (head, body) :: arms =>
    simp only [unplacedArms, lowerArms, isEmpty_unplaced, lower_unplaced ss ctx body,
      lowerArms_unplaced ss ctx r type arms, ArmHead.unplaced]

end

/-! ## Listings -/

lemma headline_unplaced (ss : Symbols) (t : Tree) : headline ss t.unplaced = headline ss t := by
  cases t with
  | addrOf i s a => cases s <;> rfl
  | step i op a => cases a <;> rfl
  | _ => rfl

lemma listFrom_step (ss : Symbols) (column : Nat) (label : Int) (i : Info) (op : Op) (a : Tree) :
    listFrom ss column label (.step i op a) = listFrom.under ss column (.step i op a) (match a with
        | .ident _ _ => ([], label)
        | _ => listFrom ss (column + 2) label a) := by
  cases a <;> simp only [listFrom]

mutual

lemma listFrom_unplaced (ss : Symbols) (column : Nat) (label : Int) (t : Tree) :
    listFrom ss column label t.unplaced = listFrom ss column label t := by
  have head := headline_unplaced ss t
  cases t with
  | empty => rfl
  | intLit _ _ | strLit _ _ | ident _ _ | breakOut _ | continueOn _ =>
    simp only [unplaced] at head
    simp only [unplaced, listFrom, listFrom.under, head]
  | addrOf _ _ a | deref _ a | widen _ a | scale _ a _ | cast _ a | unary _ _ a | toBool _ a | arm _ a
  | result _ a | function _ _ a =>
    simp only [unplaced] at head
    simp only [unplaced, listFrom, listFrom.under, head, listFrom_unplaced ss _ _ a]
  | step i op a =>
    have below := listFrom_unplaced ss (column + 2) label a
    rw [unplaced] at head ⊢
    rw [listFrom_step, listFrom_step, below, listFrom.under, listFrom.under, head]
    cases a <;> rfl
  | binary _ _ a b | logical _ _ a b | assign _ b a | compound _ _ b a =>
    simp only [unplaced] at head
    simp only [unplaced, listFrom, listFrom.under, head, listFrom_unplaced ss _ _ a,
      listFrom_unplaced ss _ _ b]
  | ternary _ c a b =>
    simp only [unplaced] at head
    simp only [unplaced, listFrom, listFrom.under, head, listFrom_unplaced ss _ _ c,
      listFrom_unplaced ss _ _ a, listFrom_unplaced ss _ _ b]
  | branch _ c a b =>
    simp only [unplaced, listFrom, isEmpty_unplaced, listFrom_unplaced ss _ _ c,
      listFrom_unplaced ss _ _ a, listFrom_unplaced ss _ _ b]
  | loop _ c a => simp only [unplaced, listFrom, listFrom_unplaced ss _ _ c, listFrom_unplaced ss _ _ a]
  | call _ _ ts =>
    simp only [unplaced] at head
    simp only [unplaced, listFrom, listFrom.under, head, listAll_unplaced ss _ _ ts]
  | block _ ts => simp only [unplaced, listFrom, listAll_unplaced ss _ _ ts]
  | switch _ a arms =>
    simp only [unplaced] at head
    simp only [unplaced, listFrom, listFrom.under, head, listFrom_unplaced ss _ _ a,
      listArms_unplaced ss _ _ arms]

lemma listAll_unplaced (ss : Symbols) (column : Nat) (label : Int) (ts : List Tree) :
    listAll ss column label (unplacedAll ts) = listAll ss column label ts := by
  match ts with
  | [] => rfl
  | t :: ts => simp only [unplacedAll, listAll, listFrom_unplaced ss _ _ t, listAll_unplaced ss _ _ ts]

lemma listArms_unplaced (ss : Symbols) (column : Nat) (label : Int) (arms : List (ArmHead × Tree)) :
    listArms ss column label (unplacedArms arms) = listArms ss column label arms := by
  match arms with
  | [] => rfl
  | (head, body) :: arms =>
    have line := headline_unplaced ss (.arm head .empty)
    simp only [unplaced] at line
    simp only [unplacedArms, listArms, line, listFrom_unplaced ss _ _ body, listArms_unplaced ss _ _ arms]

end

lemma listFunctions_unplaced (ss : Symbols) (label : Int) (ts : List Tree) :
    listFunctions ss label (ts.map unplaced) = listFunctions ss label ts := by
  induction ts generalizing label with
  | nil => rfl
  | cons t ts ih => simp only [List.map_cons, listFunctions, listFrom_unplaced, ih]

end Tree
end SmallC
