import SmallC.Proofs.Tree.Shape
import SmallC.Proofs.Tree.Value

/-!
# Folding and values

A folded literal is computed in 64 bits whatever the type of its node, where the code of the node would compute
in the node's class. A quotient and a `!` look at the bits that a word does not have, and so does any operation
of class long on a literal of class word. `foldsTruly` rules these cases out: an expression that passes has one
value, folded or not, in every world.
-/

namespace SmallC

open Ir

variable {f : Arith} {c : Cls} {x : BitVec 64} {op : Op} {a : Int64} {target value : Tree} (i : Info)
variable {v b : Int64}

namespace Ir

def Cls.holds (c : Cls) (v : Int64) : Bool := c.read v.toBitVec = v.toBitVec

/-- The operations that folding knows, in 64 bits. -/
def Arith.wide (f : Arith) (a b : Int64) : Option Int64 :=
  match f with
  | .add => some (a + b)
  | .sub => some (a - b)
  | .mul => some (a * b)
  | .div => if b = 0 then none else some (a / b)
  | _ => none

lemma setWidth_sub (a b : BitVec 64) : (a - b).setWidth 32 = a.setWidth 32 - b.setWidth 32 := by
  rw [BitVec.sub_eq_add_neg, BitVec.setWidth_add _ _ (by decide), BitVec.neg_eq_not_add,
    BitVec.setWidth_add _ _ (by decide), BitVec.setWidth_not (by decide), BitVec.sub_eq_add_neg,
    BitVec.neg_eq_not_add]
  rfl

lemma setWidth_sdiv {a b : BitVec 64} (ha : Cls.word.read a = a) (hb : Cls.word.read b = b) :
    (a.sdiv b).setWidth 32 = (a.setWidth 32).sdiv (b.setWidth 32) := by
  have value : ∀ {v : BitVec 64}, Cls.word.read v = v → v.toInt = (v.setWidth 32).toInt := by
    intro v hv
    calc v.toInt = (Cls.word.read v).toInt := by rw [hv]
      _ = (v.setWidth 32).toInt := BitVec.toInt_signExtend_of_le (by decide)
  apply BitVec.eq_of_toInt_eq
  rw [← BitVec.signExtend_eq_setWidth_of_le _ (by decide), BitVec.toInt_signExtend,
    BitVec.toInt_sdiv, BitVec.toInt_sdiv, Int.bmod_bmod_of_dvd (by decide), value ha, value hb]
  rfl

variable {a : Int64}

lemma Arith.apply_wide (h : f.wide a b = some v) : f.apply a.toBitVec b.toBitVec = some v.toBitVec := by
  cases f with
  | add | sub | mul =>
    obtain rfl := Option.some.inj h
    simp [Arith.apply]
  | div =>
    simp only [Arith.wide] at h
    split at h
    · cases h
    · rename_i hb
      obtain rfl := Option.some.inj h
      have hb : b.toBitVec ≠ 0 := fun h0 => hb (Int64.toBitVec_inj.mp h0)
      simp only [Arith.apply, if_neg hb, Int64.toBitVec_div]
  | _ => cases h

lemma Arith.apply_low (h : f.wide a b = some v)
    (hdiv : f = .div → Cls.word.holds a = true ∧ Cls.word.holds b = true) :
    f.apply (a.toBitVec.setWidth 32) (b.toBitVec.setWidth 32) = some (v.toBitVec.setWidth 32) := by
  cases f with
  | add =>
    obtain rfl := Option.some.inj h
    rw [Int64.toBitVec_add, BitVec.setWidth_add _ _ (by decide)]
    rfl
  | sub =>
    obtain rfl := Option.some.inj h
    rw [Int64.toBitVec_sub, setWidth_sub]
    rfl
  | mul =>
    obtain rfl := Option.some.inj h
    rw [Int64.toBitVec_mul, BitVec.setWidth_mul _ _ (by decide)]
    rfl
  | div =>
    obtain ⟨ha, hb⟩ := hdiv rfl
    simp only [Cls.holds, decide_eq_true_eq] at ha hb
    simp only [Arith.wide] at h
    split at h
    · cases h
    · rename_i hne
      obtain rfl := Option.some.inj h
      have low : b.toBitVec.setWidth 32 ≠ 0 := by
        intro h0
        apply hne
        apply Int64.toBitVec_inj.mp
        rw [← hb, Cls.read, h0]
        rfl
      rw [Int64.toBitVec_div, setWidth_sdiv ha hb]
      simp only [Arith.apply, if_neg low]
  | _ => cases h

lemma Cls.eq_zero_of_low (h : Cls.word.holds a = true) (low : a.toBitVec.setWidth 32 = 0) :
    a = 0 := by
  simp only [Cls.holds, decide_eq_true_eq] at h
  apply Int64.toBitVec_inj.mp
  rw [← h, Cls.read, low]
  rfl

lemma Cls.arith_invert (hc : c ≠ .blank) (hx : x.setWidth 32 = a.toBitVec.setWidth 32)
    (hl : c = .long → x = a.toBitVec) : c.arith .xor x (-1) = some (c.read (~~~a).toBitVec) := by
  cases c with
  | word =>
    have ones : (-1 : BitVec 64).setWidth 32 = BitVec.allOnes 32 := by decide
    simp only [Cls.arith, Arith.apply, ones, BitVec.xor_allOnes, hx, Cls.read, Int64.toBitVec_not,
      BitVec.setWidth_not (show 32 ≤ 64 by decide), Option.map_some]
  | long =>
    have ones : (-1 : BitVec 64) = BitVec.allOnes 64 := by decide
    simp only [Cls.arith, Arith.apply, hl rfl, ones, BitVec.xor_allOnes, Cls.read,
      Int64.toBitVec_not]
  | blank => exact absurd rfl hc

lemma Cls.test_eq_zero (hc : c ≠ .blank)
    (hw : c = .word → x.setWidth 32 = a.toBitVec.setWidth 32 ∧ Cls.word.holds a = true)
    (hl : c = .long → x = a.toBitVec) : Relation.eq.test c x 0 = decide (a = 0) := by
  cases c with
  | word =>
    obtain ⟨hx, ha⟩ := hw rfl
    have zero : a.toBitVec.setWidth 32 = 0 ↔ a = 0 := ⟨Cls.eq_zero_of_low ha, by rintro rfl; rfl⟩
    simpa [Relation.test, Relation.holds, hx] using zero
  | long =>
    have zero : a.toBitVec = 0 ↔ a = 0 := Int64.toBitVec_inj (b := 0)
    simpa [Relation.test, Relation.holds, hl rfl] using zero
  | blank => exact absurd rfl hc

end Ir

/-! ## When a folded literal is true to its node -/

/-- The operations whose lower bits depend on the lower bits of their operands only. -/
def Op.wrapsAlike : Op → Bool
  | .add | .subtract | .multiply | .invert => true
  | _ => false

/-- The literals of an operation in a type are such that computing in 64 bits gives its outcome. -/
def CType.foldsTruly (t : CType) (op : Op) (literals : List (CType × Int64)) : Bool :=
  match t.cls with
  | .ok .word => literals.all fun l =>
      l.1.cls.toOption.isSome && (op.wrapsAlike || Cls.word.holds l.2)
  | .ok .long => literals.all fun l => l.1.cls.toOption.any (·.holds l.2)
  | _ => false

namespace Tree

/-- The value that a binary operation folds to, given its operands. -/
def wide? (op : Op) : Tree → Tree → Option Int64
  | .intLit _ a, .intLit _ b => op.arith?.bind (·.wide a b)
  | _, _ => none

/-- The value that a unary operation folds to, given its operand. -/
def wideOne? (op : Op) : Tree → Option Int64
  | .intLit _ a =>
    match op with
    | .invert => some (~~~a)
    | .logNot => some (if a = 0 then 1 else 0)
    | _ => none
  | _ => none

lemma foldBinary_eq (op : Op) (a b : Tree) : foldBinary i op a b = ((wide? op a b).map fun v =>
      Tree.intLit { type := i.type, line := i.line } v).getD (.binary i op a b) := by
  cases a with
  | intLit j x =>
    cases b with
    | intLit k y =>
      cases op with
      | divide => by_cases hy : y = 0 <;> simp [foldBinary, wide?, Op.arith?, Arith.wide, hy]
      | _ => rfl
    | _ => rfl
  | _ => rfl

lemma foldUnary_eq (op : Op) (a : Tree) : foldUnary i op a = ((wideOne? op a).map fun v =>
      Tree.intLit { type := i.type, line := i.line } v).getD (.unary i op a) := by
  cases a with
  | intLit j v => cases op <;> rfl
  | _ => rfl

def literals : List Tree → List (CType × Int64)
  | .intLit i v :: ts => (i.type, v) :: literals ts
  | _ :: ts => literals ts
  | [] => []

mutual

/-- Every node that folding replaces in an expression is replaced by its value. -/
def foldsTruly : Tree → Bool
  | .binary i op a b => a.foldsTruly && b.foldsTruly &&
      ((wide? op a.fold b.fold).isNone || i.type.foldsTruly op (literals [a.fold, b.fold]))
  | .unary i op a => a.foldsTruly &&
      ((wideOne? op a.fold).isNone || i.type.foldsTruly op (literals [a.fold]))
  | .logical _ _ a b | .assign _ a b | .compound _ _ a b => a.foldsTruly && b.foldsTruly
  | .addrOf _ _ a | .deref _ a | .widen _ a | .scale _ a _ | .cast _ a | .toBool _ a
  | .step _ _ a => a.foldsTruly
  | .ternary _ c a b => c.foldsTruly && a.foldsTruly && b.foldsTruly
  | .call _ _ args => foldTrulyAll args
  | _ => true

def foldTrulyAll : List Tree → Bool
  | [] => true
  | t :: ts => t.foldsTruly && foldTrulyAll ts

end

end Tree

/-! ## Values of literals -/

namespace Store

variable {S : Store} {j : Info}

/-- Of an operation that is folded truly, either only the lower half counts or all literals are what
is read for them. -/
lemma foldsTruly_cases {t : CType} {ls : List (CType × Int64)} (h : t.foldsTruly op ls = true) :
    (t.cls = .ok .word ∧ ∀ l ∈ ls, (∃ c, l.1.cls = .ok c) ∧
      (op.wrapsAlike = true ∨ Cls.word.holds l.2 = true)) ∨
    (t.cls = .ok .long ∧ ∀ l ∈ ls, ∃ c, l.1.cls = .ok c ∧ c.holds l.2 = true) := by
  unfold CType.foldsTruly at h
  split at h
  · rename_i hc
    refine .inl ⟨hc, fun l hl => ?_⟩
    have := List.all_eq_true.mp h l hl
    cases hu : l.1.cls with
    | error f => simp [hu, Except.toOption] at this
    | ok c => exact ⟨⟨c, rfl⟩, by simpa [hu, Except.toOption] using this⟩
  · rename_i hc
    refine .inr ⟨hc, fun l hl => ?_⟩
    have := List.all_eq_true.mp h l hl
    cases hu : l.1.cls with
    | error f => simp [hu, Except.toOption] at this
    | ok c => exact ⟨c, rfl, by simpa [hu, Except.toOption] using this⟩
  · cases h

lemma eval_binary_literals {i k : Info} (hv : Tree.wide? op (.intLit j a) (.intLit k b) = some v)
    (h : i.type.foldsTruly op [(j.type, a), (k.type, b)] = true) :
    (Tree.intLit { type := i.type, line := i.line } v).eval S =
      (Tree.binary i op (.intLit j a) (.intLit k b)).eval S := by
  obtain ⟨f, hf, hw⟩ : ∃ f, op.arith? = some f ∧ f.wide a b = some v := Option.bind_eq_some_iff.mp hv
  have norel : op.relation? = none := by cases op <;> first | rfl | cases hf
  -- The operands are read, each in its own class.
  have known : ∀ {c d : Cls}, j.type.cls = .ok c → k.type.cls = .ok d →
      (Tree.binary i op (.intLit j a) (.intLit k b)).eval S =
        S.arith i.type op (c.read a.toBitVec) (d.read b.toBitVec) := by
    intro c d hc hd
    rw [Tree.eval, Tree.eval_literal hc, Tree.eval_literal hd, pure_bind, pure_bind, norel]
  rcases foldsTruly_cases h with ⟨ht, hl⟩ | ⟨ht, hl⟩
  · obtain ⟨⟨c, hc⟩, ha⟩ := hl (j.type, a) (by simp)
    obtain ⟨⟨d, hd⟩, hb⟩ := hl (k.type, b) (by simp)
    have low := Arith.apply_low hw fun hdiv => by
      subst hdiv
      have exact : op.wrapsAlike = false := by cases op <;> first | rfl | cases hf
      simpa [exact] using And.intro ha hb
    rw [known hc hd, Tree.eval_literal (i := { type := i.type, line := i.line }) ht, arith, cls_ok ht,
      pure_bind, hf]
    simp only [Option.bind_some, Cls.arith, Cls.setWidth_read, low]
    rfl
  · obtain ⟨c, hc, ha⟩ := hl (j.type, a) (by simp)
    obtain ⟨d, hd, hb⟩ := hl (k.type, b) (by simp)
    simp only [Cls.holds, decide_eq_true_eq] at ha hb
    rw [known hc hd, Tree.eval_literal (i := { type := i.type, line := i.line }) ht, arith, cls_ok ht,
      pure_bind, hf]
    simp only [Option.bind_some, Cls.arith, ha, hb, Arith.apply_wide hw]
    rfl

lemma eval_unary_literal {i : Info} (hv : Tree.wideOne? op (.intLit j a) = some v)
    (h : i.type.foldsTruly op [(j.type, a)] = true) :
    (Tree.intLit { type := i.type, line := i.line } v).eval S =
      (Tree.unary i op (.intLit j a)).eval S := by
  -- The outcome of the operation in a class, however the operand is read.
  have outcome : ∀ {c d : Cls}, j.type.cls = .ok c → i.type.cls = .ok d → d ≠ .blank →
      (d = .word → op.wrapsAlike = true ∨ Cls.word.holds a = true) →
      (d = .long → c.read a.toBitVec = a.toBitVec) →
      S.unary i.type op (c.read a.toBitVec) = pure (d.read v.toBitVec) := by
    intro c d hc hd hblank hw hlong
    rw [unary, cls_ok hd, pure_bind]
    cases op with
    | invert =>
      obtain rfl := Option.some.inj hv
      simp only [Cls.arith_invert hblank (Cls.setWidth_read c _) hlong]
      rfl
    | logNot =>
      obtain rfl := Option.some.inj hv
      have test := Cls.test_eq_zero hblank
        (fun h => ⟨Cls.setWidth_read c _, (hw h).resolve_left (by decide)⟩) hlong
      simp only [test]
      by_cases ha : a = 0 <;> cases d <;> simp [ha, Cls.read]
    | _ => cases hv
  rcases foldsTruly_cases h with ⟨ht, hl⟩ | ⟨ht, hl⟩
  · obtain ⟨⟨c, hc⟩, ha⟩ := hl (j.type, a) (by simp)
    rw [Tree.eval_literal (i := { type := i.type, line := i.line }) ht, Tree.eval, Tree.eval_literal hc,
      pure_bind, outcome hc ht (by decide) (fun _ => ha) (by simp)]
  · obtain ⟨c, hc, ha⟩ := hl (j.type, a) (by simp)
    rw [Tree.eval_literal (i := { type := i.type, line := i.line }) ht, Tree.eval, Tree.eval_literal hc,
      pure_bind, outcome hc ht (by decide) (by simp) fun _ => by simpa [Cls.holds] using ha]

end Store

namespace Tree

variable {S : Store}
variable {i : Info}

lemma eval_foldBinary {a b : Tree}
    (h : ((wide? op a b).isNone || i.type.foldsTruly op (literals [a, b])) = true) :
    (foldBinary i op a b).eval S = (Tree.binary i op a b).eval S := by
  rw [foldBinary_eq]
  cases hv : wide? op a b with
  | none => rfl
  | some v =>
    cases a with
    | intLit j x =>
      cases b with
      | intLit k y => exact Store.eval_binary_literals hv (by simpa [hv, literals] using h)
      | _ => cases hv
    | _ => cases hv

lemma eval_foldUnary {a : Tree} (h : ((wideOne? op a).isNone || i.type.foldsTruly op (literals [a])) = true) :
    (foldUnary i op a).eval S = (Tree.unary i op a).eval S := by
  rw [foldUnary_eq]
  cases hv : wideOne? op a with
  | none => rfl
  | some v =>
    cases a with
    | intLit j x => exact Store.eval_unary_literal hv (by simpa [hv, literals] using h)
    | _ => cases hv

lemma eval_assign_other (h : target.isLvalue = false) :
    (Tree.assign i target value).eval S = (do let _ ← value.eval S; failure) := by
  cases target with
  | ident | deref => cases h
  | _ => rw [eval]

lemma eval_compound_other (h : target.isLvalue = false) :
    (Tree.compound i op target value).eval S = failure := by
  cases target with
  | ident | deref => cases h
  | _ => rfl

lemma eval_step_other (h : target.isLvalue = false) : (Tree.step i op target).eval S = failure := by
  cases target with
  | ident | deref => cases h
  | _ => rfl

mutual

lemma eval_fold : ∀ t : Tree, t.foldsTruly = true → t.fold.eval S = t.eval S
  | .binary i op a b, h => by
    simp only [foldsTruly, Bool.and_eq_true] at h
    obtain ⟨⟨ha, hb⟩, h⟩ := h
    rw [fold, eval_foldBinary h, eval, eval, eval_fold a ha, eval_fold b hb, type_fold]
  | .unary i op a, h => by
    simp only [foldsTruly, Bool.and_eq_true] at h
    rw [fold, eval_foldUnary h.2, eval, eval, eval_fold a h.1]
  | .logical _ _ a b, h => by
    simp only [foldsTruly, Bool.and_eq_true] at h
    rw [fold, eval, eval, eval_fold a h.1, eval_fold b h.2]
  | .assign i target b, h => by
    simp only [foldsTruly, Bool.and_eq_true] at h
    cases hl : target.isLvalue with
    | true =>
      cases target with
      | ident j s => rw [fold, fold, eval, eval, eval_fold b h.2]
      | deref j a =>
        rw [fold, fold, eval, eval, eval_fold b h.2]
        simp only [eval_fold a h.1]
      | _ => cases hl
    | false =>
      rw [fold, eval_assign_other hl, eval_assign_other (by rwa [fold_isLvalue]), eval_fold b h.2]
  | .compound i op target b, h => by
    simp only [foldsTruly, Bool.and_eq_true] at h
    cases hl : target.isLvalue with
    | true =>
      cases target with
      | ident j s => rw [fold, fold, eval, eval, eval_fold b h.2]
      | deref j a => rw [fold, fold, eval, eval, eval_fold b h.2, eval_fold a h.1]
      | _ => cases hl
    | false => rw [fold, eval_compound_other hl, eval_compound_other (by rwa [fold_isLvalue])]
  | .step i op target, h => by
    cases hl : target.isLvalue with
    | true =>
      cases target with
      | ident j s => rfl
      | deref j a => rw [fold, fold, eval, eval, eval_fold a h]
      | _ => cases hl
    | false => rw [fold, eval_step_other hl, eval_step_other (by rwa [fold_isLvalue])]
  | .addrOf _ none a, h => by rw [fold, eval, eval, eval_fold a h]
  | .deref _ a, h => by rw [fold, eval, eval, eval_fold a h]
  | .widen _ a, h => by rw [fold, eval, eval, eval_fold a h, type_fold]
  | .scale _ a _, h => by rw [fold, eval, eval, eval_fold a h]
  | .cast _ a, h => by rw [fold, eval, eval, eval_fold a h, type_fold]
  | .toBool _ a, h => by rw [fold, eval, eval, eval_fold a h]
  | .ternary _ c a b, h => by
    simp only [foldsTruly, Bool.and_eq_true] at h
    rw [fold, eval, eval, eval_fold c h.1.1, eval_fold a h.1.2, eval_fold b h.2]
  | .call _ _ args, h => by rw [fold, eval, eval, evalArgs_foldAll args h]
  | .empty, _ | .intLit .., _ | .strLit .., _ | .ident .., _ | .addrOf _ (some _) _, _
  | .block .., _ | .branch .., _ | .loop .., _ | .switch .., _ | .arm .., _ | .result .., _
  | .breakOut _, _ | .continueOn _, _ | .function .., _ => rfl

lemma evalArgs_foldAll : ∀ ts : List Tree, foldTrulyAll ts = true →
    evalArgs S (foldAll ts) = evalArgs S ts
  | [], _ => rfl
  | t :: ts, h => by
    simp only [foldTrulyAll, Bool.and_eq_true] at h
    rw [foldAll, evalArgs, evalArgs, evalArgs_foldAll ts h.2, eval_fold t h.1]

end

/-- An expression that folds truly has the value it had, from every world, and leaves the same world. -/
theorem fold_keeps_value (S : Store) {t : Tree} (h : t.foldsTruly = true) (w : S.World) :
    t.fold.type = t.type ∧ t.fold.eval S w = t.eval S w :=
  ⟨type_fold t, by rw [eval_fold t h]⟩

theorem fold_keeps_value_quotient :
    let int (v : Int64) : Tree := .intLit { type := .int } v
    let sum : Tree := .binary { type := .int } .add (.ident { type := .int } 0)
      (.binary { type := .int } .divide (int (-7)) (.unary { type := .int } .invert (int 1)))
    sum.foldsTruly = true ∧
      sum.fold = .binary { type := .int } .add (.ident { type := .int } 0) (int 3) ∧
      ∀ (S : Store) (w : S.World), sum.fold.eval S w = sum.eval S w := by
  intro int sum
  exact ⟨by decide, by rfl, fun S w => (fold_keeps_value S (by decide) w).2⟩

/-- A `!` and a quotient of ints whose literals do not fit into a word. -/
theorem fold_changes_value :
    let int (v : Int64) : Tree := .intLit { type := .int } v
    let not : Tree := .unary { type := .int } .logNot (int 4294967296)
    let quotient : Tree := .binary { type := .int } .divide
      (.binary { type := .int } .add (int 2147483647) (int 2147483647)) (int 256)
    ∀ (S : Store) (w : S.World),
      not.eval S w = some (1, w) ∧ not.fold.eval S w = some (0, w) ∧
      quotient.eval S w = some (0, w) ∧ quotient.fold.eval S w = some (16777215, w) := by
  intro int not quotient S w
  exact ⟨rfl, rfl, rfl, rfl⟩

end Tree
end SmallC
