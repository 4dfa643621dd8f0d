import SmallC.Proofs.Symbol
import SmallC.Proofs.Tree.Run

/-!
# Programs on words

The part of the language that works on ints in registers: no memory, no calls, and no operation that
may have no outcome. All its values are words, chars among them being words of which a conversion to
int takes the low eight bits.
-/

namespace SmallC

open Ir

variable {f : Arith} {t : CType}

lemma signExtend_eq_zero {w : BitVec 32} : w.signExtend 64 = 0 ↔ w = 0 := by
  constructor
  · intro h
    rw [← setWidth_signExtend w, h]
    rfl
  · rintro rfl
    decide

def CType.isWord (t : CType) : Bool := t = .char || t = .int

lemma CType.cls_of_isWord (h : t.isWord = true) : t.cls = .ok .word := by
  simp only [CType.isWord, Bool.or_eq_true, decide_eq_true_eq] at h
  rcases h with rfl | rfl <;> rfl

def Symbol.isRegister (s : Symbol) : Bool := s.type = .int && !s.inMemory

/-- What `++` and `--` add to a word. -/
def Op.stepWord (op : Op) : BitVec 32 := if op = .preDec || op = .postDec then -1 else 1

namespace Store

/-- Variables hold words, and there is nothing else. -/
abbrev registers : Store where
  World := SymId → BitVec 32
  read id := fun σ => some ((σ id).signExtend 64, σ)
  write id v := fun σ => some ((), Function.update σ id (v.setWidth 32))
  load _ _ := failure
  store _ _ _ := failure
  call _ _ := failure
  address _ := 0
  string _ := 0
  step _ op := op.stepWord.signExtend 64

end Store

/-- An operation that has an outcome for all operands. -/
def Op.isTotal (op : Op) : Bool :=
  op.relation?.isSome || op ∈ [Op.add, .subtract, .multiply, .and, .or, .xor, .lshift]

lemma Op.apply_of_isTotal {op : Op} (h : op.isTotal = true) (hrel : op.relation? = Option.none)
    (hf : op.arith? = some f) {w : Nat} (a b : BitVec w) : f.apply a b = some ((f.apply a b).getD 0) := by
  have mem : op ∈ [Op.add, .subtract, .multiply, .and, .or, .xor, .lshift] := by
    simpa [isTotal, hrel] using h
  simp only [List.mem_cons, List.not_mem_nil, or_false] at mem
  rcases mem with rfl | rfl | rfl | rfl | rfl | rfl | rfl <;> cases hf <;> rfl

namespace Tree

def isVariable : Tree → Bool
  | .ident .. => true
  | _ => false

def words (ss : Symbols) : Tree → Bool
  | .intLit i _ => i.type.isWord
  | .ident i s => i.type = .int && (ss.get s).isRegister
  | .binary i op a b => i.type.isWord && op.isTotal && a.words ss && b.words ss
  | .logical i op a b =>
    i.type.isWord && (op = .logAnd || op = .logOr) && a.words ss && b.words ss
  | .assign i a b => i.type.isWord && a.isVariable && a.words ss && b.words ss
  | .compound i op a b =>
    i.type = .int && op ∈ [Op.asPlus, .asMinus, .asStar] && a.isVariable && a.words ss && b.words ss
  | .widen i a => i.type = .int && a.type = .char && a.words ss
  | .unary i op a => i.type.isWord && op ∈ [Op.negate, .invert, .logNot] && a.words ss
  | .toBool i a => i.type.isWord && a.words ss
  | .step i op a =>
    i.type.isWord && op ∈ [Op.preInc, .preDec, .postInc, .postDec] && a.isVariable && a.words ss
  | .ternary i c a b => i.type.isWord && c.words ss && a.words ss && b.words ss
  | _ => false

mutual

def worksOnWords (ss : Symbols) : Tree → Bool
  | .empty | .breakOut _ | .continueOn _ => true
  | .block _ stmts => worksOnWordsAll ss stmts
  | .branch _ c yes no => c.words ss && yes.worksOnWords ss && no.worksOnWords ss
  | .loop _ c body => c.words ss && body.worksOnWords ss
  | .result _ value => value.words ss
  | t => t.words ss

def worksOnWordsAll (ss : Symbols) : List Tree → Bool
  | [] => true
  | t :: ts => t.worksOnWords ss && worksOnWordsAll ss ts

end

lemma isWord_of_words {t : Tree} (h : t.words ss = true) : t.type.isWord = true := by
  cases t with
  | intLit | binary | logical | assign | unary | toBool | step | ternary =>
    simp only [words, Bool.and_eq_true] at h
    simp [type, info, h]
  | ident | compound | widen =>
    simp only [words, Bool.and_eq_true, decide_eq_true_eq] at h
    simp [type, info, CType.isWord, h]
  | _ => cases h

lemma cls_of_words {t : Tree} (h : t.words ss = true) : t.type.cls = .ok .word :=
  CType.cls_of_isWord (isWord_of_words h)

/-! ## Values -/

variable {i j : Info} {op : Op} {a b c : Tree} {id : SymId} {u v w : BitVec 32}
  {σ σ1 σ2 : SymId → BitVec 32} {ss : Symbols}

lemma eval_relation {rel : Relation} (hrel : op.relation? = some rel) (word : a.type.cls = .ok .word)
    (ha : a.eval .registers σ = some (u.signExtend 64, σ1))
    (hb : b.eval .registers σ1 = some (v.signExtend 64, σ2)) :
    (Tree.binary i op a b).eval .registers σ =
      some ((if rel.holds u v then 1#32 else 0#32).signExtend 64, σ2) := by
  simp only [eval, bind_at, ha, hb, Option.bind_some, hrel, Store.cls_ok word,
    Relation.test, setWidth_signExtend]
  cases rel.holds u v <;> rfl

lemma arith_words (word : t.cls = .ok .word) (hf : op.arith? = some f) (hw : f.apply u v = some w)
    (σ : SymId → BitVec 32) : Store.registers.arith t op (u.signExtend 64) (v.signExtend 64) σ =
      some (w.signExtend 64, σ) := by
  simp [Store.arith, Store.cls_ok word, hf, Cls.arith, hw]

lemma eval_arith (hrel : op.relation? = none) (word : i.type.cls = .ok .word) (hf : op.arith? = some f)
    (hw : f.apply u v = some w) (ha : a.eval .registers σ = some (u.signExtend 64, σ1))
    (hb : b.eval .registers σ1 = some (v.signExtend 64, σ2)) :
    (Tree.binary i op a b).eval .registers σ = some (w.signExtend 64, σ2) := by
  simp only [eval, bind_at, ha, hb, Option.bind_some, hrel]
  exact arith_words word hf hw σ2

lemma eval_logical_short (ha : a.eval .registers σ = some (u.signExtend 64, σ1))
    (short : ¬ (u = 0 ↔ op = .logOr)) :
    (Tree.logical i op a b).eval .registers σ =
      some ((if op = .logOr then 1#32 else 0#32).signExtend 64, σ1) := by
  simp only [eval, bind_at, ha, Option.bind_some, signExtend_eq_zero, if_neg short]
  split_ifs <;> rfl

lemma eval_logical_long (ha : a.eval .registers σ = some (u.signExtend 64, σ1))
    (long : u = 0 ↔ op = .logOr) (hb : b.eval .registers σ1 = some (v.signExtend 64, σ2)) :
    (Tree.logical i op a b).eval .registers σ =
      some ((if v = 0 then 0#32 else 1#32).signExtend 64, σ2) := by
  simp only [eval, bind_at, ha, Option.bind_some, signExtend_eq_zero, if_pos long, hb]
  split_ifs <;> rfl

lemma eval_assign (hb : b.eval .registers σ = some (u.signExtend 64, σ1)) :
    (Tree.assign i (.ident j id) b).eval .registers σ =
      some (u.signExtend 64, Function.update σ1 id u) := by
  simp only [eval, bind_at, hb, Option.bind_some, setWidth_signExtend]
  rfl

lemma eval_compound (same : j.type = i.type) (hrel : op.underlying.relation? = none)
    (h : (Tree.binary i op.underlying (.ident j id) b).eval .registers σ =
      some (w.signExtend 64, σ1)) :
    (Tree.compound i op (.ident j id) b).eval .registers σ =
      some (w.signExtend 64, Function.update σ1 id w) := by
  have split : (Tree.compound i op (.ident j id) b).eval .registers =
      (Tree.binary i op.underlying (.ident j id) b).eval .registers >>= fun v => do
        Store.registers.write id v
        return v := by
    simp only [eval, Store.inType, same, if_true, hrel, pure_bind, bind_assoc]
  rw [split, bind_at, h]
  simp

lemma read_byte (u : BitVec 32) : Cls.word.read (((u.signExtend 64).setWidth 8).setWidth 64) =
    ((u.setWidth 8).setWidth 32).signExtend 64 := by
  have low : (u.signExtend 64).setWidth 8 = u.setWidth 8 := by
    rw [← BitVec.setWidth_setWidth_of_le _ (show 8 ≤ 32 by decide), setWidth_signExtend]
  have high : ((u.setWidth 8).setWidth 64).setWidth 32 = (u.setWidth 8).setWidth 32 :=
    BitVec.setWidth_setWidth_of_le _ (show 32 ≤ 64 by decide)
  rw [Cls.read, low, high]

lemma eval_widen (source : a.type = .char) (target : i.type = .int)
    (ha : a.eval .registers σ = some (u.signExtend 64, σ1)) :
    (Tree.widen i a).eval .registers σ = some (((u.setWidth 8).setWidth 32).signExtend 64, σ1) := by
  have word : CType.int.cls = .ok .word := rfl
  simp only [eval, bind_at, ha, Option.bind_some, Store.widen, source, target,
    Store.cls_ok word, if_true, pure_bind, pure_at, read_byte]

def unaryWord (op : Op) (u : BitVec 32) : BitVec 32 :=
  match op with
  | .negate => -u
  | .invert => ~~~u
  | _ => if u = 0 then 1 else 0

lemma eval_unary (word : i.type.cls = .ok .word) (hop : op ∈ [Op.negate, .invert, .logNot])
    (ha : a.eval .registers σ = some (u.signExtend 64, σ1)) :
    (Tree.unary i op a).eval .registers σ = some ((unaryWord op u).signExtend 64, σ1) := by
  simp only [List.mem_cons, List.not_mem_nil, or_false] at hop
  rcases hop with rfl | rfl | rfl
  · simp [eval, ha, Store.unary, Store.cls_ok word, Cls.arith, Arith.apply, unaryWord]
  · have ones : u ^^^ (-1 : BitVec 64).setWidth 32 = ~~~u := BitVec.xor_allOnes
    simp only [eval, bind_at, ha, Option.bind_some, Store.unary, Store.cls_ok word, pure_bind,
      Cls.arith, Arith.apply, setWidth_signExtend, ones, unaryWord, Option.map_some, lift_at]
  · have zero : (0 : BitVec 64).setWidth 32 = 0 := rfl
    simp only [eval, bind_at, ha, Option.bind_some, Store.unary, Store.cls_ok word, pure_bind, pure_at,
      Relation.test, Relation.holds, setWidth_signExtend, unaryWord, decide_eq_true_eq, zero]
    split_ifs <;> rfl

lemma eval_toBool (ha : a.eval .registers σ = some (u.signExtend 64, σ1)) :
    (Tree.toBool i a).eval .registers σ =
      some ((if u = 0 then 0#32 else 1#32).signExtend 64, σ1) := by
  simp only [eval, bind_at, ha, Option.bind_some, signExtend_eq_zero]
  split_ifs <;> rfl

lemma read_add (u v : BitVec 32) :
    Cls.word.read (u.signExtend 64 + v.signExtend 64) = (u + v).signExtend 64 := by
  rw [Cls.read, BitVec.setWidth_add _ _ (by decide), setWidth_signExtend, setWidth_signExtend]

lemma eval_step (word : j.type.cls = .ok .word) : (Tree.step i op (.ident j id)).eval .registers σ =
      some ((if op = .preInc || op = .preDec then σ id + op.stepWord else σ id).signExtend 64,
        Function.update σ id (σ id + op.stepWord)) := by
  simp only [eval, bind_at, Store.moved, Store.cls_ok word, pure_bind, pure_at, Option.bind_some,
    read_add, setWidth_signExtend]
  split_ifs <;> rfl

lemma eval_ternary (hc : c.eval .registers σ = some (u.signExtend 64, σ1)) :
    (Tree.ternary i c a b).eval .registers σ =
      if u = 0 then b.eval .registers σ1 else a.eval .registers σ1 := by
  simp only [eval, bind_at, hc, Option.bind_some, signExtend_eq_zero]
  split_ifs <;> rfl

lemma eval_comparison (hw : a.words ss = true) (compares : a.op.isComparison = true)
    (h : a.eval .registers σ = some (u.signExtend 64, σ1)) : u = 0 ∨ u = 1 := by
  cases a with
  | binary i op a b =>
    obtain ⟨rel, hrel⟩ : ∃ rel, op.relation? = some rel := by
      change op.isComparison = true at compares
      cases op with
      | eq | ne | lt | gt | le | ge => exact ⟨_, rfl⟩
      | _ => cases compares
    simp only [eval, hrel, bind_at, Option.bind_eq_some_iff, pure_at, Option.some.injEq,
      Prod.mk.injEq] at h
    obtain ⟨x, -, y, -, c, -, value, -⟩ := h
    rw [← setWidth_signExtend u, ← value]
    split_ifs
    · exact .inr rfl
    · exact .inl rfl
  | logical i op a b =>
    simp only [words, Bool.and_eq_true, Bool.or_eq_true, decide_eq_true_eq] at hw
    obtain rfl | rfl := hw.1.1.2 <;> cases compares
  | compound i op a b | unary i op a | step i op a =>
    simp only [words, Bool.and_eq_true, decide_eq_true_eq, List.mem_cons, List.not_mem_nil,
      or_false] at hw
    have : op.isComparison = true := compares
    grind [Op.isComparison]
  | arm => cases hw
  | _ => cases compares

end Tree
end SmallC
