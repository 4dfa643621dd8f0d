import SmallC.Proofs.Ir.Uses
import SmallC.Proofs.Lowering.Function
import SmallC.Proofs.Tree.Nodes

/-!
# Code inside of functions

What is shown of every line that the code of a tree has: it is enough to show it of the lines that mention no
variable and of those that reach the variables which the tree names. So, whatever tree is given, its code
neither begins a function nor ends one, and it defines no data. By the same induction the code of a tree comes
to its end where each node `Lowers`.
-/

namespace SmallC

open Ir
open Conversion (isScalar)

variable {x : Lower β} {f : β → Lower α} {ss : Symbols} {op : Op} {args : List (Temp × CType)}
variable {function : Symbol} {u : CType} {e e' : Emitter} {i : Info} (r a b : Temp) (n : Nat) (l : Int)
variable (v k : Int64)

/-- What may be said of the lines of a body: it holds of all that mention no variable. -/
structure Manner where
  Has : Line → Prop
  plain : ∀ line : Line, line.IsInner → line.uses = [] → Has line
  /-- All that is written is written to its end. -/
  Sure : Prop

def Manner.inner : Manner := ⟨Line.IsInner, fun _ h _ => h, False⟩

structure Manner.Knows (P : Manner) (s : Symbol) : Prop where
  read : ∀ {c}, s.type.cls = .ok c → ∀ r, ∀ line ∈ Lower.readLines r s c, P.Has line
  step : ∀ {c}, s.type.cls = .ok c → ∀ k n, ∀ line ∈ Lower.stepLines s c k n, P.Has line
  store : ∀ {c}, s.type.cls = .ok c → ∀ r, P.Has (.instr (Lower.storeInstr s c r))

structure Emitter.Fills (P : Manner) (e e' : Emitter) : Prop where
  labels : e.labels ≤ e'.labels
  lines : ∃ code, e'.lines.toList = e.lines.toList ++ code ∧ ∀ line ∈ code, P.Has line

namespace Emitter.Fills

variable {P : Manner} {e e1 e' : Emitter}

lemma code (m n : Nat) {ls : List Line} (h : ∀ line ∈ ls, P.Has line) :
    e.Fills P ((e.count m n).add ls) :=
  ⟨Int.le_add_of_nonneg_right (Int.natCast_nonneg n), ls, by simp, h⟩

lemma count (m n : Nat) : e.Fills P (e.count m n) :=
  ⟨Int.le_add_of_nonneg_right (Int.natCast_nonneg n), [], by simp, by simp⟩

lemma refl (e : Emitter) : e.Fills P e := ⟨Int.le_refl _, [], by simp, by simp⟩

lemma add {line : Line} (h : P.Has line) : e.Fills P (e.add [line]) :=
  ⟨Int.le_refl _, [line], by simp, by simpa using h⟩

lemma trans (h : e.Fills P e1) (k : e1.Fills P e') : e.Fills P e' := by
  obtain ⟨code, first, has⟩ := h.lines
  obtain ⟨more, second, has'⟩ := k.lines
  refine ⟨Int.le_trans h.labels k.labels, code ++ more, by rw [second, first, List.append_assoc], ?_⟩
  exact List.forall_mem_append.mpr ⟨has, has'⟩

end Emitter.Fills

/-- Where all is to be written, code can be written for values of the type. -/
abbrev Manner.Needs (P : Manner) (t : CType) : Prop := P.Sure → isScalar t = true

/-- How far a value of the type moves is known: what a pointer points at has a size. -/
def Symbols.moves (ss : Symbols) (t : CType) (ctype : Option SymId) : Bool :=
  !t.isPointer || (ss.sizeOf t.pointee ctype).toOption.isSome

lemma CType.ok_of_isScalar {t : CType} (h : isScalar t = true) :
    (∃ c, t.cls = .ok c) ∧ ∃ n, t.scalarSize = .ok n := by
  unfold CType.cls CType.scalarSize
  cases pointer : t.isPointer with
  | true => exact ⟨⟨_, rfl⟩, _, rfl⟩
  | false =>
    simp only [isScalar, pointer, Bool.or_false, CType.isInt, Bool.or_eq_true, decide_eq_true_eq] at h
    rcases h with (rfl | rfl) | rfl <;> exact ⟨⟨_, rfl⟩, _, rfl⟩

namespace Lower

structure Writes {α : Type} (P : Manner) (x : Lower α) : Prop where
  fills : ∀ {e a e'}, x e = .ok a e' → e.Fills P e'
  ends : P.Sure → ∀ e, ∃ a e', x e = .ok a e'

variable {P : Manner} {α β : Type}
variable {s : Symbol} {t source target : CType}

namespace Writes

lemma pure (a : α) : Writes P (pure a : Lower α) where
  fills h := by
    obtain ⟨-, rfl⟩ := pure_eq_ok.mp h
    exact .refl _
  ends _ e := ⟨a, e, rfl⟩

lemma throw (fault : LowerFault) (unsure : ¬ P.Sure) : Writes P (throw fault : Lower α) :=
  ⟨fun h => (throw_eq_ok.mp h).elim, fun sure => absurd sure unsure⟩

lemma seq (hx : Writes P x) (hf : ∀ {e b e'}, x e = .ok b e' → Writes P (f b)) : Writes P (x >>= f) where
  fills h := by
    obtain ⟨b, e1, h1, h⟩ := bind_eq_ok.mp h
    exact (hx.fills h1).trans ((hf h1).fills h)
  ends sure e := by
    obtain ⟨b, e1, h1⟩ := hx.ends sure e
    obtain ⟨a, e', h⟩ := (hf h1).ends sure e1
    exact ⟨a, e', bind_eq_ok.mpr ⟨b, e1, h1, h⟩⟩

lemma bind (hx : Writes P x) (hf : ∀ b, Writes P (f b)) : Writes P (x >>= f) := hx.seq fun _ => hf _

lemma ite {c : Prop} [Decidable c] {x y : Lower α} (hx : Writes P x) (hy : Writes P y) :
    Writes P (if c then x else y) := by
  split
  · exact hx
  · exact hy

lemma line {l : Line} (h : l.IsInner) (plain : l.uses = []) : Writes P (line l) where
  fills run := by
    obtain rfl := line_eq_ok.mp run
    exact .add (P.plain l h plain)
  ends _ _ := ⟨(), _, line_eq_ok.mpr rfl⟩

lemma instr {i : Instr} (plain : i.uses = []) : Writes P (instr i) := line trivial plain

lemma label : Writes P (label l) := line trivial rfl

lemma jump : Writes P (jump l) := line trivial rfl

lemma setTemp {t : Temp} {c : Cls} {rhs : Rhs} (plain : rhs.uses c = []) :
    Writes P (setTemp t c rhs) :=
  line trivial plain

lemma newTemp : Writes P newTemp where
  fills h := by
    obtain ⟨-, rfl⟩ := newTemp_eq_ok.mp h
    exact .count 1 0
  ends _ _ := ⟨_, _, newTemp_eq_ok.mpr ⟨rfl, rfl⟩⟩

lemma newLabel : Writes P newLabel where
  fills h := by
    obtain ⟨-, rfl⟩ := newLabel_eq_ok.mp h
    exact .count 0 1
  ends _ _ := ⟨_, _, newLabel_eq_ok.mpr ⟨rfl, rfl⟩⟩

lemma ofType {x : Except TypeFault α} (known : P.Sure → ∃ a, x = .ok a) : Writes P (ofType x) where
  fills h := by
    obtain ⟨-, rfl⟩ := ofType_eq_ok.mp h
    exact .refl _
  ends sure e := (known sure).imp fun _ h => ⟨e, ofType_eq_ok.mpr ⟨h, rfl⟩⟩

lemma cls (h : P.Needs t) : Writes P (cls t) := ofType fun sure => (CType.ok_of_isScalar (h sure)).1

lemma size (h : P.Needs t) : Writes P (Lower.ofType t.scalarSize) :=
  ofType fun sure => (CType.ok_of_isScalar (h sure)).2

lemma newLabels : Writes P (newLabels n) := by
  induction n with
  | zero => exact pure _
  | succ n ih => exact newLabel.bind fun _ => ih.bind fun _ => pure _

lemma orNewLabel (l : Option Int) : Writes P (orNewLabel l) := by
  cases l with
  | none => exact newLabel
  | some l => exact pure l

end Writes

/-! ## Operations -/

lemma writes_loadInt (h : P.Needs t) : Writes P (loadInt v t) :=
  (Writes.cls h).bind fun _ => Writes.newTemp.bind fun _ => (Writes.setTemp rfl).bind fun _ => .pure _

lemma writes_loadSized {size : Int64} {a : Temp} : Writes P (loadSized r size (.temp a)) := by
  unfold loadSized
  split
  · exact .setTemp rfl
  · exact .pure _

lemma writes_storeSized {size : Int64} {r a : Temp} :
    Writes P (storeSized size (.temp r) (.temp a)) := by
  unfold storeSized
  split
  · exact .instr rfl
  · exact .pure _

lemma writes_step {ctype : Option SymId} (moves : P.Sure → ss.moves t ctype) (op : Op) :
    Writes P (ofType (stepSize ss t ctype op)) := by
  refine .ofType fun sure => ?_
  unfold stepSize
  cases pointer : t.isPointer with
  | false => exact ⟨_, rfl⟩
  | true =>
    cases size : ss.sizeOf t.pointee ctype with
    | ok n => exact ⟨_, rfl⟩
    | error f => simpa [Symbols.moves, pointer, size, Except.toOption] using moves sure

lemma writes_loadVar (h : P.Knows s) (scalar : P.Needs s.type) (moves : P.Sure → ss.moves s.type s.ctype) :
    Writes P (loadVar ss s op) where
  fills run := by
    obtain ⟨c, step, hc, -, -, rfl⟩ := loadVar_eq_ok run
    exact .code _ _ (forall_mem_varLines (h.read hc _) (h.step hc _ _))
  ends sure e := by
    obtain ⟨⟨c, hc⟩, -⟩ := CType.ok_of_isScalar (scalar sure)
    obtain ⟨step, e1, run⟩ := (writes_step moves op).ends sure e
    simp [loadVar, hc, (ofType_eq_ok.mp run).1, stepVarIf_eq_ok, readVar_eq_ok]

lemma writes_arith (h : P.Sure → op.arith?.isSome = true ∧ isScalar t = true) :
    Writes P (arith op a b t) := by
  refine (Writes.cls fun sure => (h sure).2).bind fun c => ?_
  split
  · rename_i none
    exact .throw _ fun sure => by cases none ▸ (h sure).1
  · exact (Writes.setTemp rfl).bind fun _ => .pure _

lemma writes_unary (h : P.Sure → op ∈ [Op.negate, .invert, .logNot] ∧ isScalar t = true) :
    Writes P (unary op a t) := by
  refine (Writes.cls fun sure => (h sure).2).bind fun c => ?_
  split
  · exact (Writes.setTemp rfl).bind fun _ => .pure _
  · exact (Writes.setTemp rfl).bind fun _ => .pure _
  · exact (Writes.setTemp rfl).bind fun _ => .pure _
  · refine (Writes.throw _ fun sure => ?_).bind fun _ => .pure _
    simp_all

lemma writes_setConstant (h : P.Needs t) : Writes P (setConstant r v t) :=
  (Writes.cls h).bind fun _ => .setTemp rfl

lemma writes_truth {parent : Op} {l : Int} (h : P.Needs t) : Writes P (truth r parent l t) := by
  refine (Writes.cls h).bind fun c => Writes.newLabel.bind fun next => Writes.newTemp.bind fun n =>
    (Writes.setTemp rfl).bind fun _ => ?_
  have last : Writes P (do label next; return some n) := (Writes.label _).bind fun _ => .pure _
  dsimp only
  split
  · exact (Writes.instr rfl).bind fun _ => last
  · exact (Writes.instr rfl).bind fun _ => last
  · exact (Writes.instr rfl).bind fun _ => last
  · exact (Writes.instr rfl).bind fun _ => last
  · exact last

lemma writes_argClasses (h : P.Sure → ∀ arg ∈ args, isScalar arg.2 = true) : Writes P (argClasses args) := by
  induction args with
  | nil => exact .pure _
  | cons arg args ih =>
    exact (Writes.cls fun sure => h sure arg (.head _)).bind fun _ =>
      (ih fun sure arg mem => h sure arg (.tail _ mem)).bind fun _ => .pure _

lemma writes_call (result : P.Sure → function.type ≠ .void → isScalar function.type = true)
    (h : P.Sure → ∀ arg ∈ args, isScalar arg.2 = true) : Writes P (call function args) := by
  refine Writes.newTemp.bind fun _ => ?_
  split
  · exact (writes_argClasses h).bind fun _ => (Writes.instr rfl).bind fun _ => .pure _
  · rename_i other
    exact (Writes.cls fun sure => result sure other).bind fun _ => (writes_argClasses h).bind fun _ =>
      (Writes.setTemp rfl).bind fun _ => .pure _

lemma writes_shiftLeft (h : P.Needs t) : Writes P (shiftLeft r k t) :=
  (Writes.size h).bind fun _ => Writes.newTemp.bind fun _ => Writes.newTemp.bind fun _ => .ite
    ((Writes.setTemp rfl).bind fun _ => (Writes.setTemp rfl).bind fun _ => .pure _)
    ((Writes.setTemp rfl).bind fun _ => .pure _)

lemma writes_asLong {size : Int64} : Writes P (asLong r size) :=
  .ite (Writes.newTemp.bind fun _ => (Writes.setTemp rfl).bind fun _ => .pure _) (.pure _)

lemma writes_timesConstant (h : P.Needs t) : Writes P (timesConstant r k t) :=
  (Writes.size h).bind fun _ => (writes_asLong _).bind fun _ => (writes_loadInt _ fun _ => rfl).bind fun _ =>
    writes_arith _ _ fun _ => ⟨rfl, rfl⟩

lemma writes_storeVar (h : P.Knows s) (scalar : P.Needs s.type) {r : Temp} :
    Writes P (storeVar r s) where
  fills run := by
    obtain ⟨c, hc, rfl⟩ := storeVar_eq_ok.mp run
    exact .add (h.store hc r)
  ends sure _ := by
    obtain ⟨⟨c, hc⟩, -⟩ := CType.ok_of_isScalar (scalar sure)
    exact ⟨(), _, storeVar_eq_ok.mpr ⟨c, hc, rfl⟩⟩

lemma writes_compare {rel : Relation} {a b : Temp} (h : P.Needs t) : Writes P (compare rel a b t) :=
  (Writes.cls h).bind fun _ => Writes.newTemp.bind fun _ => (Writes.setTemp rfl).bind fun _ => .pure _

lemma writes_jumpUnlessEqual (h : P.Needs t) : Writes P (jumpUnlessEqual a b l t) :=
  (Writes.cls h).bind fun _ => Writes.newLabel.bind fun _ => Writes.newTemp.bind fun _ =>
    (Writes.setTemp rfl).bind fun _ => (Writes.instr rfl).bind fun _ => .label _

lemma writes_jumpUnlessTrue : Writes P (jumpUnlessTrue r l) :=
  (writes_loadInt _ fun _ => rfl).bind fun _ => writes_jumpUnlessEqual _ _ _ fun _ => rfl

lemma writes_armTest {next here : Int} {value : Option Int64} (h : P.Needs t) :
    Writes P (armTest r t next here value) := by
  cases value with
  | none => exact .pure _
  | some v =>
    exact (writes_loadInt _ h).bind fun _ => (writes_jumpUnlessEqual _ _ _ h).bind fun _ => .jump _

lemma writes_widen (hs : P.Needs source) (ht : P.Needs target) : Writes P (widen r source target) :=
  .ite (.pure _) ((Writes.cls hs).bind fun _ => (Writes.cls ht).bind fun _ => Writes.newTemp.bind fun _ =>
    .ite ((Writes.setTemp rfl).bind fun _ => .pure _) ((Writes.setTemp rfl).bind fun _ => .pure _))

lemma writes_inType (hs : P.Needs source) (ht : P.Needs target) : Writes P (inType r source target) :=
  .ite (.pure _) (writes_widen _ hs ht)

lemma writes_leave (h : P.Sure → ∃ c, function.type.cls = .ok c) : Writes P (leave r function) :=
  .ite ((Writes.ofType h).bind fun _ => (Writes.instr rfl).bind fun _ => .jump _) (.jump _)

lemma writes_address (h : ∀ r, P.Has (.instr (.set (.temp r) .long (.copy (.named s.storageName))))) :
    Writes P (address s) where
  fills run := by
    obtain ⟨-, rfl⟩ := address_eq_ok.mp run
    exact .code 1 0 (List.forall_mem_singleton.mpr (h _))
  ends _ _ := ⟨_, _, address_eq_ok.mpr ⟨rfl, rfl⟩⟩

lemma writes_loadThrough (h : P.Sure → t.isPointer = true ∧ isScalar t.pointee = true) :
    Writes P (loadThrough r t) := by
  refine (Writes.ofType fun sure => ?_).seq fun run => ?_
  · rw [CType.valueAt, if_neg fun zero : t.depth.val = 0 => of_decide_eq_true (h sure).1 (Fin.ext zero)]
    exact ⟨_, rfl⟩
  · obtain ⟨value, -⟩ := ofType_eq_ok.mp run
    split
    · rename_i unknown
      refine .throw _ fun sure => ?_
      obtain ⟨-, n, size⟩ := CType.ok_of_isScalar (h sure).2
      rw [CType.pointee, value] at size
      cases unknown.symm.trans size
    · exact Writes.newTemp.bind fun _ => (writes_loadSized _).bind fun _ => .pure _

lemma loads (h : ofType t.pointerTo e = .ok u e') (scalar : P.Needs t) (sure : P.Sure) :
    u.isPointer = true ∧ isScalar u.pointee = true := by
  obtain ⟨pointer, pointee⟩ := CType.of_pointerTo (ofType_eq_ok.mp h).1
  exact ⟨pointer, pointee ▸ scalar sure⟩

lemma writes_storeThrough {address : Temp} (h : P.Needs t) : Writes P (storeThrough r address t) := by
  unfold storeThrough
  split
  · rename_i unknown
    refine .throw _ fun sure => ?_
    obtain ⟨-, n, size⟩ := CType.ok_of_isScalar (h sure)
    cases unknown.symm.trans size
  · exact writes_storeSized

lemma writes_move {target : Temp} (h : P.Needs t) : Writes P (move r target t) :=
  (Writes.cls h).bind fun _ => .setTemp rfl

lemma writes_cast (hs : P.Needs source) (ht : P.Needs target) : Writes P (cast r source target) :=
  Writes.newTemp.bind fun _ => .ite (.ite (.pure _) (writes_widen _ hs ht))
    ((Writes.cls ht).bind fun _ => (Writes.size hs).bind fun _ => (Writes.size ht).bind fun _ =>
      .ite (.pure _) (.ite ((Writes.setTemp rfl).bind fun _ => .pure _) (writes_widen _ hs ht)))

end Lower

/-! ## Trees -/

open Lower

/-- The lines that reach what a node names are of the kind. -/
def Manner.Reaches (P : Manner) (ss : Symbols) : Tree → Prop
  | .ident _ s => P.Knows (ss.get s)
  | .addrOf _ (some s) _ => Writes P (Lower.address (ss.get s))
  | _ => True

namespace Tree

variable {P : Manner} {ss : Symbols} {t a b c : Tree} {ctx : Context}

/-- What a node asks of its parts and of the symbols for its code to be written. -/
def Lowers (ss : Symbols) : Tree → Prop
  | .logical _ _ a b | .ternary _ _ a b => a.isOperand ∧ b.isOperand
  | .binary _ op a b => op.isBinary ∧ a.isOperand ∧ b.isOperand
  | .unary _ op a => op ∈ [Op.negate, .invert, .logNot] ∧ a.isOperand
  | .call i s args => Bears i (ss.get s).type ∧ ∀ a ∈ args, a.isOperand
  | .switch _ a _ | .scale _ a _ | .toBool _ a | .widen _ a | .cast _ a => a.isOperand
  | .ident i s => Bears i (ss.get s).type ∧ ss.moves (ss.get s).type (ss.get s).ctype
  | .deref i a => a.type.isPointer ∧ Bears i a.type.pointee
  | .assign _ a _ => a.isLvalue
  | .compound _ op a _ => a.isLvalue ∧ op.underlying.arith?.isSome
  | .step _ _ a => a.isLvalue ∧ (a.isDeref → ss.moves a.type a.ctype)
  | .arm .. | .function .. => False
  | _ => True

/-- Of every node, the lines that reach what it names are of the kind. -/
def Allowed (P : Manner) (ss : Symbols) (n : Tree) : Prop :=
  P.Reaches ss n ∧ (P.Sure → n.Lowers ss ∧ (n.isOperand → isScalar n.type))

def Within (P : Manner) (ss : Symbols) (t : Tree) : Prop := ∀ n ∈ t.nodes, n.Allowed P ss

lemma Bears.isScalar (h : Bears i u) (scalar : isScalar i.type = true) : isScalar u = true := by
  rcases h with same | ⟨-, rfl⟩
  · exact same ▸ scalar
  · rfl

namespace Within

lemma here (h : t.Within P ss) : P.Reaches ss t := (h t (mem_nodes t)).1

lemma lowers (h : t.Within P ss) (sure : P.Sure) : t.Lowers ss := ((h t (mem_nodes t)).2 sure).1

lemma scalar (h : t.Within P ss) (operand : P.Sure → t.isOperand) : P.Needs t.type :=
  fun sure => ((h t (mem_nodes t)).2 sure).2 (operand sure)

lemma own (h : t.Within P ss) (operand : t.isOperand = true) : P.Needs t.type := h.scalar fun _ => operand

lemma held {s : SymId} (h : (ident i s).Within P ss) : P.Needs (ss.get s).type :=
  fun sure => (h.lowers sure).1.isScalar (h.own rfl sure)

lemma part (h : t.Within P ss) (parts : t.parts = a.nodes) : a.Within P ss :=
  fun n hn => h n (.tail _ (parts ▸ hn))

lemma pair (h : t.Within P ss) (parts : t.parts = a.nodes ++ b.nodes) :
    a.Within P ss ∧ b.Within P ss :=
  List.forall_mem_append.mp fun n hn => h n (.tail _ (parts ▸ hn))

lemma triple (h : t.Within P ss) (parts : t.parts = c.nodes ++ a.nodes ++ b.nodes) :
    c.Within P ss ∧ a.Within P ss ∧ b.Within P ss := by
  obtain ⟨both, hb⟩ := List.forall_mem_append.mp fun n hn => h n (.tail _ (parts ▸ hn))
  obtain ⟨hc, ha⟩ := List.forall_mem_append.mp both
  exact ⟨hc, ha, hb⟩

end Within

lemma isOperand_of_isLvalue (h : t.isLvalue = true) : t.isOperand = true := by
  cases t <;> first | rfl | cases h

lemma not_isLvalue (ident : ∀ i s, t = .ident i s → False) (deref : ∀ i a, t = .deref i a → False) :
    ¬ t.isLvalue = true := by
  cases t with
  | ident i s => exact absurd rfl (ident i s)
  | deref i a => exact absurd rfl (deref i a)
  | _ => exact nofun

lemma lowerArgs_types {ts : List Tree} {values : List (Temp × CType)}
    (h : lowerArgs ss ctx ts e = .ok values e') : values.map Prod.snd = ts.map type := by
  induction ts generalizing e e' values with
  | nil =>
    obtain ⟨rfl, -⟩ := pure_eq_ok.mp h
    rfl
  | cons t ts ih =>
    obtain ⟨rest, e1, h1, h⟩ := bind_eq_ok.mp h
    obtain ⟨r, e2, -, h⟩ := bind_eq_ok.mp h
    obtain ⟨rfl, -⟩ := pure_eq_ok.mp h
    rw [List.map_cons, List.map_cons, ih h1]

lemma Bears.pointerTo (h : Bears i u.pointee) (pointer : u.isPointer = true) :
    ∃ p, i.type.pointerTo = .ok p := by
  rcases h with same | ⟨int, -⟩
  · have more : ¬ u.depth.val = 0 := fun zero => of_decide_eq_true pointer (Fin.ext zero)
    rw [same, CType.pointee, CType.valueAt, if_neg more]
    exact ⟨_, dif_pos (by dsimp only; omega)⟩
  · rw [int]
    exact ⟨_, rfl⟩

mutual

theorem writes_lower (ss : Symbols) (ctx : Context) (hf : P.Sure → ∃ c, ctx.function.type.cls = .ok c) :
    (t : Tree) → t.Within P ss → Writes P (t.lower ss ctx)
  | .empty, _ => .pure _
  | .block _ stmts, h =>
    (writes_lowerAll ss _ ‹_› stmts fun n hn => h n (.tail _ hn)).bind fun _ => .pure _
  | .branch _ cond yes no, h =>
    have ⟨hc, hy, hn⟩ := h.triple rfl
    Writes.newLabel.bind fun _ => .ite
      ((writes_lower ss _ ‹_› cond hc).bind fun _ => (writes_jumpUnlessTrue _ _).bind fun _ =>
        (writes_lower ss _ ‹_› yes hy).bind fun _ => (Writes.label _).bind fun _ => .pure _)
      (Writes.newLabel.bind fun _ => (writes_lower ss _ ‹_› cond hc).bind fun _ =>
        (writes_jumpUnlessTrue _ _).bind fun _ => (writes_lower ss _ ‹_› yes hy).bind fun _ =>
          Writes.newLabel.bind fun _ => (Writes.label _).bind fun _ => (Writes.jump _).bind fun _ =>
            (Writes.label _).bind fun _ => (writes_lower ss _ ‹_› no hn).bind fun _ =>
              (Writes.label _).bind fun _ => .pure _)
  | .loop _ cond body, h =>
    have ⟨hc, hb⟩ := h.pair rfl
    Writes.newLabel.bind fun _ => Writes.newLabel.bind fun _ => (Writes.label _).bind fun _ =>
      (writes_lower ss _ ‹_› cond hc).bind fun _ => (writes_jumpUnlessTrue _ _).bind fun _ =>
        (writes_lower ss _ ‹_› body hb).bind fun _ => (Writes.jump _).bind fun _ =>
          (Writes.label _).bind fun _ => .pure _
  | .switch _ scrutinee arms, h =>
    have ⟨ha, harms⟩ := List.forall_mem_append.mp fun n hn => h n (.tail _ hn)
    Writes.newLabel.bind fun _ => (Writes.newLabels _).bind fun _ =>
      (writes_lower ss _ ‹_› scrutinee ha).bind fun _ =>
        (writes_lowerArms ss _ ‹_› _ (Within.scalar ha h.lowers) arms harms _ _).bind fun code =>
          Writes.bind (by cases code with | none => exact .pure _ | some l => exact .label l) fun _ =>
            (Writes.label _).bind fun _ => .pure _
  | .logical _ op left right, h =>
    have ⟨hl, hr⟩ := h.pair rfl
    have left := hl.scalar fun sure => (h.lowers sure).1
    have right := hr.scalar fun sure => (h.lowers sure).2
    Writes.newLabel.bind fun _ => Writes.newLabel.bind fun _ =>
      (writes_lower ss _ ‹_› _ hl).bind fun _ => (writes_truth _ left).bind fun _ =>
        (writes_lower ss _ ‹_› _ hr).bind fun _ => (writes_truth _ right).bind fun _ =>
          (writes_setConstant _ _ right).bind fun _ => (Writes.jump _).bind fun _ =>
            (Writes.label _).bind fun _ => (writes_setConstant _ _ right).bind fun _ =>
              (Writes.label _).bind fun _ => .pure _
  | .ternary _ cond yes no, h =>
    have ⟨hc, hy, hn⟩ := h.triple rfl
    Writes.newLabel.bind fun _ => Writes.newLabel.bind fun _ =>
      (writes_lower ss _ ‹_› cond hc).bind fun _ => (writes_jumpUnlessTrue _ _).bind fun _ =>
        Writes.newTemp.bind fun _ => (writes_lower ss _ ‹_› yes hy).bind fun _ =>
          (writes_move _ (hy.scalar fun sure => (h.lowers sure).1)).bind fun _ => (Writes.jump _).bind fun _ =>
            (Writes.label _).bind fun _ => (writes_lower ss _ ‹_› no hn).bind fun _ =>
              (writes_move _ (hn.scalar fun sure => (h.lowers sure).2)).bind fun _ =>
                (Writes.label _).bind fun _ => .pure _
  | .call _ _ args, h =>
    (writes_lowerArgs ss _ ‹_› args fun n hn => h n (.tail _ hn)).seq fun run =>
      writes_call (fun sure _ => (h.lowers sure).1.isScalar (h.own rfl sure)) fun sure arg mem => by
        have mem := List.mem_map_of_mem (f := Prod.snd) mem
        rw [lowerArgs_types run] at mem
        obtain ⟨a, ha, same⟩ := List.mem_map.mp mem
        have inside : a ∈ partsAll args := partsAll_eq args ▸ List.mem_flatMap.mpr ⟨a, ha, mem_nodes a⟩
        exact same ▸ ((h a (.tail _ inside)).2 sure).2 ((h.lowers sure).2 a ha)
  | .assign _ target value, h => by
    obtain ⟨ht, hv⟩ := h.pair rfl
    have address := writes_lower ss (ctx.under .assign) ‹_› target ht
    have source := ht.scalar fun sure => isOperand_of_isLvalue (h.lowers sure)
    refine (writes_lower ss _ ‹_› value hv).bind fun r => ?_
    split
    · exact (writes_storeVar ht.here ht.held).bind fun _ => .pure _
    · exact address.bind fun _ => (writes_storeThrough _ source).bind fun _ => .pure _
    · rename_i ident deref
      exact .throw _ fun sure => not_isLvalue ident deref (h.lowers sure)
  | .compound _ op target value, h => by
    obtain ⟨ht, hv⟩ := h.pair rfl
    have source := ht.scalar fun sure => isOperand_of_isLvalue (h.lowers sure).1
    have type := h.own rfl
    have arith : P.Sure → _ ∧ _ := fun sure => ⟨(h.lowers sure).2, type sure⟩
    unfold lower
    split
    · exact (writes_loadVar ht.here ht.held (fun sure => (ht.lowers sure).2)).bind fun _ =>
        (writes_inType _ source type).bind fun _ => (writes_lower ss _ ‹_› value hv).bind fun _ =>
          (writes_arith _ _ arith).bind fun _ => (writes_storeVar ht.here ht.held).bind fun _ => .pure _
    · rename_i operand
      exact (writes_lower ss _ ‹_› operand (ht.part rfl)).bind fun _ =>
        (Writes.ofType fun sure => (ht.lowers sure).2.pointerTo (ht.lowers sure).1).seq fun run =>
          (writes_loadThrough _ (loads run source)).bind fun _ => (writes_inType _ source type).bind fun _ =>
            (writes_lower ss _ ‹_› value hv).bind fun _ => (writes_arith _ _ arith).bind fun _ =>
              (writes_storeThrough _ source).bind fun _ => .pure _
    · rename_i ident deref
      exact .throw _ fun sure => not_isLvalue ident deref (h.lowers sure).1
  | .step _ op target, h => by
    have ht : target.Within P ss := h.part rfl
    have source := ht.scalar fun sure => isOperand_of_isLvalue (h.lowers sure).1
    unfold lower
    split
    · exact writes_loadVar ht.here ht.held (fun sure => (ht.lowers sure).2)
    · rename_i operand
      exact (writes_lower ss _ ‹_› operand (ht.part rfl)).bind fun _ =>
        (Writes.ofType fun sure => (ht.lowers sure).2.pointerTo (ht.lowers sure).1).seq fun run =>
          (writes_loadThrough _ (loads run source)).bind fun _ =>
            (writes_step (fun sure => (h.lowers sure).2 rfl) op).bind fun _ =>
              (Writes.cls source).bind fun _ => Writes.newTemp.bind fun _ => (Writes.setTemp rfl).bind fun _ =>
                (writes_storeThrough _ source).bind fun _ => .pure _
    · rename_i ident deref
      exact .throw _ fun sure => not_isLvalue ident deref (h.lowers sure).1
  | .result _ value, h =>
    (writes_lower ss _ ‹_› value (h.part rfl)).bind fun _ => (writes_leave _ hf).bind fun _ => .pure _
  | .breakOut _, _ => (Writes.jump _).bind fun _ => .pure _
  | .continueOn _, _ => (Writes.jump _).bind fun _ => .pure _
  | .intLit _ _, h => writes_loadInt _ (h.own rfl)
  | .strLit _ _, _ => Writes.newTemp.bind fun _ => (Writes.setTemp rfl).bind fun _ => .pure _
  | .ident _ _, h =>
    .ite (writes_loadVar h.here h.held (fun sure => (h.lowers sure).2)) (.pure _)
  | .addrOf _ (some _) _, h => h.here
  | .addrOf _ none operand, h => writes_lower ss _ ‹_› operand (h.part rfl)
  | .deref _ operand, h =>
    (writes_lower ss _ ‹_› operand (h.part rfl)).bind fun _ => .ite (writes_loadThrough _ fun sure =>
      (h.lowers sure).imp_right fun typed => typed.isScalar (h.own rfl sure)) (.pure _)
  | .widen _ operand, h => (writes_lower ss _ ‹_› operand (h.part rfl)).bind fun _ =>
    writes_widen _ ((h.part rfl).scalar h.lowers) (h.own rfl)
  | .scale _ operand size, h => by
    refine (writes_lower ss _ ‹_› operand (h.part rfl)).bind fun r => ?_
    split
    · exact writes_shiftLeft _ _ ((h.part rfl).scalar h.lowers)
    · exact writes_timesConstant _ _ ((h.part rfl).scalar h.lowers)
  | .cast _ operand, h => (writes_lower ss _ ‹_› operand (h.part rfl)).bind fun _ =>
    writes_cast _ ((h.part rfl).scalar h.lowers) (h.own rfl)
  | .unary _ _ operand, h =>
    (writes_lower ss _ ‹_› operand (h.part rfl)).bind fun _ => writes_unary _ fun sure =>
      (h.lowers sure).imp_right fun operand => (h.part rfl).scalar (fun _ => operand) sure
  | .toBool _ operand, h =>
    (writes_lower ss _ ‹_› operand (h.part rfl)).bind fun _ =>
      writes_truth _ ((h.part rfl).scalar h.lowers)
  | .binary _ op left right, h => by
    obtain ⟨hl, hr⟩ := h.pair rfl
    refine (writes_lower ss _ ‹_› left hl).bind fun a => (writes_lower ss _ ‹_› right hr).bind fun b => ?_
    split
    · exact writes_compare (hl.scalar fun sure => (h.lowers sure).2.1)
    · rename_i none
      refine writes_arith _ _ fun sure => ⟨?_, hr.scalar (fun sure => (h.lowers sure).2.2) sure⟩
      simpa [Op.isBinary, none] using (h.lowers sure).1
  | .arm _ _, h => .throw _ h.lowers
  | .function .., h => .throw _ h.lowers
termination_by t => sizeOf t

theorem writes_lowerAll (ss : Symbols) (ctx : Context) (hf : P.Sure → ∃ c, ctx.function.type.cls = .ok c) :
    (ts : List Tree) → (∀ n ∈ partsAll ts, n.Allowed P ss) → Writes P (lowerAll ss ctx ts)
  | [], _ => .pure _
  | t :: ts, h =>
    have ⟨ht, hts⟩ := List.forall_mem_append.mp h
    (writes_lower ss ctx ‹_› t ht).bind fun _ => writes_lowerAll ss ctx ‹_› ts hts
termination_by ts => sizeOf ts

theorem writes_lowerArgs (ss : Symbols) (ctx : Context) (hf : P.Sure → ∃ c, ctx.function.type.cls = .ok c) :
    (ts : List Tree) → (∀ n ∈ partsAll ts, n.Allowed P ss) → Writes P (lowerArgs ss ctx ts)
  | [], _ => .pure _
  | t :: ts, h =>
    have ⟨ht, hts⟩ := List.forall_mem_append.mp h
    (writes_lowerArgs ss ctx ‹_› ts hts).bind fun _ => (writes_lower ss ctx ‹_› t ht).bind fun _ => .pure _
termination_by ts => sizeOf ts

theorem writes_lowerArms (ss : Symbols) (ctx : Context) (hf : P.Sure → ∃ c, ctx.function.type.cls = .ok c)
    (r : Temp) {t : CType} (scalar : P.Needs t) :
    (arms : List (ArmHead × Tree)) → (∀ n ∈ partsArms arms, n.Allowed P ss) →
      (tests : List Int) → (code : Option Int) → Writes P (lowerArms ss ctx r t arms tests code)
  | [], _, _, _ => .pure _
  | (_, body) :: arms, h, _, _ =>
    have ⟨hb, harms⟩ := List.forall_mem_append.mp h
    (Writes.orNewLabel _).bind fun _ => (Writes.label _).bind fun _ =>
      (writes_armTest _ scalar).bind fun _ => .ite (writes_lowerArms ss ctx ‹_› r scalar arms harms _ _)
        ((Writes.label _).bind fun _ => (writes_lower ss ctx ‹_› body hb).bind fun _ =>
          writes_lowerArms ss ctx ‹_› r scalar arms harms _ _)
termination_by arms => sizeOf arms

end

/-- Every tree has its code inside of a function. -/
theorem writes_inner : Writes .inner (t.lower ss ctx) := by
  refine writes_lower ss ctx False.elim t fun n _ => ⟨?_, False.elim⟩
  unfold Manner.Reaches
  split
  · refine ⟨fun _ r => ?_, fun _ k n => ?_, fun _ r => trivial⟩
    · unfold readLines loadLines
      split
      · split <;> simp [Manner.inner, Line.IsInner]
      · simp [Manner.inner, Line.IsInner]
    · unfold stepLines bumpLines loadLines storeLines
      split
      · split <;> split <;> simp [Manner.inner, Line.IsInner]
      · simp [Manner.inner, Line.IsInner]
  · exact writes_address fun _ => trivial
  · trivial

end Tree

/-! ## Functions -/

lemma Lower.inner_of_isSlot {line : Line} (h : isSlot line = true) : line.IsInner := by
  unfold isSlot at h
  split at h
  · trivial
  · trivial
  · cases h

/-- A function adds its head, code inside of it and its end. -/
theorem Emitter.function_lines {ss' : Symbols} {id : SymId} {locals : List SymId} {body : Tree}
    (h : e.function ss id locals body = (.ok (), ss', e')) :
    ss' = (localSlots ss locals).2 ∧ e.labels ≤ e'.labels ∧ ∃ c params code,
      e'.lines.toList = e.lines.toList ++
        (.opening ((ss.get id).storage = .global) c (ss.get id).name params :: code ++
          [.ret ((ss.get id).type ≠ .void), .closing]) ∧
      (∀ line ∈ code, line.IsInner) ∧ HeadOf ss (ss.get id).members params := by
  obtain ⟨settled, c, params, r, e2, head, lower, rfl⟩ := Emitter.function_eq_ok h
  have inside := (Tree.writes_inner).fills lower
  obtain ⟨code, lines, inner⟩ := inside.lines
  refine ⟨settled, ?_, c, params, .label (e.labels + 1) :: slotLines ss (ss.get id) locals ++ code ++
    [.label (ss.get id).endLabel], by simp [lines], ?_, head⟩
  · have := inside.labels
    simp only [Emitter.add_labels, Emitter.count_labels] at this ⊢
    omega
  · simp only [List.mem_append, List.mem_cons, List.not_mem_nil, or_false]
    rintro line (((rfl | mem) | mem) | rfl)
    · trivial
    · exact inner_of_isSlot (slotLines_isSlot _ _ _ line mem)
    · exact inner line mem
    · trivial

end SmallC
