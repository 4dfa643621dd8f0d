import SmallC.Proofs.Lowering.Inside
import SmallC.Proofs.Parse.Unit

/-!
# What is read can be written

Where all expressions of a function have an integer or pointer type, and so have its parameters and its
value unless there is none, its code is written to its end. One thing more is asked for: no variable of
the function, and nothing that `++` or `--` moves, is a pointer to something without a size. How far a
variable would move is asked for also where it is only read.
-/

namespace SmallC

open Ir Lower
open Conversion (isScalar)

variable {ss : Symbols}

def Manner.sure : Manner := ⟨fun _ => True, fun _ _ _ => trivial, True⟩

namespace Tree

variable {ss : Symbols} {scope : Scope} {t n : Tree}

/-- How far the variable that a node names moves, or the location that it steps, is known. -/
def moves (ss : Symbols) : Tree → Bool
  | .ident _ s => ss.moves (ss.get s).type (ss.get s).ctype
  | .step _ _ (.deref i _) => ss.moves i.type i.ctype
  | _ => true

lemma IsExpression.isOperand (h : IsExpression ss scope t) : t.isOperand = true := by
  cases h <;> rfl

lemma IsPart.lowers (h : IsPart ss scope n) (moves : n.moves ss = true) : n.Lowers ss := by
  cases operand : n.isOperand with
  | true =>
    cases h.isExpression operand with
    | ident known visible typed => exact ⟨typed, moves⟩
    | deref ha la pointer typed => exact ⟨pointer, typed⟩
    | binary ha la hb lb typed hop => exact ⟨hop, ha.isOperand, hb.isOperand⟩
    | logical ha la hb lb => exact ⟨ha.isOperand, hb.isOperand⟩
    | assign ha location => exact location
    | compound ha location hb lb typed hop => exact ⟨location, hop⟩
    | widen ha | scale ha | cast ha => exact ha.isOperand
    | unary ha la hop => exact ⟨hop, ha.isOperand⟩
    | @step i op a ha location =>
      refine ⟨location, fun deref => ?_⟩
      cases a with
      | deref => exact moves
      | _ => cases deref
    | ternary hc compares ha la hb | choice hc lc ha la hb => exact ⟨ha.isOperand, hb.isOperand⟩
    | call hargs largs typed known result => exact ⟨result, fun a mem => (hargs a mem).isOperand⟩
    | _ => trivial
  | false =>
    rcases h with h | h | ⟨h, -⟩ | ⟨j, a, rfl, ha, -⟩
    · cases h with
      | expression h => cases operand.symm.trans h.isOperand
      | switch ha => exact ha.isOperand
      | _ => trivial
    · cases operand.symm.trans h.isOperand
    · cases operand.symm.trans h.isOperand
    · exact ha.isOperand

/-- The code of a statement is written to its end. -/
theorem IsStatement.writes (h : IsStatement ss scope t) {ctx : Context}
    (function : ∃ c, ctx.function.type.cls = .ok c) (scalar : ∀ n ∈ t.nodes, n.isOperand → isScalar n.type)
    (moves : ∀ n ∈ t.nodes, n.moves ss) : Writes .sure (t.lower ss ctx) := by
  refine writes_lower ss ctx (fun _ => function) t fun n hn =>
    ⟨?_, fun _ => ⟨(h.nodes n hn).lowers (moves n hn), scalar n hn⟩⟩
  unfold Manner.Reaches
  split
  · exact ⟨fun _ _ _ _ => trivial, fun _ _ _ _ _ => trivial, fun _ _ => trivial⟩
  · exact writes_address fun _ => trivial
  · trivial

end Tree

/-! ## Functions -/

namespace Lower

variable {α β : Type} {P : Manner}

lemma sure_line {l : Line} : Writes .sure (line l) :=
  ⟨fun run => line_eq_ok.mp run ▸ .add trivial, fun _ _ => ⟨(), _, line_eq_ok.mpr rfl⟩⟩

lemma Writes.mapM {f : α → Lower β} {as : List α} (h : ∀ a ∈ as, Writes P (f a)) : Writes P (as.mapM f) := by
  induction as with
  | nil => exact .pure _
  | cons a as ih =>
    rw [List.mapM_cons]
    exact (h a (.head _)).bind fun _ => (ih fun a mem => h a (.tail _ mem)).bind fun _ => .pure _

lemma Writes.forM {f : α → Lower PUnit} {as : List α} (h : ∀ a ∈ as, Writes P (f a)) :
    Writes P (as.forM f) := by
  induction as with
  | nil => exact .pure _
  | cons a as ih => exact (h a (.head _)).bind fun _ => ih fun a mem => h a (.tail _ mem)

lemma sure_paramSlot {p : Symbol} (h : isScalar p.type = true) : Writes .sure (paramSlot p) := by
  refine .ite ((Writes.size fun _ => h).bind fun size => sure_line.bind fun _ => ?_) (.pure _)
  unfold storeSized
  split
  · exact sure_line
  · exact .pure _

lemma sure_functionHead {f : Symbol} (result : ∃ c, f.type.cls = .ok c)
    (params : ∀ p ∈ f.members, isScalar (ss.get p).type) : Writes .sure (functionHead ss f) :=
  (Writes.ofType fun _ => result).bind fun _ =>
    (Writes.mapM fun p mem => (Writes.cls fun _ => params p mem).bind fun _ => .pure _).bind fun _ =>
      sure_line.bind fun _ => Writes.newLabel.bind fun _ => (Writes.label _).bind fun _ =>
        .forM fun p mem => sure_paramSlot (params p mem)

end Lower

lemma Emitter.function_ends {id : SymId} {locals : List SymId} {body : Tree}
    (head : Writes .sure (functionHead ss (ss.get id)))
    (code : Writes .sure (body.lower (localSlots ss locals).2 { function := ss.get id })) (e : Emitter) :
    (e.function ss id locals body).1 = .ok () := by
  obtain ⟨_, e1, h1⟩ := head.ends trivial e
  have whole : Writes .sure (do
      (localSlots ss locals).1.forM instr
      Lower.functionBody (localSlots ss locals).2 (ss.get id) body) :=
    (Writes.forM fun _ _ => sure_line).bind fun _ => code.bind fun _ => (Writes.label _).bind fun _ =>
      sure_line.bind fun _ => sure_line
  obtain ⟨_, e2, h2⟩ := whole.ends trivial e1
  simp only [Emitter.function, h1, h2]

/-- The code of every function that was read is written to its end, whatever was written before, if its
types have values and what moves has a width. -/
theorem compile_lowers {file source : Text} {d : Definition}
    (hd : d ∈ (Session.compile { file } source).1.functions)
    (result : d.symbol.type = .void ∨ isScalar d.symbol.type)
    (params : ∀ p ∈ d.symbol.members, isScalar (d.symbols.get p).type)
    (scalar : ∀ n ∈ d.body.nodes, n.isOperand → isScalar n.type)
    (moves : ∀ n ∈ d.body.nodes, n.moves d.settled) (e : Emitter) :
    (e.function d.symbols d.sym d.locals d.body).1 = .ok () := by
  obtain ⟨scope, shape, -⟩ := compile_shaped d hd
  have function : ∃ c, d.symbol.type.cls = .ok c := by
    rcases result with void | scalar
    · exact ⟨_, congrArg CType.cls void⟩
    · exact (CType.ok_of_isScalar scalar).1
  have settled : d.symbols.Grows d.settled := Lower.localSlots_grows _ _
  exact Emitter.function_ends (sure_functionHead function params)
    ((shape.fold.grow settled (.refl _ _)).writes function scalar moves) e

theorem compile_lowers_pointers :
    let source : Text :=
      "int g(char *s); void h(int **q, char c) \x7b switch (c) \x7b case 1: *q += 1; default: **q += g(&c); \x7d \x7d " ++
      "long f(int n, char *s) \x7b int a[4]; while (n && *s++) a[n--] = n < 2 ? *s : -n; return g(s) * (long)a[1]; \x7d"
    let functions := (Session.compile { file := "t.c" } source).1.functions
    functions.length = 2 ∧ ∀ d ∈ functions, ∀ e : Emitter, (e.function d.symbols d.sym d.locals d.body).1 = .ok () := by
  intro source functions
  have all : ∀ d ∈ functions, (d.symbol.type = .void ∨ isScalar d.symbol.type) ∧
      (∀ p ∈ d.symbol.members, isScalar (d.symbols.get p).type) ∧
      (∀ n ∈ d.body.nodes, n.isOperand → isScalar n.type) ∧ ∀ n ∈ d.body.nodes, n.moves d.settled := by
    decide +kernel
  refine ⟨by decide +kernel, fun d hd => ?_⟩
  obtain ⟨result, params, scalar, moves⟩ := all d hd
  exact compile_lowers hd result params scalar moves

/-- Every type has values, but the parameter points to nothing that has a size: reading it stops there. -/
theorem compile_stops_at_void :
    let source : Text := "void *f(void *p) \x7b return p; \x7d"
    let functions := (Session.compile { file := "t.c" } source).1.functions
    functions.length = 1 ∧ ∀ d ∈ functions, isScalar d.symbol.type ∧
      (∀ p ∈ d.symbol.members, isScalar (d.symbols.get p).type) ∧
      (∀ n ∈ d.body.nodes, n.isOperand → isScalar n.type) ∧
      (({} : Emitter).function d.symbols d.sym d.locals d.body).1.toOption = none := by
  decide +kernel

end SmallC
