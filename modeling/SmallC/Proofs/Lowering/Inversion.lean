import SmallC.Lowering.Tree
import SmallC.Proofs.Lowering.Lines

/-!
# The code of a tree from the code of its parts

For each node with more than one part: where the code of its parts begins and ends, and all lines
around it. What is shown of code by induction on trees starts from these.
-/

namespace SmallC.Tree

open Lower Ir

variable {p : Tree} {here : Int} {u : Unit} {code : Option Int}
variable {ss : Symbols} {ctx : Context} {e e' : Emitter} {r : Temp} {i : Info} {op : Op}
  {a b c : Tree}
variable {j : Info}

lemma lower_binary (h : (Tree.binary i op a b).lower ss ctx e = .ok r e') :
    ∃ x e1 y e2, a.lower ss (ctx.under op) e = .ok x e1 ∧ b.lower ss (ctx.under op) e1 = .ok y e2 ∧
      ((∃ rel c, op.relation? = some rel ∧ a.type.cls = .ok c ∧ r = some (e2.temps + 1) ∧
        e' = (e2.count 1 0).add
          [.instr (.set (.temp (some (e2.temps + 1))) c (.compare rel c (.temp x) (.temp y)))]) ∨
      ∃ f c, op.relation? = none ∧ op.arith? = some f ∧ b.type.cls = .ok c ∧ r = x ∧
        e' = e2.add [.instr (.set (.temp x) c (.arith f (.temp x) (.temp y)))]) := by
  obtain ⟨x, e1, h1, h⟩ := bind_eq_ok.mp h
  obtain ⟨y, e2, h2, h⟩ := bind_eq_ok.mp h
  refine ⟨x, e1, y, e2, h1, h2, ?_⟩
  cases hrel : op.relation? with
  | some rel =>
    rw [hrel] at h
    obtain ⟨c, hc, rfl, rfl⟩ := compare_eq_ok.mp h
    exact .inl ⟨rel, c, rfl, hc, rfl, rfl⟩
  | none =>
    rw [hrel] at h
    obtain ⟨c, f, hc, hf, rfl, rfl⟩ := arith_eq_ok.mp h
    exact .inr ⟨f, c, rfl, hf, hc, rfl, rfl⟩

def truthLines (parent : Op) (x : Temp) (c : Cls) (l : Int) (e : Emitter) : List Line :=
  [.instr (.set (.temp (some (e.temps + 1))) .long (.compare .ne c (.temp x) (.int 0)))] ++
    decision parent (some (e.temps + 1)) l (e.labels + 1) ++ [.label (e.labels + 1)]

/-- The end of `&&` and `||`: the value without a shortcut and the one with it. -/
def meetLines (op : Op) (y : Temp) (c : Cls) (short last : Int) : List Line :=
  [.instr (.set (.temp y) c (.copy (.int (if op = .logOr then 0 else 1)))), .instr (.jump last),
    .label short, .instr (.set (.temp y) c (.copy (.int (if op = .logOr then 1 else 0)))),
    .label last]

lemma lower_logical (h : (Tree.logical i op a b).lower ss ctx e = .ok r e') :
    ∃ x e1 c y e2 d, a.lower ss (ctx.under op) (e.count 0 2) = .ok x e1 ∧ a.type.cls = .ok c ∧
      b.lower ss (ctx.under op) ((e1.count 1 1).add (truthLines op x c (e.labels + 1) e1)) =
        .ok y e2 ∧ b.type.cls = .ok d ∧ r = y ∧
      e' = (e2.count 1 1).add (truthLines op y d (e.labels + 1) e2 ++
        meetLines op y d (e.labels + 1) (e.labels + 2)) := by
  obtain ⟨short, e1, h1, h⟩ := bind_eq_ok.mp h
  simp only [bind_eq_ok] at h
  obtain ⟨last, e2, h2, x, e3, h3, _, e4, h4, y, e5, h5, _, e6, h6, _, e7, h7, _, e8, h8, _, e9,
    h9, _, e10, h10, _, e11, h11, h⟩ := h
  obtain ⟨rfl, rfl, rfl⟩ := two_newLabels h1 h2
  obtain ⟨c, hc, rfl, -⟩ := truth_eq_ok.mp h4
  obtain ⟨d, hd, rfl, -⟩ := truth_eq_ok.mp h6
  obtain ⟨d', hd', rfl⟩ := setConstant_eq_ok.mp h7
  obtain rfl := jump_eq_ok.mp h8
  obtain rfl := label_eq_ok.mp h9
  obtain ⟨d'', hd'', rfl⟩ := setConstant_eq_ok.mp h10
  obtain rfl := label_eq_ok.mp h11
  obtain ⟨rfl, rfl⟩ := pure_eq_ok.mp h
  obtain rfl := Except.ok.inj (hd.symm.trans hd')
  obtain rfl := Except.ok.inj (hd.symm.trans hd'')
  exact ⟨x, e3, c, r, e5, d, h3, hc, h5, hd, rfl, by simp [truthLines, meetLines]⟩

/-- A jump to `l` unless the value is the constant, which takes two temporaries. -/
def unequalLines (x : Temp) (v : Int64) (c : Cls) (l : Int) (e : Emitter) : List Line :=
  [.instr (.set (.temp (some (e.temps + 1))) c (.copy (.int v))),
    .instr (.set (.temp (some (e.temps + 2))) c
      (.compare .ne c (.temp x) (.temp (some (e.temps + 1))))),
    .instr (.branch (some (e.temps + 2)) l (e.labels + 1)), .label (e.labels + 1)]

def unlessLines (x : Temp) (l : Int) (e : Emitter) : List Line :=
  [.instr (.set (.temp (some (e.temps + 1))) .word (.copy (.int 1))),
    .instr (.set (.temp (some (e.temps + 2))) .word
      (.compare .ne .word (.temp x) (.temp (some (e.temps + 1))))),
    .instr (.branch (some (e.temps + 2)) l (e.labels + 1)), .label (e.labels + 1)]

lemma lower_ternary (h : (Tree.ternary i c a b).lower ss ctx e = .ok r e') :
    ∃ x e1 y e2 d z e3 f, c.lower ss (ctx.condition .ternary (e.labels + 1)) (e.count 0 2) = .ok x e1 ∧
      a.lower ss (ctx.condition .ternary 0)
        ((e1.count 3 1).add (unlessLines x (e.labels + 1) e1)) = .ok y e2 ∧
      a.type.cls = .ok d ∧
      b.lower ss (ctx.condition .ternary 0) (e2.add
        [.instr (.set (.temp (some (e1.temps + 3))) d (.copy (.temp y))),
          .instr (.jump (e.labels + 2)), .label (e.labels + 1)]) = .ok z e3 ∧
      b.type.cls = .ok f ∧ r = some (e1.temps + 3) ∧
      e' = e3.add [.instr (.set (.temp (some (e1.temps + 3))) f (.copy (.temp z))),
        .label (e.labels + 2)] := by
  obtain ⟨otherwise, e1, h1, h⟩ := bind_eq_ok.mp h
  simp only [bind_eq_ok] at h
  obtain ⟨last, e2, h2, x, e3, h3, _, e4, h4, n, e5, h5, y, e6, h6, _, e7, h7, _, e8, h8, _, e9,
    h9, z, e10, h10, _, e11, h11, _, e12, h12, h⟩ := h
  obtain ⟨rfl, rfl, rfl⟩ := two_newLabels h1 h2
  obtain rfl := jumpUnlessTrue_eq_ok.mp h4
  obtain ⟨rfl, rfl⟩ := newTemp_eq_ok.mp h5
  obtain ⟨d, hd, rfl⟩ := move_eq_ok.mp h7
  obtain rfl := jump_eq_ok.mp h8
  obtain rfl := label_eq_ok.mp h9
  obtain ⟨f, hf, rfl⟩ := move_eq_ok.mp h11
  obtain rfl := label_eq_ok.mp h12
  obtain ⟨rfl, rfl⟩ := pure_eq_ok.mp h
  simp only [Emitter.count_add, Emitter.count_count, Nat.reduceAdd, Emitter.add_add,
    List.cons_append, List.nil_append] at h6 h10 ⊢
  exact ⟨x, e3, y, e6, d, z, e10, f, h3, h6, hd, h10, hf, rfl, rfl⟩

lemma lower_assign (location : a.isLvalue) (h : (Tree.assign i a b).lower ss ctx e = .ok r e') :
    ∃ e1, b.lower ss (ctx.under .assign) e = .ok r e1 ∧
      ((∃ j s c, a = .ident j s ∧ (ss.get s).type.cls = .ok c ∧
        e' = e1.add [.instr (storeInstr (ss.get s) c r)]) ∨
      ∃ j p y e2 size, a = .deref j p ∧ a.lower ss (ctx.under .assign) e1 = .ok y e2 ∧
        j.type.scalarSize = .ok size ∧ e' = e2.add (storeLines size (.temp r) (.temp y))) := by
  obtain ⟨x, e1, h1, h⟩ := bind_eq_ok.mp h
  cases a with
  | ident j s =>
    simp only [bind_eq_ok] at h
    obtain ⟨_, e2, h2, h⟩ := h
    obtain ⟨c, hc, rfl⟩ := storeVar_eq_ok.mp h2
    obtain ⟨rfl, rfl⟩ := pure_eq_ok.mp h
    exact ⟨e1, h1, .inl ⟨j, s, c, rfl, hc, rfl⟩⟩
  | deref j p =>
    simp only [bind_eq_ok] at h
    obtain ⟨y, e2, h2, _, e3, h3, h⟩ := h
    obtain ⟨size, hs, rfl⟩ := storeThrough_eq_ok h3
    obtain ⟨rfl, rfl⟩ := pure_eq_ok.mp h
    exact ⟨e1, h1, .inr ⟨j, p, y, e2, size, rfl, h2, hs, rfl⟩⟩
  | _ => cases location

lemma lower_compound_ident {s : SymId}
    (h : (Tree.compound i op (.ident j s) b).lower ss ctx e = .ok r e') :
    ∃ x e1 e2 y e3 f c d, loadVar ss (ss.get s) .ident e = .ok x e1 ∧
      inType x j.type i.type e1 = .ok r e2 ∧ b.lower ss (ctx.under op) e2 = .ok y e3 ∧
      op.underlying.arith? = some f ∧ i.type.cls = .ok c ∧ (ss.get s).type.cls = .ok d ∧
      e' = e3.add [.instr (.set (.temp r) c (.arith f (.temp r) (.temp y))),
        .instr (storeInstr (ss.get s) d r)] := by
  obtain ⟨x, e1, h1, h⟩ := bind_eq_ok.mp h
  simp only [bind_eq_ok] at h
  obtain ⟨x', e2, h2, y, e3, h3, z, e4, h4, _, e5, h5, h⟩ := h
  obtain ⟨c, f, hc, hf, rfl, rfl⟩ := arith_eq_ok.mp h4
  obtain ⟨d, hd, rfl⟩ := storeVar_eq_ok.mp h5
  obtain ⟨rfl, rfl⟩ := pure_eq_ok.mp h
  exact ⟨x, e1, e2, y, e3, f, c, d, h1, h2, h3, hf, hc, hd, by simp⟩

lemma lower_compound_deref (h : (Tree.compound i op (.deref j p) b).lower ss ctx e = .ok r e') :
    ∃ z e1 t x e2 e3 y e4 f c size, p.lower ss (ctx.under op) e = .ok z e1 ∧
      j.type.pointerTo = .ok t ∧ loadThrough z t e1 = .ok x e2 ∧
      inType x j.type i.type e2 = .ok r e3 ∧ b.lower ss (ctx.under op) e3 = .ok y e4 ∧
      op.underlying.arith? = some f ∧ i.type.cls = .ok c ∧ j.type.scalarSize = .ok size ∧
      e' = e4.add (.instr (.set (.temp r) c (.arith f (.temp r) (.temp y))) ::
        storeLines size (.temp r) (.temp z)) := by
  obtain ⟨z, e1, h1, h⟩ := bind_eq_ok.mp h
  simp only [bind_eq_ok] at h
  obtain ⟨t, e2, h2, x, e3, h3, x', e4, h4, y, e5, h5, w, e6, h6, _, e7, h7, h⟩ := h
  obtain ⟨ht, rfl⟩ := ofType_eq_ok.mp h2
  obtain ⟨c, f, hc, hf, rfl, rfl⟩ := arith_eq_ok.mp h6
  obtain ⟨size, hs, rfl⟩ := storeThrough_eq_ok h7
  obtain ⟨rfl, rfl⟩ := pure_eq_ok.mp h
  exact ⟨z, e2, t, x, e3, e4, y, e5, f, c, size, h1, ht, h3, h4, h5, hf, hc, hs, by simp⟩

lemma lower_step_deref (h : (Tree.step i op (.deref j p)).lower ss ctx e = .ok r e') :
    ∃ z e1 t x e2 step c size, p.lower ss (ctx.under op) e = .ok z e1 ∧ j.type.pointerTo = .ok t ∧
      loadThrough z t e1 = .ok x e2 ∧ stepSize ss j.type j.ctype op = .ok step ∧
      j.type.cls = .ok c ∧ j.type.scalarSize = .ok size ∧
      r = (if op = .preInc || op = .preDec then some (e2.temps + 1) else x) ∧
      e' = (e2.count 1 0).add
        (.instr (.set (.temp (some (e2.temps + 1))) c (.arith .add (.temp x) (.int step))) ::
          storeLines size (.temp (some (e2.temps + 1))) (.temp z)) := by
  obtain ⟨z, e1, h1, h⟩ := bind_eq_ok.mp h
  simp only [bind_eq_ok] at h
  obtain ⟨t, e2, h2, x, e3, h3, n, e4, h4, c, e5, h5, m, e6, h6, _, e7, h7, _, e8, h8, h⟩ := h
  obtain ⟨ht, rfl⟩ := ofType_eq_ok.mp h2
  obtain ⟨hstep, rfl⟩ := ofType_eq_ok.mp h4
  obtain ⟨hc, rfl⟩ := cls_eq_ok.mp h5
  obtain ⟨rfl, rfl⟩ := newTemp_eq_ok.mp h6
  obtain rfl := setTemp_eq_ok.mp h7
  obtain ⟨size, hs, rfl⟩ := storeThrough_eq_ok h8
  obtain ⟨rfl, rfl⟩ := pure_eq_ok.mp h
  exact ⟨z, e2, t, x, e5, n, c, size, h1, ht, h3, hstep, hc, hs, rfl, by simp⟩

/-! ## Statements -/

lemma armTest_eq_ok {t : CType} {next : Int} {v : Int64} {x : Temp}
    (h : armTest x t next here (some v) e = .ok u e') :
    ∃ c, t.cls = .ok c ∧
      e' = (e.count 2 1).add (unequalLines x v c next e ++ [.instr (.jump here)]) := by
  obtain ⟨y, e1, h1, h⟩ := bind_eq_ok.mp h
  obtain ⟨_, e2, h2, h⟩ := bind_eq_ok.mp h
  obtain ⟨c, hc, rfl, rfl⟩ := loadInt_eq_ok.mp h1
  obtain ⟨c', hc', rfl⟩ := jumpUnlessEqual_eq_ok.mp h2
  obtain rfl := jump_eq_ok.mp h
  obtain rfl : c = c' := Except.ok.inj (hc.symm.trans hc')
  exact ⟨c, hc, by simp [unequalLines]⟩

lemma orNewLabel_eq_ok (h : orNewLabel code e = .ok here e') :
    code = some here ∧ e' = e ∨ code = none ∧ here = e.labels + 1 ∧ e' = e.count 0 1 := by
  cases code with
  | some l =>
    obtain ⟨rfl, rfl⟩ := pure_eq_ok.mp h
    exact .inl ⟨rfl, rfl⟩
  | none => exact .inr ⟨rfl, newLabel_eq_ok.mp h⟩

lemma forM_label_eq_ok (h : code.forM label e = .ok u e') : e' = e.add (code.toList.map .label) := by
  cases code with
  | none =>
    obtain ⟨-, rfl⟩ := pure_eq_ok.mp h
    simp
  | some l => exact label_eq_ok.mp h

section
variable {arms : List (ArmHead × Tree)} {head : ArmHead} {body : Tree} {x : Temp} {t : CType} {tests : List Int}
  {code k : Option Int}

lemma lower_switch (h : (Tree.switch i a arms).lower ss ctx e = .ok r e') :
    ∃ last tests x e1 code e2 e3, last = e.labels + 1 ∧ tests.length = arms.length ∧ tests.Nodup ∧
      (∀ l, l ∈ tests ↔ last < l ∧ l ≤ e.labels + (1 + arms.length : Nat)) ∧
      a.lower ss (ctx.under .switchOn) (e.count 0 (1 + arms.length)) = .ok x e1 ∧
      lowerArms ss { ctx with ifLabel := 0, loopEnd := last, parent := .switchOn } x a.type arms
        (tests ++ [last]) none e1 = .ok code e2 ∧
      code.forM label e2 = .ok () e3 ∧ e' = e3.add [.label last] := by
  obtain ⟨last, e1, h1, h⟩ := bind_eq_ok.mp h
  obtain ⟨tests, e2, h2, h⟩ := bind_eq_ok.mp h
  obtain ⟨rfl, rfl⟩ := newLabel_eq_ok.mp h1
  obtain ⟨length, nodup, mem, rfl⟩ := newLabels_eq_ok h2
  simp only [bind_eq_ok, Emitter.count_count] at h
  obtain ⟨x, e3, h3, code, e4, h4, _, e5, h5, _, e6, h6, h⟩ := h
  obtain rfl := label_eq_ok.mp h6
  obtain ⟨-, rfl⟩ := pure_eq_ok.mp h
  refine ⟨_, tests, x, e3, code, e4, e5, rfl, length, nodup, fun l => ?_, h3, h4, h5, rfl⟩
  rw [mem, Emitter.count_labels]
  omega

lemma lowerArms_cons (h : lowerArms ss ctx x t ((head, body) :: arms) tests code e = .ok k e') :
    ∃ here e1 e2, orNewLabel code e = .ok here e1 ∧
      armTest x t (tests.tail.headD 0) here head.value (e1.add [.label (tests.headD 0)]) = .ok () e2 ∧
      (body = .empty ∧ lowerArms ss ctx x t arms tests.tail (some here) e2 = .ok k e' ∨
        body.isEmpty = false ∧ ∃ y e3, body.lower ss ctx (e2.add [.label here]) = .ok y e3 ∧
          lowerArms ss ctx x t arms tests.tail none e3 = .ok k e') := by
  obtain ⟨here, e1, h1, run⟩ := bind_eq_ok.mp h
  simp only [bind_eq_ok] at run
  obtain ⟨_, e2, h2, _, e3, h3, run⟩ := run
  obtain rfl := label_eq_ok.mp h2
  refine ⟨here, e1, e3, h1, h3, ?_⟩
  rcases ite_eq_ok.mp run with ⟨empty, h⟩ | ⟨full, h⟩
  · exact .inl ⟨eq_empty_of_isEmpty empty, h⟩
  · obtain ⟨_, e4, h4, h⟩ := bind_eq_ok.mp h
    obtain rfl := label_eq_ok.mp h4
    obtain ⟨y, e5, h5, h⟩ := bind_eq_ok.mp h
    exact .inr ⟨by simpa using full, y, e5, h5, h⟩

end

lemma lower_branch_one (h : (Tree.branch i c a .empty).lower ss ctx e = .ok r e') :
    ∃ x e1 y e2, c.lower ss (ctx.condition .ifElse (e.labels + 1)) (e.count 0 1) = .ok x e1 ∧
      a.lower ss (ctx.condition .ifElse 0)
        ((e1.count 2 1).add (unlessLines x (e.labels + 1) e1)) = .ok y e2 ∧
      e' = e2.add [.label (e.labels + 1)] := by
  obtain ⟨otherwise, e1, h1, h⟩ := bind_eq_ok.mp h
  obtain ⟨rfl, rfl⟩ := newLabel_eq_ok.mp h1
  rcases ite_eq_ok.mp h with ⟨-, h⟩ | ⟨hno, -⟩
  · simp only [bind_eq_ok] at h
    obtain ⟨x, e3, h3, _, e4, h4, y, e5, h5, _, e6, h6, h⟩ := h
    obtain rfl := jumpUnlessTrue_eq_ok.mp h4
    obtain rfl := label_eq_ok.mp h6
    obtain ⟨-, rfl⟩ := pure_eq_ok.mp h
    exact ⟨x, e3, y, e5, h3, h5, rfl⟩
  · exact absurd rfl hno

lemma lower_branch_two (hb : b.isEmpty = false)
    (h : (Tree.branch i c a b).lower ss ctx e = .ok r e') :
    ∃ x e1 y e2 z e3, c.lower ss (ctx.condition .ifElse (e.labels + 1)) (e.count 0 2) = .ok x e1 ∧
      a.lower ss (ctx.condition .ifElse 0)
        ((e1.count 2 1).add (unlessLines x (e.labels + 1) e1)) = .ok y e2 ∧
      b.lower ss (ctx.condition .ifElse 0) ((e2.count 0 1).add
        [.label (e2.labels + 1), .instr (.jump (e.labels + 2)), .label (e.labels + 1)]) = .ok z e3 ∧
      e' = e3.add [.label (e.labels + 2)] := by
  obtain ⟨otherwise, e1, h1, h⟩ := bind_eq_ok.mp h
  rcases ite_eq_ok.mp h with ⟨hno, -⟩ | ⟨-, h⟩
  · rw [hb] at hno
    cases hno
  · obtain ⟨last, e2, h2, h⟩ := bind_eq_ok.mp h
    obtain ⟨rfl, rfl, rfl⟩ := two_newLabels h1 h2
    simp only [bind_eq_ok] at h
    obtain ⟨x, e3, h3, _, e4, h4, y, e5, h5, l, e6, h6, _, e7, h7, _, e8, h8, _, e9, h9, z, e10, h10,
      _, e11, h11, h⟩ := h
    obtain rfl := jumpUnlessTrue_eq_ok.mp h4
    obtain ⟨rfl, rfl⟩ := newLabel_eq_ok.mp h6
    obtain rfl := label_eq_ok.mp h7
    obtain rfl := jump_eq_ok.mp h8
    obtain rfl := label_eq_ok.mp h9
    obtain rfl := label_eq_ok.mp h11
    obtain ⟨-, rfl⟩ := pure_eq_ok.mp h
    simp only [Emitter.add_add, List.cons_append, List.nil_append] at h10
    exact ⟨x, e3, y, e5, z, e10, h3, h5, h10, rfl⟩

lemma lower_loop (h : (Tree.loop i c a).lower ss ctx e = .ok r e') : ∃ x e1 y e2,
      c.lower ss ({ ctx with loopTop := e.labels + 1, loopEnd := e.labels + 2 }.condition .whileLoop
        (e.labels + 2)) ((e.count 0 2).add [.label (e.labels + 1)]) = .ok x e1 ∧
      a.lower ss ({ ctx with loopTop := e.labels + 1, loopEnd := e.labels + 2 }.condition .whileLoop 0)
        ((e1.count 2 1).add (unlessLines x (e.labels + 2) e1)) = .ok y e2 ∧
      e' = e2.add [.instr (.jump (e.labels + 1)), .label (e.labels + 2)] := by
  obtain ⟨start, e1, h1, h⟩ := bind_eq_ok.mp h
  obtain ⟨last, e2, h2, h⟩ := bind_eq_ok.mp h
  obtain ⟨rfl, rfl, rfl⟩ := two_newLabels h1 h2
  simp only [bind_eq_ok] at h
  obtain ⟨_, e3, h3, x, e4, h4, _, e5, h5, y, e6, h6, _, e7, h7, _, e8, h8, h⟩ := h
  obtain rfl := label_eq_ok.mp h3
  obtain rfl := jumpUnlessTrue_eq_ok.mp h5
  obtain rfl := jump_eq_ok.mp h7
  obtain rfl := label_eq_ok.mp h8
  obtain ⟨-, rfl⟩ := pure_eq_ok.mp h
  exact ⟨x, e4, y, e6, h4, h6, by simp⟩

lemma lower_toBool (h : (Tree.toBool i a).lower ss ctx e = .ok r e') :
    ∃ x e1 c, a.lower ss (ctx.under .toBool) e = .ok x e1 ∧ a.type.cls = .ok c ∧
      r = some (e1.temps + 1) ∧
      e' = (e1.count 1 1).add (truthLines ctx.parent x c ctx.ifLabel e1) := by
  obtain ⟨x, e1, h1, h⟩ := bind_eq_ok.mp h
  obtain ⟨c, hc, rfl, rfl⟩ := truth_eq_ok.mp h
  exact ⟨x, e1, c, h1, hc, rfl, rfl⟩

end SmallC.Tree
