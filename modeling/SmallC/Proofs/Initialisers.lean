import SmallC.Proofs.Constants
import SmallC.Proofs.Refinement

/-!
# Initialisers of variables

A variable of file scope takes the folded value of its initialiser as it is, all 64 bits of it, and its
data shows as many of them as the variable is wide. The code of a local loads the same literal as a
word and then extends it from the type of the literal to that of the variable: a char by zeros, an int
by its sign. So the two variables hold the same exactly if no extension is needed or the type of the
literal has the value, which nothing checks: `200 + 100` is a char.
-/

namespace SmallC

open Ir Lower Parse

variable {source t : CType} {v : Int64} (x : BitVec 64)

namespace Tree.Denotes

variable {u : Tree} {e : Constant}

lemma fold_arithmetic (h : u.Denotes e) : u.fold.isArithmetic = true := by
  have := h.arithmetic
  cases u with
  | intLit i v => rfl
  | unary i op a => rcases foldsTo_unary i op a.fold with ⟨-, h⟩ | ⟨-, v, h⟩ <;> rw [fold, h] <;> rfl
  | binary i op a b =>
    rcases foldsTo_binary i op a.fold b.fold with ⟨-, h⟩ | ⟨-, v, h⟩ <;> rw [fold, h] <;> rfl
  | _ => cases this

lemma constantValue_eq (h : u.Denotes e) (int : t.isInt = true) (ok : constantValue t u.fold = .ok v) :
    e.value? = some v ∧ hasRoom t e.type = true := by
  have arithmetic := h.fold_arithmetic
  have type := (type_fold u).trans h.type
  have value := h.value
  have plain : decide (t = .charPointer) = false := by
    rw [decide_eq_false_iff_not]
    rintro rfl
    cases int
  revert ok
  cases folded : u.fold with
  | intLit i w =>
    rw [folded] at type value
    intro ok
    simp only [constantValue, plain, Bool.false_and, Bool.false_or, pure_bind] at ok
    split at ok
    · rename_i room
      cases ok
      exact ⟨value.symm, type ▸ room⟩
    · cases ok
  | unary | binary =>
    intro ok
    cases ok
  | _ =>
    rw [folded] at arithmetic
    cases arithmetic

end Tree.Denotes

namespace Parse

variable {s : ParseState} {e : Constant} {ts k : List Token} {eq : Token} {n : Nat} {name : Text}
  {t : CType} {id : SymId} {line : Int64}

lemma initialiser_global (spells : e.Spells ts) (rest : s.rest = eq :: ts ++ k) (sign : eq.kind = .assign)
    (last : (k.headD default).kind.endsExpression = true) (int : t.isInt = true) :
    Ends (initialiser (grammar n) name id { type := t, line } .global) s fun _ s' => ∃ v, e.value? = some v ∧
      hasRoom t e.type = true ∧ s' = { s with
        rest := k, table := s.table.update id fun sym => { sym with init := [v] } } := by
  have front : s.front = eq := by rw [ParseState.front, rest]; rfl
  have advanced : s.advanced = { s with rest := ts ++ k } := by rw [ParseState.advanced, rest]; rfl
  simp only [initialiser, ends_isAt, front, sign, decide_true, if_true, Bool.true_or, ends_advance,
    reduceCtorEq, if_false, constant, bind_assoc, advanced]
  refine (expression_denotes spells rfl last).bind ?_
  rintro u _ ⟨denotes, rfl⟩
  split
  · rename_i v ok
    simp only [pure_bind, ends_modifyTable_bind, ends_pure]
    obtain ⟨value, room⟩ := denotes.constantValue_eq int ok
    exact ⟨v, value, room, rfl⟩
  · simp

lemma get_initialised (st : SymbolTable) (name : Text) (t : CType) (v : Int64) :
    let added := st.addGlobal name t none .variable .global 1
    (added.2.update added.1 fun sym => { sym with init := [v] }).get added.1 =
      { st.sized name t none .variable .global 1 with init := [v] } := by
  simp only [SymbolTable.get, SymbolTable.update, SymbolTable.addGlobal, SymbolTable.create]
  rw [Symbols.get_update (by simp), if_pos rfl, Symbols.get_push_size]

lemma data_eq_ok {ss : Symbols} {st : SymbolTable} {out out' : Emitter} {u : Unit} (int : t.isInt = true)
    (h : Lower.data ss { st.sized name t none .variable .global 1 with init := [v] } out = .ok u out') :
    ∃ size, t.scalarSize = .ok size ∧ out' = out.add [.data true name size [.ofValue t size v]] := by
  rcases CType.isInt_cases int with rfl | rfl | rfl <;> exact ⟨_, rfl, line_eq_ok.mp h⟩

lemma scalar_global (spells : e.Spells ts) (rest : s.rest = eq :: ts ++ k) (sign : eq.kind = .assign)
    (last : (k.headD default).kind.endsExpression = true) (int : t.isInt = true)
    (new : s.table.findGlobal name = none) :
    Ends (scalar (grammar n) name t none .global) s fun _ s' => ∃ v size, e.value? = some v ∧
      hasRoom t e.type = true ∧ t.scalarSize = .ok size ∧
      s'.out = s.out.add [.data true name size [.ofValue t size v]] := by
  simp only [scalar, ends_peek, scalarSymbol, fileScopeSymbol, redeclared, bind_assoc, ends_table, new,
    pure_bind, ends_withTable_bind]
  refine Ends.bind (initialiser_global spells (by exact rest) sign last int) ?_
  rintro _ _ ⟨v, value, room, rfl⟩
  simp only [writeData, decide_true, Bool.true_or, if_true, ends_table, bind_assoc]
  refine Ends.bind (P := fun _ s' => ∃ size, t.scalarSize = .ok size ∧
    s'.out = s.out.add [.data true name size [.ofValue t size v]]) (ends_emit fun _ out written => ?_) ?_
  · rw [get_initialised] at written
    exact data_eq_ok int written
  · rintro _ s' ⟨size, known, out⟩
    exact ends_pure.mpr ⟨v, size, value, room, known, out⟩

lemma between_stored (e : Constant) (int : t.isInt = true) (defined : Option Int64) :
    Conversion.between e.type t defined .none = .ok (if e.type = t then some .keep
      else if hasRoom t e.type then some .widen else none) := by
  rcases e.type_cases with he | he <;> rcases CType.isInt_cases int with rfl | rfl | rfl <;> rw [he] <;> rfl

section
variable (spells : e.Spells ts) (rest : s.rest = eq :: ts ++ k) (sign : eq.kind = .assign)
  (last : (k.headD default).kind.endsExpression = true) (int : t.isInt = true)
include spells rest sign last int

lemma initialiser_local :
    Ends (initialiser (grammar n) name id { type := t, line } .local) s fun out s' =>
      ∃ (u : Tree) (i j : Info), u.Denotes e ∧ j.type = t ∧ s' = { s with rest := k } ∧
        out = some (.assign i (.ident { type := t, line } id) (if e.type = t then u else .widen j u)) := by
  have front : s.front = eq := by rw [ParseState.front, rest]; rfl
  have advanced : s.advanced = { s with rest := ts ++ k } := by rw [ParseState.advanced, rest]; rfl
  simp only [initialiser, ends_isAt, front, sign, decide_true, if_true, Bool.or_true, Bool.true_or,
    ends_advance, reduceCtorEq, advanced]
  refine (expression_denotes spells rfl last).bind ?_
  rintro u _ ⟨denotes, rfl⟩
  have stored := denotes.asRvalue
  simp only [storable, bind_assoc, ends_conversion, stored.type, between_stored e int]
  rintro _ ⟨⟩
  by_cases same : e.type = t
  · simp only [same, if_true, pure_bind, ends_pure]
    exact ⟨_, _, { type := t }, stored, rfl, trivial, rfl⟩
  · simp only [same, if_false]
    by_cases room : hasRoom t e.type = true
    · simp only [room, if_true, pure_bind, ends_pure]
      exact ⟨_, _, _, stored, rfl, trivial, rfl⟩
    · simp only [room, Bool.false_eq_true, if_false, ends_fail_bind]

lemma scalar_local : Ends (scalar (grammar n) name t none .local) s fun out s' =>
      ∃ (u : Tree) (i j l : Info), u.Denotes e ∧ j.type = t ∧ out.1 < s'.table.symbols.size ∧
        (s'.table.get out.1).type = t ∧
        out.2 = some (.assign i (.ident l out.1) (if e.type = t then u else .widen j u)) := by
  simp only [scalar, ends_peek, scalarSymbol, bind_assoc, ends_withTable_bind, ends_modifyTable_bind,
    pure_bind]
  refine Ends.bind (initialiser_local spells (by exact rest) sign last int) ?_
  rintro _ _ ⟨u, i, j, denotes, type, rfl, rfl⟩
  simp only [writeData, reduceCtorEq, decide_false, Bool.or_self, Bool.false_eq_true, if_false, pure_bind,
    ends_pure]
  refine ⟨u, i, j, _, denotes, type, ?_, ?_, rfl⟩
  · simp [SymbolTable.update, SymbolTable.addLocal, SymbolTable.create, Symbols.update]
  · simp only [SymbolTable.get, SymbolTable.update, SymbolTable.addLocal, SymbolTable.create]
    rw [Symbols.get_update (by simp), if_pos rfl, Symbols.get_push_size]
    rfl

end

end Parse

/-! ## Values -/

def CType.width (t : CType) : Nat := if t = .char then 8 else if t = .int then 32 else 64

/-- The value in an element of data that is as wide as it. -/
def Ir.Item.value? (w : Nat) : Ir.Item → Option (BitVec w)
  | .byte v => if w = 8 then some (v.toBitVec.setWidth w) else none
  | .word v => if w = 32 then some (v.toBitVec.setWidth w) else none
  | .long v => if w = 64 then some (v.toBitVec.setWidth w) else none
  | _ => none

/-- A literal of one type in another: a char is extended by zeros and an int by its sign. -/
def CType.extended (literal t : CType) (v : Int64) : BitVec 64 :=
  if literal = t then v.toBitVec
  else if literal = .char then (v.toBitVec.setWidth 8).setWidth 64
  else (v.toBitVec.setWidth 32).signExtend 64

/-- A value that the type of its literal has, as far as a variable of another type shows. -/
def CType.represents (literal t : CType) (v : Int64) : Bool := literal = t ||
    if literal = .char then (v.toBitVec.setWidth t.width).toNat < 256
    else -2 ^ 31 ≤ v.toInt && v.toInt < 2 ^ 31

lemma sign_extend_eq_iff : (x.setWidth 32).signExtend 64 = x ↔ -2 ^ 31 ≤ x.toInt ∧ x.toInt < 2 ^ 31 := by
  rw [← BitVec.toInt_inj, BitVec.toInt_signExtend_of_le (by decide), BitVec.toInt_setWidth,
    BitVec.toInt_eq_toNat_bmod]
  have := x.isLt
  simp only [Int.bmod]
  omega

variable {w : Nat}

lemma zero_extend_eq_iff (h : w = 32 ∨ w = 64) :
    ((x.setWidth 8).setWidth 64).setWidth w = x.setWidth w ↔ (x.setWidth w).toNat < 256 := by
  rw [← BitVec.toNat_inj]
  simp only [BitVec.toNat_setWidth]
  rcases h with rfl | rfl <;> omega

lemma extended_eq_iff {literal : CType} (small : literal = .char ∨ literal = .int) (int : t.isInt = true)
    (room : hasRoom t literal = true) :
    (literal.extended t v).setWidth t.width = v.toBitVec.setWidth t.width ↔
      literal.represents t v = true := by
  unfold CType.extended CType.represents
  by_cases same : literal = t
  · simp [same]
  · simp only [same, if_false, decide_false, Bool.false_or]
    rcases small with rfl | rfl <;> rcases CType.isInt_cases int with rfl | rfl | rfl
    · exact absurd rfl same
    · simp only [if_true, decide_eq_true_eq]
      exact zero_extend_eq_iff v.toBitVec (.inl rfl)
    · simp only [if_true, decide_eq_true_eq]
      exact zero_extend_eq_iff v.toBitVec (.inr rfl)
    · cases room
    · exact absurd rfl same
    · rw [if_neg (by decide), if_neg (by decide), Bool.and_eq_true, decide_eq_true_eq, decide_eq_true_eq]
      rw [show CType.long.width = 64 from rfl, BitVec.setWidth_eq, BitVec.setWidth_eq]
      exact sign_extend_eq_iff v.toBitVec

lemma Ir.Target.fit_low (T : Target) (v : BitVec 64) (h : w ≤ 32) :
    (T.fit .word v).setWidth w = v.setWidth w := by
  have low := congrArg (BitVec.setWidth w) (T.low_pad (v.setWidth 32))
  rwa [BitVec.setWidth_setWidth_of_le _ h, BitVec.setWidth_setWidth_of_le _ h] at low

namespace Tree

/-- The code of an expression leaves a value. -/
def Leaves (ss : Symbols) (t : Tree) {w : Nat} (v : BitVec w) : Prop :=
  ∀ (ctx : Context) (e : Emitter), ∃ r n ls, t.lower ss ctx e = .ok r ((e.count n 0).add ls) ∧
    ∀ {T : Target} (s : State T) (code rest : List Line), Seg code s.pc (ls ++ rest) →
      s.Reaches code fun s' => s'.pc = s.pc + ls.length ∧ (s'.temps r).setWidth w = v

/-- The code of an assignment comes to storing a value in a variable. -/
def Assigns (ss : Symbols) (t : Tree) (id : SymId) {w : Nat} (v : BitVec w) : Prop :=
  ∀ (ctx : Context) (e : Emitter), ∃ r e' c ls, t.lower ss ctx e = .ok r e' ∧
    (ss.get id).type.cls = .ok c ∧
    e'.lines.toList = e.lines.toList ++ ls ++ [.instr (storeInstr (ss.get id) c r)] ∧
    ∀ {T : Target} (s : State T) (code : List Line),
      Seg code s.pc (ls ++ [.instr (storeInstr (ss.get id) c r)]) →
        s.Reaches code fun s' => s'.pc = s.pc + ls.length ∧ (s'.temps r).setWidth w = v

variable {ss : Symbols} {id : SymId} {i j l : Info} {v : Int64} {t : CType}
variable {d : Cls}

lemma Leaves.assigns {b : Tree} {x : BitVec w} {c : Cls} (h : Leaves ss b x)
    (classed : (ss.get id).type.cls = .ok c) : Assigns ss (.assign i (.ident l id) b) id x := by
  intro ctx e
  obtain ⟨r, n, ls, lower, run⟩ := h (ctx.under .assign) e
  have store : (Tree.assign i (.ident l id) b).lower ss ctx e = .ok r
      (((e.count n 0).add ls).add [.instr (storeInstr (ss.get id) c r)]) :=
    bind_eq_ok.mpr ⟨r, _, lower, bind_eq_ok.mpr ⟨(), _, storeVar_eq_ok.mpr ⟨c, classed, rfl⟩, rfl⟩⟩
  refine ⟨r, _, c, ls, store, classed, ?_, fun s code seg => run s code _ seg⟩
  simp only [Emitter.add_lines, Emitter.count_lines]

lemma leaves_literal (small : j.type = .char ∨ j.type = .int) (narrow : w ≤ 32) :
    Leaves ss (.intLit j v) (v.toBitVec.setWidth w) := by
  intro ctx e
  have word : j.type.cls = .ok .word := by rcases small with type | type <;> rw [type] <;> rfl
  refine ⟨_, 1, _, loadInt_eq_ok.mpr ⟨.word, word, rfl, rfl⟩, fun {T} s code rest seg => ?_⟩
  refine .set seg rfl (.here ⟨rfl, ?_⟩)
  rw [State.next_temps, State.setTemp_temps, if_pos rfl]
  exact T.fit_low v.toBitVec narrow

lemma fit_width (int : t.isInt = true) (classed : t.cls = .ok d) (T : Target) (x : BitVec 64) :
    (T.fit d x).setWidth t.width = x.setWidth t.width := by
  rcases CType.isInt_cases int with rfl | rfl | rfl <;> cases classed
  · exact T.fit_low x (by decide)
  · exact T.fit_low x (by decide)
  · rfl

lemma extension_apply (small : source = .char ∨ source = .int) (other : source ≠ t) (T : Target) (v : Int64) :
    (extension source .word).apply (T.fit .word v.toBitVec) = source.extended t v := by
  rw [CType.extended, if_neg other]
  rcases small with rfl | rfl
  · exact congrArg (BitVec.setWidth 64) (T.fit_low v.toBitVec (by decide))
  · exact congrArg (BitVec.signExtend 64) (T.fit_low v.toBitVec (by decide))

lemma widen_ok {a : Temp} (small : source = .char ∨ source = .int) (classed : t.cls = .ok d) {e : Emitter} :
    Lower.widen a source t e = .ok (some (e.temps + 1)) ((e.count 1 0).add
      [.instr (.set (.temp (some (e.temps + 1))) d (.extend (extension source .word) a))]) := by
  have narrow : source.cls = .ok .word := by rcases small with rfl | rfl <;> rfl
  rw [Lower.widen, if_neg (by rcases small with rfl | rfl <;> decide)]
  refine bind_eq_ok.mpr ⟨_, _, cls_eq_ok.mpr ⟨narrow, rfl⟩, bind_eq_ok.mpr ⟨_, _,
    cls_eq_ok.mpr ⟨classed, rfl⟩, bind_eq_ok.mpr ⟨_, _, newTemp_eq_ok.mpr ⟨rfl, rfl⟩, ?_⟩⟩⟩
  rcases small with rfl | rfl <;> exact bind_eq_ok.mpr ⟨(), _, setTemp_eq_ok.mpr rfl, rfl⟩

lemma leaves_widened (small : j.type = .char ∨ j.type = .int) (wide : l.type = t) (other : j.type ≠ t)
    (int : t.isInt = true) (classed : t.cls = .ok d) :
    Leaves ss (.widen l (.intLit j v)) ((j.type.extended t v).setWidth t.width) := by
  intro ctx e
  have word : j.type.cls = .ok .word := by rcases small with type | type <;> rw [type] <;> rfl
  have load : (Tree.intLit j v).lower ss (ctx.under .widen) e = _ :=
    loadInt_eq_ok.mpr ⟨.word, word, rfl, rfl⟩
  have lower : (Tree.widen l (.intLit j v)).lower ss ctx e = _ :=
    bind_eq_ok.mpr ⟨_, _, load, widen_ok small (wide ▸ classed)⟩
  simp only [Emitter.count_add, Emitter.add_add, Emitter.count_count] at lower
  refine ⟨_, _, _, lower, fun {T} s code rest seg => ?_⟩
  refine .set seg rfl (.set seg.tail rfl (.here ⟨rfl, ?_⟩))
  rw [State.next_temps, State.setTemp_temps, if_pos rfl, fit_width int classed,
    State.next_temps, State.setTemp_temps, if_pos rfl]
  exact congrArg _ (extension_apply small other T v)

lemma Denotes.assigns {u : Tree} {e : Constant} (h : u.Denotes e) (value : e.value? = some v)
    (int : t.isInt = true) (known : (ss.get id).type = t) (wide : j.type = t) :
    Assigns ss (Tree.assign i (.ident l id) (if e.type = t then u else .widen j u)).fold id
      ((e.type.extended t v).setWidth t.width) := by
  obtain ⟨m, folded, type⟩ := h.fold_eq value
  have small : m.type = .char ∨ m.type = .int := type ▸ e.type_cases
  obtain ⟨d, classed⟩ : ∃ d, t.cls = .ok d := by
    rcases CType.isInt_cases int with rfl | rfl | rfl <;> exact ⟨_, rfl⟩
  have stored : (ss.get id).type.cls = .ok d := known ▸ classed
  rw [← type]
  by_cases same : m.type = t
  · rw [if_pos same, fold, folded, CType.extended, if_pos same]
    refine (leaves_literal small ?_).assigns stored
    rw [← same]
    rcases small with type | type <;> rw [type] <;> decide
  · rw [if_neg same, fold, fold, folded]
    exact (leaves_widened small wide same int classed).assigns stored

end Tree

/-! ## Declarations -/

/-- A variable was declared with an expression of literals for its value. -/
structure Initialised (e : Constant) (t : CType) (storage : StorageClass) (name : Text)
    (s : ParseState) (out : SymId × Option Tree) (s' : ParseState) : Prop where
  tokens : ∃ (eq : Token) (ts rest : List Token), s.rest = eq :: ts ++ rest ∧ eq.kind = .assign ∧
    e.Spells ts ∧ (rest.headD default).kind.endsExpression = true
  accepted : ∃ n, scalar (grammar n) name t none storage s = .ok out s'

lemma value?_ofValue {size : Int64} (int : t.isInt = true) (known : t.scalarSize = .ok size) (v : Int64) :
    (Ir.Item.ofValue t size v).value? t.width = some (v.toBitVec.setWidth t.width) := by
  rcases CType.isInt_cases int with rfl | rfl | rfl <;> cases known <;> rfl

/-- One declaration at file scope and in a function, where both are accepted: the value in the data, the
value that the code comes to storing, and when they are the same. -/
theorem initialised_alike {e : Constant} {t : CType} {name other : Text} {s s1 s' s1' : ParseState}
    {out out' : SymId × Option Tree} (int : t.isInt = true) (new : s.table.findGlobal name = none)
    (file : Initialised e t .global name s out s1)
    (inner : Initialised e t .local other s' out' s1') :
    ∃ (v align : Int64) (item : Ir.Item) (init : Tree), e.value? = some v ∧
      s1.out.lines.toList = s.out.lines.toList ++ [.data true name align [item]] ∧
      item.value? t.width = some (v.toBitVec.setWidth t.width) ∧ out'.2 = some init ∧
      (∀ ss, s1'.table.symbols.Grows ss →
        init.fold.Assigns ss out'.1 ((e.type.extended t v).setWidth t.width)) ∧
      ((e.type.extended t v).setWidth t.width = v.toBitVec.setWidth t.width ↔
        e.type.represents t v = true) := by
  obtain ⟨⟨eq, ts, k, rest, sign, spells, last⟩, n, ok⟩ := file
  obtain ⟨v, size, value, room, known, written⟩ := scalar_global spells rest sign last int new _ _ ok
  obtain ⟨⟨eq', ts', k', rest', sign', spells', last'⟩, n', ok'⟩ := inner
  obtain ⟨u, i, j, l, denotes, wide, inside, type, init⟩ := scalar_local spells' rest' sign' last' int _ _ ok'
  refine ⟨v, size, _, _, value, by rw [written, Emitter.add_lines], value?_ofValue int known v, init, ?_,
    extended_eq_iff e.type_cases int room⟩
  intro ss grows
  have keeps : (ss.get out'.1).type = t := (grows.keeps _ inside).type.trans type
  exact denotes.assigns value int keeps wide

/-- The tokens of `= (1 + 2) * 7;`. -/
theorem initialised_alike_sevenfold :
    let e : Constant := .binary .star (.grouped (.binary .plus (.literal 1) (.literal 2))) (.literal 7)
    let s : ParseState :=
      { rest := [{ kind := .assign }, { kind := .lparen }, { kind := .integer, value := 1 },
          { kind := .plus }, { kind := .integer, value := 2 }, { kind := .rparen }, { kind := .star },
          { kind := .integer, value := 7 }, { kind := .semicolon }]
        bound := 20, table := {}, out := {}, file := "t.c" }
    ∃ out s1 out' s1', Initialised e .int .global "x" s out s1 ∧
      Initialised e .int .local "x" s out' s1' ∧ s.table.findGlobal "x" = none ∧
      e.type.represents .int 21 = true ∧ ∃ (align : Int64) (item : Ir.Item) (init : Tree),
        e.value? = some 21 ∧ s1.out.lines.toList = [.data true "x" align [item]] ∧
        item.value? 32 = some 21 ∧ out'.2 = some init ∧
        ∀ ss, s1'.table.symbols.Grows ss → init.fold.Assigns ss out'.1 (21 : BitVec 32) := by
  intro e s
  have spells : e.Spells (s.rest.drop 1).dropLast :=
    .binary (t := { kind := .star }) (by decide) (by decide) (by decide)
      (.grouped rfl rfl (.binary (t := { kind := .plus }) (by decide) (by decide) (by decide)
        (.literal (t := { kind := .integer, value := 1 }) rfl)
        (.literal (t := { kind := .integer, value := 2 }) rfl)))
      (.literal (t := { kind := .integer, value := 7 }) rfl)
  have accepted (storage : StorageClass) (h : (match scalar (grammar 20) "x" .int none storage s with
      | .ok .. => true
      | .error .. => false) = true) :
      ∃ out s1, Initialised e .int storage "x" s out s1 := by
    split at h
    · rename_i out s1 ok
      exact ⟨out, s1, ⟨{ kind := .assign }, _, [{ kind := .semicolon }], rfl, rfl, spells, rfl⟩, 20, ok⟩
    · cases h
  obtain ⟨out, s1, file⟩ := accepted .global (by decide +kernel)
  obtain ⟨out', s1', inner⟩ := accepted .local (by decide +kernel)
  obtain ⟨v, align, item, init, value, lines, holds, assignment, code, -⟩ :=
    initialised_alike rfl rfl file inner
  obtain rfl : v = 21 := by
    have known : e.value? = some 21 := by decide +kernel
    exact Option.some.inj (value.symm.trans known)
  exact ⟨out, s1, out', s1', file, inner, rfl, by decide, align, item, init, value, lines, holds,
    assignment, code⟩

/-- The global `x` is 300 and the local is 44. -/
theorem initialised_apart :
    let source : Text := "int x = 200 + 100; int f() \x7b int x = 200 + 100; return x; \x7d"
    let lines := (Session.compile { file := "t.c" } source).2.out.lines.toList
    (∃ code, (Session.compile { file := "t.c" } source).1.outcome = .ok code) ∧
      .data true "x" 4 [.word 300] ∈ lines ∧ (texts lines).length = 1 ∧
      ∀ text ∈ texts lines, (State.entered fun _ => 0).Returns text 44 ∧
        ¬ (State.entered fun _ => 0).Returns text 300 := by
  intro source lines
  obtain ⟨code, ok⟩ := exists_of_isSome (x := (Session.compile { file := "t.c" } source).1.outcome)
    (by decide +kernel)
  have run : ∀ text ∈ texts lines,
      (((State.entered fun _ => 0).run text 8).map fun s' => (text[s'.pc]?, s'.result.setWidth 32)) =
        some (some (.ret true), 44) := by decide +kernel
  refine ⟨⟨code, ok⟩, by decide +kernel, by decide +kernel, fun text mem => ?_⟩
  have returns := State.returns_iff_of_run (run text mem)
  exact ⟨(returns 44).mpr rfl, fun whole => absurd ((returns 300).mp whole) (by decide)⟩

end SmallC
