import SmallC.Proofs.Conversion
import SmallC.Proofs.Parse.Type

/-!
# Reading expressions

What is read as an expression is one: operands are wanted as values and have been adapted to each
other, and an identifier is what its name stood for when it was read. Reading is quiet, also where a
type in a cast or in `sizeof` defines something.
-/

namespace SmallC

open ParseState

variable {k : TokenKind}

lemma TokenKind.isBinary_binaryOp {p : Nat} (h : k.power? = some p) (plain : k.isAssignment = false)
    (other : k ≠ .question) (joins : k.binaryOp.isLogical = false) : k.binaryOp.isBinary = true := by
  cases k <;> first | rfl | exact absurd rfl other | (cases plain; done) | (cases joins; done) | cases h

lemma TokenKind.binaryOp_mem_storing (assigns : k.isAssignment = true) (other : k ≠ .assign) :
    k.binaryOp ∈ Tree.storing := by
  cases k with
  | assign => exact absurd rfl other
  | plusAssign | minusAssign | starAssign | slashAssign | percentAssign => decide
  | _ => cases assigns

namespace Parse

variable {g : Grammar} {s s1 : ParseState} {ss : Symbols} {scope : Scope} {line : Int64} {value operand : Tree}
  {viaPointer : Bool}

/-! ## Binary operators -/

lemma storable_ends {t : CType} {ctype : Option SymId} {fault : Fault} :
    Ends (storable value t ctype fault) s fun v s' =>
      s' = s ∧ (∃ c, v = value.converted c t ctype) ∧ v.type.fits t = true ∧ t ≠ .none := by
  simp only [storable, ends_conversion]
  intro c hc
  split
  · rw [ends_pure]
    exact ⟨rfl, ⟨_, rfl⟩, Tree.converted_fits hc, Tree.ne_none_of_between hc⟩
  · exact ends_fail.mpr trivial

lemma assignment_ends {target : Tree} (ht : target.IsExpression ss scope) (hv : value.IsExpression ss scope) :
    Ends (assignment target value line) s fun t s' => s' = s ∧ t.IsExpression ss scope := by
  simp only [assignment, ends_ite, ends_fail_bind, implies_true, and_true]
  intro location
  refine storable_ends.bind ?_
  rintro v s1 ⟨rfl, ⟨c, rfl⟩, fits, -⟩
  rw [ends_pure]
  have loaded := value.loaded_asRvalue
  exact ⟨rfl, .assign ht location (hv.asRvalue.converted loaded _ _ _) (loaded.converted _ _ _) fits⟩

lemma compoundAssignment_ends {target : Tree} {op : Op} (hop : op ∈ Tree.storing)
    (ht : target.IsExpression ss scope) (hv : value.IsExpression ss scope) :
    Ends (compoundAssignment op target value line) s
      fun t s' => s' = s ∧ t.IsExpression ss scope := by
  simp only [compoundAssignment, ends_ite, ends_fail_bind, implies_true, true_and, and_true,
    ends_conversion, ends_pure]
  intro location left hleft right hright some
  have loaded := value.loaded_asRvalue
  refine .compound ht location (hv.asRvalue.adapted loaded _ _ _) (loaded.adapted _ _ _) ?_ ?_
  · exact Tree.adapted_combines hop hleft hright (by simpa [or_iff_not_imp_left] using some)
  · exact (by decide : ∀ op ∈ Tree.storing, op.underlying.arith?.isSome) op hop

lemma binary_ends {left right : Tree} {op : Op} (hop : op.isLogical = false → op.isBinary)
    (hl : left.IsExpression ss scope) (hr : right.IsExpression ss scope) :
    Ends (binary op left right line) s fun t s' => s' = s ∧ t.IsExpression ss scope := by
  simp only [binary, ends_conversion, ends_ite, ends_fail_bind, implies_true, true_and, ends_pure]
  intro onLeft hleft onRight hright some
  have ha := hl.asRvalue.adapted left.loaded_asRvalue onLeft right.asRvalue.type right.asRvalue.ctype
  have hb := hr.asRvalue.adapted right.loaded_asRvalue onRight left.asRvalue.type left.asRvalue.ctype
  have la := left.loaded_asRvalue.adapted onLeft right.asRvalue.type right.asRvalue.ctype
  have lb := right.loaded_asRvalue.adapted onRight left.asRvalue.type left.asRvalue.ctype
  refine ⟨fun _ => .logical ha la hb lb, fun logical => ?_⟩
  have joins := Bool.eq_false_iff.mpr logical
  refine .binary ha la hb lb (Tree.adapted_matched joins ?_ hleft hright (by simpa using some)) (hop joins)
  rintro rfl
  cases hop rfl

lemma ternary_ends (hg : g.Sound) (hs : s.Sound) (q : Quiet s s1) {cond yes : Tree} (hc : Reads s s1 cond)
    (hy : Reads s s1 yes) (ly : yes.Loaded) :
    Ends (ternary g cond yes line) s1 fun t s' => Quiet s s' ∧ Reads s s' t ∧ t.Loaded := by
  unfold ternary
  refine ends_expect fun _ => ?_
  refine (hg.expression q.sound.advanced).ends.bind ?_
  rintro no s2 ⟨q2a, hn, ln⟩
  have q2 := q2a.of_advanced
  have hc := (hc.later q.toLeads q2.toLeads).asRvalue
  have hy := hy.later q.toLeads q2.toLeads
  have hn := Reads.earlier hs (q.trans (.advanced q.sound)) q2a.toLeads hn
  rw [ends_pure]
  refine ⟨q.trans q2, ?_, .of_not_isLvalue rfl⟩
  rcases hc.asCondition cond.loaded_asRvalue with ⟨hc, compares⟩ | ⟨j, a, heq, ha, la⟩
  · exact .ternary hc compares hy ly hn ln (.inl rfl)
  · have same : Tree.asCondition cond.asRvalue = .toBool j a := heq
    rw [same]
    exact .choice ha la hy ly hn ln (.inl rfl)

/-! ## Operands -/

lemma arrayAccess_ends (hg : g.Sound) (hs : s.Sound) (q : Quiet s s1) {left : Tree}
    (hl : Reads s s1 left) :
    Ends (arrayAccess g left) s1 fun t s' => Quiet s s' ∧ Reads s s' t := by
  simp only [arrayAccess, ends_ite, ends_fail_bind, implies_true, and_true, ends_advance]
  intro pointer
  refine (hg.expression q.sound.advanced).ends.bind ?_
  rintro index s2 ⟨q2a, hi, li⟩
  have q2 := q2a.of_advanced
  have hl := (hl.later q.toLeads q2.toLeads).asRvalue
  have hi := Reads.earlier hs (q.trans (.advanced q.sound)) q2a.toLeads hi
  refine ends_expect fun _ => ?_
  simp only [ends_ite, ends_fail_bind, implies_true, and_true, ends_conversion, ends_pure]
  intro int c hc
  have q3 := (q.trans q2).trans (.advanced q2.sound)
  obtain ⟨c, rfl, moves⟩ := Conversion.between_index int pointer hc
  refine ⟨q3, .deref (.binary hl left.loaded_asRvalue (hi.converted li _ _ _) (li.converted _ _ _) ?_ rfl)
    (.of_not_isLvalue rfl) pointer (.inl rfl)⟩
  simp [Tree.matched, Tree.type_asRvalue, Tree.type_converted moves]

lemma memberBase_ends {left : Tree} (hl : left.IsExpression ss scope) :
    Ends (memberBase left viaPointer) s fun t s' => s' = s ∧ t.IsExpression ss scope ∧
      (t.type.isComposite || t.type = .structPointer || t.type = .unionPointer) = true := by
  simp only [memberBase, ends_ite, ends_fail_bind, implies_true, and_true, true_and, ends_pure]
  refine ⟨fun _ pointer => ⟨hl, ?_⟩, fun _ composite => ?_⟩
  · rw [Bool.or_assoc, pointer, Bool.or_true]
  split
  · rw [ends_pure]
    cases hl with
    | ident known visible typed =>
      refine ⟨rfl, .addrOf known visible (.inr (.inr ?_)), by simp [Tree.type, Tree.info] at *; simp [composite]⟩
      rcases typed with same | ⟨int, -⟩
      · exact same ▸ composite
      · cases (congrArg CType.isComposite int).symm.trans composite
  · rw [ends_pure]
    cases hl with
    | deref ha la => exact ⟨rfl, .base ha la, by simp [Tree.type, Tree.info] at *; simp [composite]⟩
  · exact ends_fail.mpr trivial

lemma memberAccess_ends (q : Quiet s s1) {left : Tree} (hl : Reads s s1 left) :
    Ends (memberAccess left viaPointer) s1 fun t s' => Quiet s s' ∧ Reads s s' t := by
  refine (memberBase_ends hl).bind ?_
  rintro base s2 ⟨rfl, hb, member⟩
  split
  · rw [ends_advance]
    refine ends_expectIdentifier fun _ => ?_
    rw [ends_table]
    split
    · simp only [ends_ofType_bind, ends_pure]
      intro type pointer
      have q := q.trans ((Quiet.advanced q.sound.advanced).of_advanced)
      obtain ⟨isPointer, pointee⟩ := CType.of_pointerTo pointer
      refine ⟨q, .deref (.binary hb.asRvalue base.loaded_asRvalue .intLit (.of_not_isLvalue rfl) ?_ rfl)
        (.of_not_isLvalue rfl) isPointer (.inl pointee.symm)⟩
      rw [← Tree.type_asRvalue] at member
      refine Bool.or_eq_true_iff.mpr (.inr (Bool.and_eq_true_iff.mpr ⟨rfl, member⟩))
    · exact ends_fail.mpr trivial
  · exact ends_fail.mpr trivial

lemma parenthesised_ends (hg : g.Sound) (hs : s.Sound) :
    Ends (parenthesised g) s fun t s' => Quiet s s' ∧ Reads s s' t := by
  rw [parenthesised, ends_advance]
  refine ends_isTypeName fun b => ?_
  rw [ends_ite]
  refine ⟨fun _ => ?_, fun _ => ?_⟩
  · refine (silent.castType (Grammar.has hg) _ hs.advanced).ends.bind ?_
    rintro spec s1 q1
    have q1 := q1.of_advanced
    refine ends_expect fun _ => ?_
    have q1 := q1.trans (.advanced q1.sound)
    refine (hg.unaryExpression q1.sound).ends.bind ?_
    rintro operand s2 ⟨q2, ho⟩
    rw [ends_pure]
    exact ⟨q1.trans q2, .cast (ho.earlier hs q1 q2.toLeads).asRvalue operand.loaded_asRvalue⟩
  · refine (hg.expression hs.advanced).ends.bind ?_
    rintro t s1 ⟨q1, ht, -⟩
    have q1 := q1.of_advanced
    refine ends_expect fun _ => ?_
    rw [ends_pure]
    exact ⟨q1.trans (.advanced q1.sound), ht⟩

def ReadsAll (s s' : ParseState) (ts : List Tree) : Prop := ∀ t ∈ ts, Reads s s' t ∧ t.Loaded

lemma ReadsAll.later {s' s'' : ParseState} {ts : List Tree} (h : ReadsAll s s' ts) (l : Leads s s')
    (k : Leads s' s'') : ReadsAll s s'' ts :=
  fun t ht => ⟨(h t ht).1.later l k, (h t ht).2⟩

lemma expressionList_ends (hg : g.Sound) (hs : s.Sound) {last : TokenKind} :
    Ends (expressionList g last) s fun ts s' => Quiet s s' ∧ ReadsAll s s' ts := by
  refine Ends.iterate (fun done s' => Quiet s s' ∧ ReadsAll s s' done) ⟨.refl hs, nofun⟩ ?_
  rintro done s1 ⟨q1, hd⟩
  simp only [ends_isAt, ends_ite, ends_pure]
  refine ⟨fun _ => ⟨q1, fun t ht => hd t (List.mem_reverse.mp ht)⟩, fun _ => ?_⟩
  refine (hg.expression q1.sound).ends.bind ?_
  rintro t s2 ⟨q2, ht, lt⟩
  have q := q1.trans q2
  have hd : ReadsAll s s2 (t :: done) := List.forall_mem_cons.mpr
      ⟨⟨ht.earlier hs q1 q2.toLeads, lt⟩, hd.later q1.toLeads q2.toLeads⟩
  simp only [ends_isAt, ends_ite, ends_pure]
  refine ⟨fun _ => ⟨q, fun t ht => hd t (List.mem_reverse.mp ht)⟩, fun _ => ends_expect fun _ => ?_⟩
  rw [ends_pure]
  exact ⟨q.trans (.advanced q.sound), hd⟩

def FitsAll (ts : List Tree) (params : List Symbol) : Prop :=
  ∀ p ∈ (ts.map Tree.type).zip params, p.1.fits p.2.type = true ∧ p.2.type ≠ .none

lemma adaptArgs_ends {args : List Tree} (params : List Symbol) (h : ReadsAll s s1 args) :
    Ends (adaptArgs args params) s1 fun ts s' => s' = s1 ∧ ReadsAll s s1 ts ∧ FitsAll ts params := by
  induction args generalizing params with
  | nil => exact ends_pure.mpr ⟨rfl, h, by simp [FitsAll]⟩
  | cons arg args ih =>
    cases params with
    | nil => exact ends_pure.mpr ⟨rfl, h, by simp [FitsAll]⟩
    | cons param params =>
      obtain ⟨ha, hargs⟩ := List.forall_mem_cons.mp h
      refine Ends.bind storable_ends ?_
      rintro v s2 ⟨rfl, ⟨c, rfl⟩, fits⟩
      refine (ih params hargs).bind ?_
      rintro vs s3 ⟨rfl, hvs, fitsAll⟩
      rw [ends_pure]
      exact ⟨rfl, List.forall_mem_cons.mpr ⟨⟨ha.1.converted ha.2 _ _ _, ha.2.converted _ _ _⟩, hvs⟩,
        List.forall_mem_cons.mpr ⟨fits, fitsAll⟩⟩

lemma FitsAll.accepts {st : SymbolTable} {f : SymId} {ts : List Tree}
    (h : FitsAll ts ((st.get f).members.map st.get)) : st.symbols.Accepts f (ts.map Tree.type) := by
  rintro ⟨t, id⟩ hp
  have mem : (t, st.get id) ∈ (ts.map Tree.type).zip ((st.get f).members.map st.get) := by
    rw [List.zip_map_right]
    exact List.mem_map.mpr ⟨(t, id), hp, rfl⟩
  obtain ⟨fits, known⟩ := h _ mem
  refine ⟨?_, fits⟩
  by_contra none
  refine known ?_
  change (st.symbols.get id).type = .none
  rw [Symbols.get_of_size_le (Nat.le_of_not_lt none)]
  rfl

lemma functionCall_ends (hg : g.Sound) (hs : s.Sound) {sym : SymId} (known : sym < s.table.symbols.size) :
    Ends (functionCall g sym line) s fun t s' => Quiet s s' ∧ Reads s s' t := by
  refine ends_expect fun _ => ?_
  refine (expressionList_ends hg hs.advanced).bind ?_
  rintro args s1 ⟨q1, hargs⟩
  have q1 := q1.of_advanced
  refine ends_expect fun _ => ?_
  have q2 := q1.trans (.advanced q1.sound)
  rw [ends_table]
  have hargs : ReadsAll s s1.advanced args := hargs
  refine (adaptArgs_ends _ hargs).bind ?_
  rintro args s2 ⟨rfl, hargs, fits⟩
  rw [ends_pure]
  have known := Nat.lt_of_lt_of_le known q2.symbols.size
  exact ⟨q2, .call (fun a ha => (hargs a ha).1) (fun a ha => (hargs a ha).2) (fun _ => ⟨known, fits.accepts⟩)
    known (.inl rfl)⟩

lemma sizeofOperand_ends (hg : g.Sound) (hs : s.Sound) :
    Ends (sizeofOperand g line) s fun t s' => Quiet s s' ∧ Reads s s' t := by
  refine (silent.sizeofOperand (Grammar.has hg) s hs).ends.and ?_
  simp only [sizeofOperand, ends_isAt, ends_ite, ends_fail_bind, implies_true, and_true, ends_advance]
  exact fun _ => .later fun _ _ => .later fun _ _ => .later fun _ _ => .later fun _ _ => .later fun _ _ =>
    ends_pure.mpr .intLit

lemma stringOperand_ends (hs : s.Sound) {first : Token} :
    Ends (stringOperand first) s fun t s' => Quiet s s' ∧ Reads s s' t :=
  (silent.string first s hs).ends.and
    (.later fun _ _ => .later fun _ _ => .later fun _ _ => ends_pure.mpr .strLit)

lemma lookup_sees (hs : s.Sound) {name : Text} {id : SymId} (h : s.table.lookup name = some id) :
    id < s.table.symbols.size ∧ Sees s s id := by
  rcases Option.or_eq_some_iff.mp h with h | ⟨-, h⟩
  · rw [SymbolTable.findLocal_eq] at h
    obtain ⟨mem, hname⟩ := SymbolTable.mem_of_findIn h
    refine ⟨hs.table.scope_lt mem, .inr ?_⟩
    rw [SymbolTable.Finds, hname]
    exact h
  · obtain ⟨lt, fileScope⟩ := hs.table.globals id (SymbolTable.mem_of_findIn h).1
    exact ⟨lt, .inl fileScope⟩

lemma hasPlace_of_array (hs : s.Sound) {id : SymId} (sees : Sees s s id)
    (kind : (s.table.get id).kind = .array) : (s.table.symbols.get id).HasPlace := by
  rcases sees with fileScope | finds
  · exact .inl fileScope
  · obtain ⟨lt, frame⟩ := hs.table.known id
      (List.mem_append_left _ (SymbolTable.mem_of_findIn finds).1)
    exact .inr (.inl ((hs.table.fit id lt).housed frame (.inl kind)))

lemma resolve_sound {name : Text} : Runs (resolve name) s (fun referent s' => s' = s ∧
    ∀ id, referent = .symbol id → s.table.lookup name = some id) fun _ s' => s' = s := by
  rw [resolve, runs_table]
  split
  · exact ⟨rfl, nofun⟩
  · split
    · rename_i found
      refine ⟨rfl, ?_⟩
      rintro _ ⟨⟩
      exact found
    · exact ⟨rfl, rfl⟩

lemma identifierOperand_ends (hg : g.Sound) (hs : s.Sound) {t : Token} :
    Ends (identifierOperand g t) s fun t s' => Quiet s s' ∧ Reads s s' t := by
  refine hg.resolve.ends.bind ?_
  rintro (v | id) s1 ⟨rfl, stands⟩
  · exact ends_pure.mpr ⟨.advanced hs, .intLit⟩
  · obtain ⟨known, visible⟩ := lookup_sees hs (stands id rfl)
    rw [ends_advance, ends_symbol]
    dsimp only
    split
    · rw [ends_pure]
      exact ⟨.advanced hs, .ident known visible (.inl rfl)⟩
    · rename_i kind
      rw [ends_pure]
      exact ⟨.advanced hs, .addrOf known visible (hasPlace_of_array hs visible kind)⟩
    · simp only [ends_isAt, ends_ite, ends_fail_bind, implies_true, and_true]
      intro _
      refine (functionCall_ends hg hs.advanced known).mono ?_
      rintro t s' ⟨q, ht⟩
      exact ⟨q.of_advanced, ht⟩

lemma primary_ends (hg : g.Sound) (hs : s.Sound) :
    Ends (primary g) s fun t s' => Quiet s s' ∧ Reads s s' t := by
  rw [primary, ends_peek]
  split
  · exact ends_fail.mpr trivial
  · exact ends_fail.mpr trivial
  · rw [ends_advance]
    refine (sizeofOperand_ends hg hs.advanced).mono ?_
    rintro t s' ⟨q, ht⟩
    exact ⟨q.of_advanced, ht⟩
  · rw [ends_advance, ends_pure]
    exact ⟨.advanced hs, .intLit⟩
  · rw [ends_advance]
    refine (stringOperand_ends hs.advanced).mono ?_
    rintro t s' ⟨q, ht⟩
    exact ⟨q.of_advanced, ht⟩
  · exact identifierOperand_ends hg hs
  · exact parenthesised_ends hg hs
  · exact ends_fail.mpr trivial

lemma stepAfter_ends (q : Quiet s s1) {t : Token} (ho : Reads s s1 operand) :
    Ends (stepAfter operand t) s1 fun t s' => Quiet s s' ∧ Reads s s' t := by
  simp only [stepAfter, ends_ite, ends_fail_bind, implies_true, true_and, and_true, ends_advance,
    ends_pure]
  intro _ _ location
  exact ⟨q.trans (.advanced q.sound), .step ho location⟩

lemma postfixed_ends (hg : g.Sound) (hs : s.Sound) :
    Ends (postfixed g) s fun t s' => Quiet s s' ∧ Reads s s' t := by
  refine (primary_ends hg hs).bind ?_
  rintro t s1 h1
  refine Ends.iterate (fun t s' => Quiet s s' ∧ Reads s s' t) h1 ?_
  rintro operand s2 ⟨q, ho⟩
  rw [ends_peek]
  split
  · exact (arrayAccess_ends hg hs q ho).bind fun t s3 h => ends_pure.mpr h
  · exact (memberAccess_ends q ho).bind fun t s3 h => ends_pure.mpr h
  · exact (memberAccess_ends q ho).bind fun t s3 h => ends_pure.mpr h
  · exact (stepAfter_ends q ho).bind fun t s3 h => ends_pure.mpr h
  · exact (stepAfter_ends q ho).bind fun t s3 h => ends_pure.mpr h
  · rw [ends_pure]
    exact ⟨q, ho⟩

lemma addressOf_ends (q : Quiet s s1) (ho : Reads s s1 operand) :
    Ends (addressOf operand line) s1 fun t s' => Quiet s s' ∧ Reads s s' t := by
  unfold addressOf
  split
  · rename_i info sym
    simp only [ends_ofType_bind, ends_modifyTable_bind, ends_pure]
    intro type _
    have q2 : Quiet s1 { s1 with table := s1.table.update sym fun s => { s with hasAddr := true } } :=
      .update q.sound (fun _ => .of_core rfl fun _ => rfl) rfl
    cases ho.later q.toLeads q2.toLeads with
    | ident known visible _ =>
      refine ⟨q.trans q2, .addrOf known visible (.inr (.inl ?_))⟩
      simp only [SymbolTable.update, Symbols.size_update] at known ⊢
      rw [Symbols.get_update known, if_pos rfl]
  · simp only [ends_symbol, ends_ite, ends_fail, implies_true, and_self]
  · exact ends_fail.mpr trivial

section
variable (kind : TokenKind) {operand : Tree} (line : Int64) (ho : operand.IsExpression ss scope)
include ho

lemma contentOf_ends : Ends (contentOf operand) s fun t s' => s' = s ∧ t.IsExpression ss scope := by
  simp only [contentOf, ends_ite, ends_fail_bind, implies_true, and_true, true_and, ends_pure]
  exact fun pointer => .deref ho.asRvalue operand.loaded_asRvalue pointer (.inl rfl)

lemma unaryOf_isExpression : (unaryOf kind operand line).IsExpression ss scope := by
  have loaded := operand.loaded_asRvalue
  have ops : (if kind = .minus then Op.negate else if kind = .bang then .logNot else .invert) ∈
      [Op.negate, .invert, .logNot] := by
    split
    · simp
    · split <;> simp
  unfold unaryOf
  dsimp only
  split
  · rename_i char
    simp only [Bool.and_eq_true, decide_eq_true_eq] at char
    exact .unary (ho.asRvalue.withType char.2) (loaded.withType _) ops
  · exact .unary ho.asRvalue loaded ops

lemma stepBefore_ends :
    Ends (stepBefore kind operand line) s fun t s' => s' = s ∧ t.IsExpression ss scope := by
  unfold stepBefore
  split
  · rw [ends_pure]
    exact ⟨rfl, .step ho rfl⟩
  · exact ends_fail.mpr trivial

end

theorem unaryExpression_ends (hg : g.Sound) (hs : s.Sound) :
    Ends (unaryExpression g) s fun t s' => Quiet s s' ∧ Reads s s' t := by
  have operand : Ends g.unaryExpression s.advanced fun t s' => Quiet s s' ∧ Reads s s' t := by
    refine (hg.unaryExpression hs.advanced).ends.mono ?_
    rintro t s' ⟨q, ht⟩
    exact ⟨q.of_advanced, ht⟩
  have minus : ∀ kind line, Ends (do return unaryOf kind (← g.unaryExpression) line) s.advanced
      fun t s' => Quiet s s' ∧ Reads s s' t := by
    intro kind line
    refine operand.bind ?_
    rintro t s1 ⟨q, ht⟩
    rw [ends_pure]
    exact ⟨q, unaryOf_isExpression kind line ht⟩
  have step : ∀ kind line, Ends (do stepBefore kind (← g.unaryExpression) line) s.advanced
      fun t s' => Quiet s s' ∧ Reads s s' t := by
    intro kind line
    refine operand.bind ?_
    rintro t s1 ⟨q, ht⟩
    refine (stepBefore_ends kind line ht).mono ?_
    rintro t s2 ⟨rfl, ht⟩
    exact ⟨q, ht⟩
  rw [unaryExpression, ends_peek]
  split
  · exact operand.bind fun t s1 h => addressOf_ends h.1 h.2
  · refine operand.bind ?_
    rintro t s1 ⟨q, ht⟩
    refine (contentOf_ends ht).mono ?_
    rintro t s2 ⟨rfl, ht⟩
    exact ⟨q, ht⟩
  · exact minus _ _
  · exact minus _ _
  · exact minus _ _
  · exact step _ _
  · exact step _ _
  · exact postfixed_ends hg hs

/-! ## The whole -/

lemma continued_ends (hg : g.Sound) (hs : s.Sound) (q : Quiet s s1) {power : Nat} {left : Tree}
    (hl : Reads s s1 left) :
    Ends (continued g power left) s1 fun r s' =>
      r.elim (fun t => Quiet s s' ∧ Reads s s' t) fun t => Quiet s s' ∧ Reads s s' t ∧ t.Loaded := by
  have ended : Quiet s s1 ∧ Reads s s1 left.asRvalue ∧ left.asRvalue.Loaded :=
    ⟨q, hl.asRvalue, left.loaded_asRvalue⟩
  simp only [continued, ends_peek, ends_ite, ends_pure]
  refine ⟨fun _ => ended, fun _ => ?_⟩
  split
  · rename_i power hpower
    simp only [ends_ite, ends_pure, ends_advance]
    refine ⟨fun _ => ended, fun _ => ?_⟩
    refine (hg.expression q.sound.advanced).ends.bind ?_
    rintro right s2 ⟨q2a, hr, lr⟩
    have q2 := q2a.of_advanced
    have hl := hl.later q.toLeads q2.toLeads
    have hr := Reads.earlier hs (q.trans (.advanced q.sound)) q2a.toLeads hr
    have q := q.trans q2
    split
    · exact (ternary_ends hg hs q hl hr lr).bind fun t s3 h => ends_pure.mpr h
    · refine (assignment_ends hl hr).bind ?_
      rintro t s3 ⟨rfl, ht⟩
      exact ends_pure.mpr ⟨q, ht⟩
    · rename_i choice other
      rw [ends_ite]
      refine ⟨fun assigns => ?_, fun plain => ?_⟩
      · refine (compoundAssignment_ends (TokenKind.binaryOp_mem_storing assigns other) hl hr).bind ?_
        rintro t s3 ⟨rfl, ht⟩
        exact ends_pure.mpr ⟨q, ht⟩
      · refine (binary_ends (TokenKind.isBinary_binaryOp hpower (by simpa using plain) choice) hl hr).bind ?_
        rintro t s3 ⟨rfl, ht⟩
        exact ends_pure.mpr ⟨q, ht⟩
  · exact ends_fail.mpr trivial

theorem expression_ends (hg : g.Sound) (hs : s.Sound) {power : Nat} :
    Ends (expression g power) s fun t s' => Quiet s s' ∧ Reads s s' t ∧ t.Loaded := by
  refine (unaryExpression_ends hg hs).bind ?_
  rintro t s1 h1
  exact Ends.iterate (fun t s' => Quiet s s' ∧ Reads s s' t) h1
    fun left s2 h => continued_ends hg hs h.1 h.2

end Parse
end SmallC
