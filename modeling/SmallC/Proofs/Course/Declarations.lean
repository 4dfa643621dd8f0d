import SmallC.Proofs.Course.Reading

/-!
# The course of declarations

Locals and members are noted and have nothing to do with file scope. The declarations of file scope are
the events that `Goes` names, and they come from words of storage class or from the top of a file.
-/

namespace SmallC

open ParseState SymbolTable

variable {storage : StorageClass} {name : Text} {t : CType} {ctype : Option SymId} {id : SymId}
variable {s' : ParseState}

/-- Neither of file scope nor a parameter. -/
def StorageClass.IsInner (storage : StorageClass) : Prop := storage = .local ∨ storage = .member

namespace Parse

variable {c : Prop} {g : Grammar} (hg : g.Going) {s s1 : ParseState} {end1 end2 : TokenKind} {count : Int64}

/-! ## Variables and arrays -/

lemma redeclared_course : Ends (redeclared storage name t ctype) s fun r s' =>
      (r = none ∧ s' = s ∧ s.table.findGlobal name = none) ∨
      ∃ id, r = some id ∧ s' = { s with table := s'.table } ∧
        ∀ kind count, s.table.Enters storage name t ctype kind count id s'.table := by
  rw [redeclared, ends_table]
  cases found : s.table.findGlobal name with
  | none => exact ends_pure.mpr (.inl ⟨rfl, rfl, rfl⟩)
  | some id =>
    simp only [ends_ite, ends_fail_bind, ends_fail, implies_true, true_and, and_true,
      ends_modifyTable_bind, Bool.or_eq_true, Bool.and_eq_true, decide_eq_true_eq, not_and, not_not]
    intro linkage type definition
    exact ends_pure.mpr (.inr ⟨id, rfl, rfl, fun _ _ => .again found linkage type definition⟩)

lemma fileScopeSymbol_course {kind : Kind} :
    Ends (fileScopeSymbol storage name t ctype kind count) s fun id s' =>
      s' = { s with table := s'.table } ∧
        s.table.Enters storage name t ctype kind count id s'.table := by
  refine redeclared_course.bind ?_
  rintro r s1 (⟨rfl, rfl, new⟩ | ⟨id, rfl, same, enters⟩)
  · exact ends_withTable.mpr ⟨rfl, .new new⟩
  · exact ends_pure.mpr ⟨same, enters kind count⟩

lemma data_puts {ss : Symbols} {y : Symbol} {e e' : Emitter} {u : Unit}
    (defines : storage = .global ∨ storage = .static) (h : Lower.data ss y e = .ok u e') :
    e.Puts storage y e' := by
  unfold Emitter.Puts
  rcases ite_eq_ok.mp h with ⟨none, h⟩ | ⟨some, h⟩
  · rw [if_neg]
    · exact (pure_eq_ok.mp h).2
    · rintro ⟨-, kind, here⟩
      simp [kind, here] at none
  · rw [if_pos ⟨defines, by simpa using some⟩]
    obtain ⟨size, e1, h1, rest⟩ := bind_eq_ok.mp h
    obtain ⟨align, e2, h2, last⟩ := bind_eq_ok.mp rest
    obtain ⟨-, rfl⟩ := Lower.ofType_eq_ok.mp h1
    obtain ⟨-, rfl⟩ := Lower.ofType_eq_ok.mp h2
    exact ⟨align, _, Lower.line_eq_ok.mp last⟩

lemma writeData_course : Ends (writeData storage id) s fun _ s' =>
      s' = { s with out := s'.out } ∧ s.out.Puts storage (s.table.get id) s'.out := by
  simp only [writeData, ends_ite, ends_table, Bool.or_eq_true, decide_eq_true_eq]
  refine ⟨fun defines => ends_emit fun _ out h => ⟨rfl, data_puts defines h⟩,
    fun other => ends_pure.mpr ⟨rfl, ?_⟩⟩
  rw [Emitter.Puts, if_neg fun h => other h.1]

include hg

omit hg in
lemma going_addLocal {kind : Kind} {hasAddr : Bool} (plain : kind ≠ .function) : Going c (do
      let id ← withTable fun st => st.addLocal name t ctype kind count
      modifyTable fun st => st.update id fun s => { s with hasAddr }
      return id) := by
  have add : Going c (withTable fun st => st.addLocal name t ctype kind count) := by
    refine going_withTable fun st => .push rfl rfl ?_ fun _ => ?_
    · exact plain
    · exact ⟨rfl, StorageClass.noConfusion⟩
  exact add.bind fun id => .bind (going.update _ fun _ => rfl) fun _ => going.pure _

omit hg in
lemma going_scalarSymbol (inner : storage.IsInner) : Going c (scalarSymbol name t ctype storage) := by
  rcases inner with rfl | rfl
  · exact going_addLocal Kind.noConfusion
  · change Going c (withTable fun st => st.addMember name t ctype .variable 1)
    refine going_withTable fun st => .push rfl rfl ?_ fun _ => ?_
    · exact Kind.noConfusion
    · exact ⟨rfl, StorageClass.noConfusion⟩

omit hg in
lemma going_arraySymbol (inner : storage.IsInner) : Going c (arraySymbol name t ctype storage) := by
  rcases inner with rfl | rfl
  · exact going_addLocal Kind.noConfusion
  · exact going.fail nofun

omit hg in
lemma going_writeData (inner : storage.IsInner) : Going c (writeData storage id) := by
  rcases inner with rfl | rfl
  · exact going.pure _
  · exact going.pure _

lemma going_scalar (inner : storage.IsInner) : Going False (scalar g name t ctype storage) :=
  going.pair.peek.bind fun _ => (going_scalarSymbol inner).bind fun _ =>
    (going.pair.initialiser hg.has).bind fun _ => (going_writeData inner).bind fun _ => going.pure _

lemma arrayRest_course {length : Option Int64} : Ends (do
      let length ← arrayInitialiser g name t storage id length
      let count := max (length.getD (-1)) 0
      if storage ≠ .external && count = 0 then fail (.emptyArray (← symbol id).name)
      let size ← ofType ((← table).symbols.sizeOf t ctype)
      modifyTable fun st => st.update id fun s => { s with count, size := count * size }
      writeData storage id
      return id) s fun r s' => r = id ∧ ∃ s1 st out, Goes (s.Worded s1) s s1 ∧
        (∃ count size, st = s1.table.update id fun s => { s with count, size }) ∧
        s1.out.Puts storage (st.get id) out ∧ s' = { s1 with table := st, out } := by
  refine (going.pair.arrayInitialiser hg.has s).bind fun length s1 read => ?_
  simp only [ends_ite, ends_symbol, ends_fail_bind, implies_true, true_and, ends_table, ends_ofType_bind,
    ends_modifyTable_bind]
  intro _ size _
  refine writeData_course.bind ?_
  rintro - s2 ⟨same, puts⟩
  exact ends_pure.mpr ⟨rfl, s1, _, s2.out, read.mono (·.resolve_left not_false), ⟨_, _, rfl⟩, puts, same⟩

lemma going_array (inner : storage.IsInner) : Going False (array g name t ctype storage) := by
  refine (going.pair.arrayLength hg.has).bind fun length => going.pair.ofType.bind fun pointer => ?_
  rcases inner with rfl | rfl
  · intro s
    refine Ends.bind (P := fun id s' => Goes (False ∨ s.Worded s') s s' ∧ id < s'.table.symbols.size ∧
      (s'.table.get id).kind = .array) ?_ ?_
    · refine Ends.and (going_arraySymbol (.inl rfl) s) ?_
      simp only [arraySymbol, ends_withTable_bind, ends_modifyTable_bind, ends_pure, addLocal, create,
        SymbolTable.update, SymbolTable.get]
      rw [Symbols.update_push_size, Array.size_push, Symbols.get_push_size]
      exact ⟨Nat.lt_succ_self _, rfl⟩
    · rintro id s1 ⟨first, lt, kind⟩
      refine (arrayRest_course hg).mono ?_
      rintro r s' ⟨-, s2, st, out, read, ⟨count, size, rfl⟩, puts, rfl⟩
      rw [Emitter.Puts, if_neg (by rintro ⟨h | h, -⟩ <;> cases h)] at puts
      subst puts
      have same : (s2.table.get id).kind = .array := (read.carries.fits id lt).kind.trans kind
      refine first.seq (.trans (read.mono .inr) (.notes (.update ⟨⟨rfl, rfl, rfl, rfl⟩, rfl, rfl⟩ ?_)))
      exact fun _ function => by cases same.symm.trans function
  · exact fun s => ends_fail_bind.mpr trivial

omit hg in
lemma ends_fileScope {kind : Kind} (fileScope : storage.isFileScope = true) :
    (kind = .variable → count = 1 → scalarSymbol name t ctype storage =
      fileScopeSymbol storage name t ctype kind count) ∧
    (kind = .array → count = 0 → arraySymbol name t ctype storage =
      fileScopeSymbol storage name t ctype kind count) := by
  cases storage
  case global | static | external => exact ⟨by rintro rfl rfl; rfl, by rintro rfl rfl; rfl⟩
  all_goals cases fileScope

omit hg in
/-- A declaration of a variable or an array of file scope: its symbol, what is read after it, its length
and its data. -/
inductive Introduces (storage : StorageClass) (name : Text) (t : CType) (ctype : Option SymId)
    (kind : Kind) (id : SymId) (s : ParseState) : ParseState → Prop
  | mk {count : Int64} {st st' : SymbolTable} {s1 : ParseState} {out : Emitter}
      (enters : s.table.Enters storage name t ctype kind count id st)
      (reads : Goes (s.Worded s1) { s with table := st } s1)
      (sized : st' = s1.table ∨
        kind = .array ∧ ∃ count size, st' = s1.table.update id fun y => { y with count, size })
      (puts : s1.out.Puts storage (st'.get id) out) :
      Introduces storage name t ctype kind id s { s1 with table := st', out }

omit hg in
lemma Introduces.goes {kind : Kind} (plain : kind ≠ .function)
    (h : Introduces storage name t ctype kind id s s') : Goes True s s' := by
  obtain ⟨enters, reads, sized, puts⟩ := h
  rename_i st' s1 out
  have resized : s1.table.Notes True st' := by
    rcases sized with rfl | ⟨-, count, size, rfl⟩
    · exact .refl _
    · exact .update ⟨⟨rfl, rfl, rfl, rfl⟩, rfl, rfl⟩ fun quiet => absurd trivial quiet
  have reads : Goes True { s with table := _ } { s1 with table := st' } :=
    (reads.mono fun _ => trivial).trans (.notes resized)
  exact .declares trivial plain enters reads puts

lemma scalar_course (fileScope : storage.isFileScope = true) :
    Ends (scalar g name t ctype storage) s fun r s' =>
      Introduces storage name t ctype .variable r.1 s s' := by
  unfold scalar
  rw [ends_peek, (ends_fileScope fileScope).1 rfl rfl]
  refine fileScopeSymbol_course.bind ?_
  rintro id s1 ⟨same, enters⟩
  rw [same]
  refine (going.pair.initialiser hg.has _).bind fun init s2 read => ?_
  refine writeData_course.bind ?_
  rintro - s3 ⟨same', puts⟩
  rw [ends_pure, same']
  exact .mk enters (read.mono (·.resolve_left not_false)) (.inl rfl) puts

lemma array_course (fileScope : storage.isFileScope = true) {P : ParseState → Prop}
    (before : Ends (arrayLength g) s fun _ s0 => P s0) :
    Ends (array g name t ctype storage) s fun id s' => ∃ pointer s0, t.pointerTo = .ok pointer ∧ P s0 ∧
      Introduces storage name pointer ctype .array id s0 s' := by
  refine before.bind fun length s0 before => ?_
  rw [ends_ofType_bind]
  intro pointer made
  rw [(ends_fileScope fileScope).2 rfl rfl]
  refine fileScopeSymbol_course.bind ?_
  rintro id s1 ⟨same, enters⟩
  refine (arrayRest_course hg).mono ?_
  rintro r s' ⟨rfl, s2, st, out, read, ⟨count, size, rfl⟩, puts, rfl⟩
  refine ⟨pointer, s0, made, before, ?_⟩
  rw [same] at read
  exact .mk enters read (.inr ⟨rfl, count, size, rfl⟩) puts

/-! ## Functions -/

omit hg in
inductive FindsFunction (name : Text) (t : CType) (ctype : Option SymId) (storage : StorageClass)
    (s : ParseState) : SymId → ParseState → Prop
  | new (h : s.table.lookup name = none) : FindsFunction name t ctype storage s s.table.symbols.size
        { s with
          table := declared s.table name t ctype storage (s.out.labels + 1), out := s.out.count 0 1 }
  | again {id : SymId} (h : s.table.lookup name = some id) (kind : (s.table.get id).kind = .function) :
      FindsFunction name t ctype storage s id s

omit hg in
lemma functionSymbol_course : Ends (functionSymbol (s.table.lookup name) name t ctype storage) s
      (FindsFunction name t ctype storage s) := by
  cases found : s.table.lookup name with
  | none =>
    exact Runs.ends (E := fun _ _ => True) (runs_newFunction.mpr (.new found))
  | some id =>
    simp only [functionSymbol, ends_symbol, ends_ite, ends_fail_bind, implies_true, true_and, ends_pure,
      not_not]
    exact .again found

omit hg in
/-- The tables once the parameters of a function have been read: they are its own if it has none yet. -/
def adopted (earlier : Bool) (id : SymId) (count : Nat) (st : SymbolTable) : SymbolTable :=
  if earlier then st.takeParams.2
  else st.takeParams.2.update id fun y => { y with count := Int64.ofNat count, members := st.params }

omit hg in
lemma ends_function {Q : SymId → ParseState → Prop}
    (h : ∀ id s1 count s2, FindsFunction name t ctype storage s id s1 →
      parameters g ((s.table.lookup name).map s.table.get) s1.advanced = .ok count s2 →
      Ends (bodyIfAny g id s2.table.params { type := t, ctype, line := s.front.line } name)
        { s2.advanced with table := adopted (s.table.lookup name).isSome id count s2.table }
        fun _ s' => Q id s') : Ends (function g name t ctype storage) s Q := by
  unfold function
  rw [ends_peek, ends_table]
  refine functionSymbol_course.bind fun id s1 found => ends_expect fun _ => ?_
  refine Ends.bind (P := fun count s2 =>
    parameters g ((s.table.lookup name).map s.table.get) s1.advanced = .ok count s2)
    (fun _ _ run => run) fun count s2 run => ends_expect fun _ => ?_
  rw [ends_withTable_bind, ends_modifyTable_bind]
  refine Ends.bind (h id s1 count s2 found run) fun _ s' done => ends_pure.mpr done

omit hg in
/-- The body of a function, from its beginning to the code written for it. -/
inductive Finishes (id : SymId) (params : List SymId) (s : ParseState) : ParseState → Prop
  | mk {s1 : ParseState} {info : Info} {body : Tree} {out : Emitter}
      (undefined : (s.table.get id).defined = false)
      (reads : Goes (s.Worded s1) (s.entered id params) s1)
      (written : s1.out.function s1.table.symbols id s1.table.locals body.fold =
        (.ok (), (s1.definition info id body).settled, out)) :
      Finishes id params s (s1.left (s1.definition info id body) out)

omit hg in
lemma still_checkReturns {body : Tree} : Ends (checkReturns t body) s fun _ s' => s' = s := by
  simp only [checkReturns, ends_ite]
  refine ⟨fun _ => ?_, fun _ => ends_pure.mpr rfl⟩
  split
  · split
    · exact ends_fail.mpr trivial
    · exact ends_pure.mpr rfl
    · exact ends_fail.mpr trivial
  · exact ends_fail.mpr trivial

lemma bodyIfAny_course (id : SymId) (params : List SymId) (info : Info) (name : Text) :
    Ends (bodyIfAny g id params info name) s fun _ s' => s' = s ∨ Finishes id params s s' := by
  simp only [bodyIfAny, ends_isAt, ends_ite]
  refine ⟨fun _ => ends_pure.mpr (.inl rfl), fun _ => ?_⟩
  simp only [functionBody, ends_symbol, ends_ite, ends_fail_bind, implies_true, true_and,
    Bool.not_eq_true, ends_modifyTable_bind, ends_modify]
  intro undefined
  change Ends _ (s.entered id params) _
  refine ends_expect fun _ => ?_
  refine (hg.block false _).bind fun body s1 read => ends_expect fun _ => ?_
  refine still_checkReturns.bind ?_
  rintro - s2 rfl
  refine (runs_finishFunction (E := fun _ _ => True) (fun out written => .inr (.mk undefined ?_ written))
    fun _ _ _ => trivial).ends
  have first : Goes (False ∨ (s.entered id params).Worded (s.entered id params).advanced)
      (s.entered id params) (s.entered id params).advanced := .still (still_advanced _)
  exact ((first.seq read).seq (.still (still_advanced s1))).mono (·.resolve_left not_false)

omit hg in
lemma Finishes.goes {params : List SymId} (function : (s.table.get id).kind = .function)
    (h : Finishes id params s s') : Goes True s s' := by
  obtain ⟨undefined, reads, written⟩ := h
  exact .defines trivial function undefined (reads.mono fun _ => trivial) written

lemma going_parameters (earlier : Option Symbol) : Going True (parameters g earlier) :=
  going.pair.parameters g g (fun s => (hg.param s).mono fun _ _ h => h.1.mono .inl) earlier

omit hg in
lemma FindsFunction.kind (h : FindsFunction name t ctype storage s id s1) :
    id < s1.table.symbols.size ∧ (s1.table.get id).kind = .function := by
  cases h with
  | new =>
    change _ < (declared ..).symbols.size ∧ (Symbols.get (declared ..).symbols _).kind = _
    rw [declared_symbols, Array.size_push, Symbols.get_push_size]
    exact ⟨Nat.lt_succ_self _, rfl⟩
  | again _ kind =>
    refine ⟨?_, kind⟩
    by_contra out
    rw [get_of_size_le (Nat.le_of_not_lt out)] at kind
    cases kind

omit hg in
lemma FindsFunction.goes (h : FindsFunction name t ctype storage s id s1) : Goes True s s1 := by
  cases h with
  | new h => exact .announces t ctype storage trivial (Option.or_eq_none_iff.mp h).2
  | again => exact .refl s

omit hg in
lemma notes_adopted (earlier : Bool) (id : SymId) (count : Nat) (st : SymbolTable) :
    st.Notes True (adopted earlier id count st) := by
  have taken : st.Notes True st.takeParams.2 := .of_symbols rfl rfl fun quiet => absurd trivial quiet
  cases earlier with
  | true => exact taken
  | false =>
    exact taken.trans (.update ⟨⟨rfl, rfl, rfl, rfl⟩, rfl, rfl⟩ fun quiet => absurd trivial quiet)

lemma function_course (name : Text) (t : CType) (ctype : Option SymId) (storage : StorageClass) :
    Ends (function g name t ctype storage) s fun id s' =>
      ∃ s1, FindsFunction name t ctype storage s id s1 ∧ Goes True s1 s' := by
  refine ends_function fun id s1 count s2 found run => ?_
  obtain ⟨lt, kind⟩ := found.kind
  have read : Goes True s1 s2 :=
    .trans (.still (still_advanced s1)) ((going_parameters hg _ _ _ _ run).mono fun _ => trivial)
  have adopts := notes_adopted (s.table.lookup name).isSome id count s2.table
  have before : Goes True s1
      { s2.advanced with table := adopted (s.table.lookup name).isSome id count s2.table } :=
    read.trans (.trans (.still (still_advanced s2)) (.notes adopts))
  refine (bodyIfAny_course hg _ _ _ _).mono ?_
  rintro - s' (rfl | finishes)
  · exact ⟨s1, found, before⟩
  · refine ⟨s1, found, before.trans (finishes.goes ?_)⟩
    have carried := read.carries.trans adopts.carries
    exact (carried.fits id lt).kind.trans kind

lemma function_goes : Ends (function g name t ctype storage) s fun _ s' => Goes True s s' :=
  (function_course hg name t ctype storage).mono fun _ _ ⟨_, found, read⟩ => found.goes.trans read

/-! ## The whole -/

lemma going_declarator (inner : storage.IsInner) : Going False (declarator g t ctype storage) := by
  refine going.pair.expectIdentifier.bind fun name => going.pair.isAt.bind fun _ => going.ite ?_
    (going.pair.checkName.bind fun _ => going.pair.isAt.bind fun _ => going.ite
      ((going_array hg inner).bind fun _ => going.pure _) (going_scalar hg inner))
  rcases inner with rfl | rfl
  · exact fun s => ends_fail_bind.mpr trivial
  · exact fun s => ends_fail_bind.mpr trivial

lemma declarator_goes (fileScope : storage.isFileScope = true) :
    Ends (declarator g t ctype storage) s fun _ s' => Goes True s s' := by
  refine ends_expectIdentifier fun _ => ?_
  have first : Goes True s s.advanced := .still (still_advanced s)
  simp only [ends_isAt, ends_ite]
  refine ⟨fun _ => ⟨fun _ => ?_, fun _ => ends_fail_bind.mpr trivial⟩, fun _ => ?_⟩
  · exact (function_goes hg).bind fun _ s' read => ends_pure.mpr (first.trans read)
  · refine Ends.bind (P := fun _ s1 => Goes True s s1) (fun _ s1 run => ?_) fun _ s1 first => ?_
    · exact first.trans (((going (c := True)).pair.checkName _ _ _ run).mono fun _ => trivial)
    · simp only [ends_isAt, ends_ite]
      refine ⟨fun _ => ?_, fun _ => ?_⟩
      · refine (array_course hg fileScope (going.pair.arrayLength hg.has s1)).bind ?_
        rintro id s' ⟨pointer, s2, -, before, introduces⟩
        exact ends_pure.mpr (first.trans ((before.mono fun _ => trivial).trans
          (introduces.goes Kind.noConfusion)))
      · refine (scalar_course hg fileScope).mono fun r s' introduces => ?_
        exact first.trans (introduces.goes Kind.noConfusion)

omit hg in
lemma initialiser_param {info : Info} : Ends (initialiser g name id info .param) s fun _ s' => s' = s := by
  simp only [initialiser, ends_isAt, ends_ite]
  refine ⟨fun _ => ⟨fun never => ?_, fun _ => ends_fail_bind.mpr trivial⟩, fun _ => ends_pure.mpr rfl⟩
  cases never

lemma declarator_param : Ends (declarator g t ctype .param) s fun r s' => r.1 = s.table.symbols.size ∧
      s' = { s.advanced with table := (s.table.addParam s.front.lexeme t ctype).2 } := by
  refine ends_expectIdentifier fun _ => ?_
  simp only [ends_isAt, ends_ite]
  refine ⟨fun _ => ⟨fun nested => ?_, fun _ => ends_fail_bind.mpr trivial⟩, fun _ => ?_⟩
  · cases nested
  refine Ends.bind (P := fun _ s1 => s1 = s.advanced) ?_ ?_
  · simp only [checkName, ends_table, ends_ite, ends_fail, ends_pure, implies_true, and_self]
  rintro - s1 rfl
  simp only [ends_isAt, ends_ite]
  refine ⟨fun _ => ?_, fun _ => ?_⟩
  · refine Ends.bind (P := fun _ _ => False) ?_ fun _ _ h => h.elim
    refine (going.pair.arrayLength hg.has _).bind fun length s0 before => ?_
    rw [ends_ofType_bind]
    exact fun pointer _ => ends_fail_bind.mpr trivial
  · unfold scalar
    rw [ends_peek]
    change Ends (withTable (fun st => st.addParam s.front.lexeme t ctype) >>= _) _ _
    rw [ends_withTable_bind]
    refine initialiser_param.bind ?_
    rintro init s2 rfl
    exact ends_pure.mpr ⟨rfl, rfl⟩

omit hg in
lemma notes_addParam : s.table.Notes True (s.table.addParam name t ctype).2 := by
  refine .push rfl rfl ?_ fun quiet => absurd trivial quiet
  exact Kind.noConfusion

lemma nextDeclarator_goes {spec : TypeSpec} (fileScope : storage.isFileScope = true) {done : List Tree} :
    Ends (nextDeclarator g spec storage end1 end2 done) s fun _ s' => Goes True s s' := by
  refine still_stars.bind fun t s1 still => ?_
  refine (declarator_goes hg fileScope).bind fun r s2 read => ?_
  have read := Goes.trans (.still still) read
  simp only [ends_symbol, ends_ite, ends_isAt, ends_pure]
  refine ⟨fun _ => read, fun _ => ⟨fun _ => read, fun _ => ends_expect fun _ => ?_⟩⟩
  exact ends_pure.mpr (read.trans (.still (still_advanced s2)))

lemma going_declaration (inner : storage.IsInner) : Going False (declaration g storage end1 end2) := by
  intro s
  refine (typeSpec_course hg).bind ?_
  rintro ⟨spec, storage'⟩ s1 ⟨first, word⟩
  simp only [ends_ite, ends_pure]
  refine ⟨fun _ => first.mono .inr, fun _ => ?_⟩
  rcases word with same | ⟨worded, fileScope⟩
  · obtain rfl : storage' = storage := same
    exact (Going.iterate (going.pair.nextDeclarator g g (fun _ => going_declarator hg inner) end1 end2)).after
      (first.mono .inr)
  · have whole : Ends (iterate (nextDeclarator g spec storage' end1 end2) []) s1
        fun _ s' => Goes True s1 s' := by
      refine Ends.iterate (fun _ s' => Goes True s1 s') (.refl s1) fun done s2 read => ?_
      refine (nextDeclarator_goes hg fileScope).mono ?_
      rintro (r | r) s' more
      · exact read.trans more
      · exact read.trans more
    refine whole.mono fun r s' read => ?_
    have worded := worded.left read.rest
    exact .trans (first.mono fun _ => .inr worded) (read.mono fun _ => .inr worded)

lemma declaration_goes : Ends (declaration g .global end1 end2) s fun _ s' => Goes True s s' := by
  refine (typeSpec_course hg).bind ?_
  rintro ⟨spec, storage⟩ s1 ⟨first, word⟩
  have first : Goes True s s1 := first.mono fun _ => trivial
  have fileScope : storage.isFileScope = true := by
    rcases word with rfl | ⟨-, fileScope⟩
    · rfl
    · exact fileScope
  simp only [ends_ite, ends_pure]
  refine ⟨fun _ => first, fun _ => ?_⟩
  refine Ends.iterate (fun _ s' => Goes True s s') first fun done s2 read => ?_
  refine (nextDeclarator_goes hg fileScope).mono ?_
  rintro (r | r) s' more
  · exact read.trans more
  · exact read.trans more

lemma declaration_collects : Collects (declaration g .param .comma .rparen) := by
  intro s
  refine (typeSpec_course hg).bind ?_
  rintro ⟨spec, storage⟩ s1 ⟨first, word⟩
  simp only [ends_ite, ends_pure]
  refine ⟨fun bare => ⟨first.mono fun _ => trivial, fun _ => .inl bare⟩, fun _ => ?_⟩
  rcases word with same | ⟨worded, fileScope⟩
  · obtain rfl : storage = .param := same
    refine Ends.iterate (fun done s' => s' = s1 ∧ done = []) ⟨rfl, rfl⟩ ?_
    rintro - s1 ⟨rfl, rfl⟩
    refine still_stars.bind fun t s2 still => ?_
    refine (declarator_param hg).bind ?_
    rintro ⟨id, init⟩ s3 ⟨-, rfl⟩
    have adds : Goes True s { s2.advanced with table := (s2.table.addParam s2.front.lexeme t spec.ctype).2 } :=
      .trans (first.mono fun _ => trivial)
        (.trans (.still (still.trans (still_advanced s2))) (.notes notes_addParam))
    have only (quiet : ¬ s.Worded s2.advanced) : Goes False s s2 := by
      refine .trans (first.mono fun word => quiet (word.left ?_)) (.still still)
      exact (List.tail_suffix _).trans still.rest
    have collected : Goes True s { s2.advanced with table := (s2.table.addParam s2.front.lexeme t spec.ctype).2 } ∧
        (¬ s.Worded s2.advanced → false = true ∨ ∃ s0 name ctype, Goes False s s0 ∧
          (s2.table.addParam s2.front.lexeme t spec.ctype).2 = (s0.table.addParam name t ctype).2) :=
      ⟨adds, fun quiet => .inr ⟨s2, s2.front.lexeme, spec.ctype, only quiet, rfl⟩⟩
    simp only [ends_symbol, ends_ite, ends_isAt, ends_pure]
    refine ⟨fun _ => collected, fun _ => ⟨fun _ => collected, fun other => ends_expect fun comma => ?_⟩⟩
    exact absurd (Bool.or_eq_true_iff.mpr (.inl (decide_eq_true comma))) other
  · refine Ends.iterate (fun _ s' => Goes True s1 s') (.refl s1) fun done s2 read => ?_
    refine (nextDeclarator_goes hg fileScope).mono ?_
    rintro (r | r) s' more
    · exact read.trans more
    · refine ⟨(first.mono fun _ => trivial).trans (read.trans more), fun quiet => ?_⟩
      exact absurd (worded.left (read.trans more).rest) quiet

/-! ## Statements -/

lemma going_localDeclaration : Going False (localDeclaration g) :=
  (going_declaration hg (.inl rfl)).bind fun _ => going.pair.expect.bind fun _ => going.pure _

end Parse

/-! ## Files -/

open Parse

lemma Grammar.Going.empty : (Grammar.empty Parse.resolve).Going where
  expression _ := fun _ => ends_fail.mpr trivial
  unaryExpression := fun _ => ends_fail.mpr trivial
  typeSpec _ := fun _ => ends_fail.mpr trivial
  member _ _ := fun _ => ends_fail.mpr trivial
  param _ := ends_fail.mpr trivial
  statement := fun _ => ends_fail.mpr trivial
  block _ := fun _ => ends_fail.mpr trivial
  resolve := going.pair.resolve

lemma Grammar.Going.deeper {g : Grammar} (hg : g.Going) : g.deeper.Going where
  expression _ := going.pair.expression hg.has
  unaryExpression := going.pair.unaryExpression hg.has
  typeSpec _ := going_typeSpec hg
  member _ _ := going_declaration hg (.inr rfl)
  param := declaration_collects hg
  statement := going.pair.statement hg.has hg.statement hg.block (going_localDeclaration hg)
  block inSwitch := going.pair.block hg.has hg.statement hg.block (going_localDeclaration hg) inSwitch
  resolve := hg.resolve

theorem grammar_going (depth : Nat) : (grammar depth).Going := by
  induction depth with
  | zero => exact .empty
  | succ depth ih => exact ih.deeper

/-- A file goes as it may from its first token to its last. -/
theorem Parse.file_goes {s : ParseState} : Ends Parse.file s fun _ s' => Goes True s s' := by
  rw [Parse.file, fileBy, ends_get]
  refine Ends.iterate (fun _ s' => Goes True s s') (.refl s) fun _ s1 read => ?_
  simp only [nextDeclaration, ends_isAt, ends_ite, ends_pure]
  refine ⟨fun _ => read, fun _ => ?_⟩
  refine (declaration_goes (grammar_going s.bound)).bind fun r s2 more => ?_
  have read := read.trans more
  refine ends_skip ?_ ?_
  · exact ends_pure.mpr (read.trans (.still (still_advanced s2)))
  · exact ends_pure.mpr read

end SmallC
