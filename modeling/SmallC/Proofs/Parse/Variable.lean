import SmallC.Proofs.Parse.Expression

/-!
# Reading variables and arrays

Their declarations add symbols to the tables and write data. Names of locals are not taken yet where
they are declared, so what an identifier stands for in a function does not change. The initialisers
of locals are assignments.
-/

namespace SmallC

open ParseState

namespace Parse

variable {sym : Symbol} {storage : StorageClass} {kind : Kind} {count : Int64} {name : Text} {s' : ParseState}
  {ctype : Option SymId} {t : CType} {st : SymbolTable}
variable {ts : List Tree}
variable {g : Grammar} {s s1 : ParseState} {id : SymId}

/-! ## Data -/

lemma data_lines {ss : Symbols} {e e' : Emitter} {u : Unit} (h : Lower.data ss sym e = .ok u e') :
    e' = e ∨ ∃ line : Ir.Line, line.IsData ∧ e' = e.add [line] := by
  rcases ite_eq_ok.mp h with ⟨-, h0⟩ | ⟨-, h0⟩
  · exact .inl (pure_eq_ok.mp h0).2
  · obtain ⟨size, e1, h1, hrest⟩ := bind_eq_ok.mp h0
    obtain ⟨align, e2, h2, hline⟩ := bind_eq_ok.mp hrest
    obtain ⟨-, rfl⟩ := Lower.ofType_eq_ok.mp h1
    obtain ⟨-, rfl⟩ := Lower.ofType_eq_ok.mp h2
    obtain rfl := Lower.line_eq_ok.mp hline
    exact .inr ⟨.data _ _ _ _, trivial, rfl⟩

lemma silent_writeData : Silent (writeData storage id) := by
  intro s hs
  simp only [writeData, runs_ite, runs_table, runs_pure]
  refine ⟨fun _ => Silent.emit (fun hs _ out h => ?_) s hs, fun _ => .refl hs⟩
  rcases data_lines h with rfl | ⟨line, data, rfl⟩
  · exact .refl hs
  · exact .dataLine hs data

/-- The size of the symbol need not be that of its type. -/
def Loose (s : ParseState) (id : SymId) : Prop :=
  id < s.table.symbols.size ∧ ((s.table.get id).isFrame = false ∨
    (s.table.get id).isParam = false ∧ (s.table.get id).type.isPointer = true)

lemma Loose.sized (h : Loose s id) (q : Quiet s s1) (size : Int64) (count : Int64) :
    Symbol.Sized { s1.table.get id with count, size } := by
  have keeps := q.symbols.keeps id h.1
  rcases h.2 with frame | ⟨here, pointer⟩
  · exact Symbol.Fit.sized (.of_not_frame (keeps.frame.trans frame))
  · exact .of_pointer (keeps.param.trans here) ((congrArg CType.isPointer keeps.type).trans pointer)

lemma redeclared_sound (hs : s.Sound) :
    Runs (redeclared storage name t ctype) s (fun r s' => Quiet s s' ∧ ∀ id ∈ r, Loose s' id) Breaks := by
  rw [redeclared, runs_table]
  split
  · rename_i id found
    obtain ⟨lt, fileScope⟩ := hs.table.globals id (SymbolTable.mem_of_findIn found).1
    have frame := Symbol.isFrame_eq_false fileScope
    simp only [runs_ite, runs_fail_bind, runs_fail, hs.breaks, implies_true, true_and, and_true,
      runs_modifyTable_bind, runs_pure]
    intro _ _ _
    have q : Quiet s { s with table := s.table.update id fun s => { s with storage := .global } } :=
      .update hs (fun _ => ⟨⟨rfl, rfl, rfl, rfl, fun _ => rfl, fun h => h, .inl, frame.symm,
        (Symbol.isParam_eq_false frame).symm, fun h => h,
        fun _ => Symbol.Fit.sized (.of_not_frame rfl)⟩, fun _ => rfl⟩) rfl
    refine ⟨q, ?_⟩
    intro id' hid
    obtain rfl := Option.some.inj hid
    exact ⟨Nat.lt_of_lt_of_le lt q.symbols.size, .inl ((q.symbols.keeps id lt).frame.trans frame)⟩
  · exact ⟨.refl hs, by simp⟩

lemma fileScopeSymbol_sound (hs : s.Sound) (fileScope : storage.isFileScope) (hk : kind ≠ .function) :
    Runs (fileScopeSymbol storage name t ctype kind count) s (fun id s' => Quiet s s' ∧ Loose s' id) Breaks := by
  refine (redeclared_sound hs).bind ?_
  rintro r s1 ⟨q, loose⟩
  split
  · exact ⟨q, loose _ rfl⟩
  · rw [runs_withTable]
    have frame : (s1.table.sized name t ctype kind storage count).isFrame = false :=
      Symbol.isFrame_eq_false fileScope
    refine ⟨q.trans (.withTable q.sound ?_ rfl), ?_⟩
    · exact .push rfl hk
        (.push rfl rfl (.of_not_frame frame) rfl (.inl rfl) (.inl rfl) (.inr ⟨rfl, fileScope⟩))
    · refine ⟨?_, .inl ((congrArg Symbol.isFrame (Symbols.get_push_size _ _)).trans frame)⟩
      simp [SymbolTable.addGlobal, SymbolTable.create]

/-! ## Variables and arrays -/

lemma sized_sized (h : (storage ≠ .param ∧ t.isPointer = true) ∨ count = 1) :
    (st.sized name t ctype kind storage count).Sized := by
  rcases h with ⟨here, pointer⟩ | rfl
  · exact .of_pointer (decide_eq_false here) pointer
  · intro _ _ n hn
    have scalar : (t.isPointer || t.isInt) = true := by
      obtain ⟨base, depth⟩ := t
      by_cases hd : depth = 0
      · subst hd
        cases base <;> simp_all [SymbolTable.sized, CType.scalarSize, CType.isPointer, CType.isInt]
      · simp [CType.isPointer, hd]
    have hn : t.scalarSize = .ok n := hn
    simp [SymbolTable.sized, SymbolTable.storageSize, scalar, hn]

lemma pushed_finds {st' : SymbolTable} (hst : st.Sound) (symbols : st'.symbols = st.symbols.push sym)
    (function : st'.function = st.function) (locals : st'.locals = st.locals ++ [st.symbols.size])
    (free : st.findIn st.scope sym.name = none) : st'.Finds st.symbols.size := by
  have here := SymbolTable.get_push_size symbols
  have old : ∀ id < st.symbols.size, st'.get id = st.get id := fun _ => SymbolTable.get_push symbols
  have scope : st'.scope = st.scope ++ [st.symbols.size] := by
    unfold SymbolTable.scope
    rw [scopeMembers hst function fun id lt => by rw [old id lt], locals, List.append_assoc]
  have none : st'.findIn st.scope sym.name = none := by
    have names : ∀ id ∈ st.scope, (st'.get id).name = (st.get id).name :=
      fun id hid => by rw [old id (hst.scope_lt hid)]
    rw [findIn_congr names, free]
  unfold SymbolTable.findIn at none
  rw [SymbolTable.Finds, here, scope, SymbolTable.findIn, List.find?_append, none]
  simp [here]

/-- A local that has just been declared with its type, if it is one. -/
def Fresh (storage : StorageClass) (t : CType) (s : ParseState) (id : SymId) : Prop :=
  storage = .local → id < s.table.symbols.size ∧ s.table.Finds id ∧ (s.table.get id).type = t

lemma localSymbol_sound (hs : s.Sound) (free : s.table.findLocal name = none) (hk : kind ≠ .function)
    (hcount : t.isPointer = true ∨ count = 1) {hasAddr : Bool}
    (housed : kind = .array ∨ t.isComposite = true → hasAddr = true) : Runs (do
      let id ← withTable fun st => st.addLocal name t ctype kind count
      modifyTable fun st => st.update id fun s => { s with hasAddr }
      return id) s (fun id s' =>
        Declares .local s s' ∧ Fresh .local t s' id ∧ (s'.table.get id).isParam = false) Breaks := by
  simp only [runs_withTable_bind, runs_modifyTable_bind, runs_pure]
  have first : (s.table.addLocal name t ctype kind count).1 = s.table.symbols.size := rfl
  rw [first]
  generalize hst : (s.table.addLocal name t ctype kind count).2.update s.table.symbols.size
    (fun s => { s with hasAddr }) = st
  have symbols : st.symbols = s.table.symbols.push
      { s.table.sized name t ctype kind .local count with hasAddr } := by
    rw [← hst]
    exact Symbols.update_push_size s.table.symbols (s.table.sized name t ctype kind .local count)
      fun s => { s with hasAddr }
  have locals : st.locals = s.table.locals ++ [s.table.symbols.size] := hst ▸ rfl
  have function : st.function = s.table.function := hst ▸ rfl
  rw [SymbolTable.findLocal_eq] at free
  have kept : TableKept s.table st := by
    refine .push symbols hk (.push symbols rfl ⟨?_, fun _ what => housed (what.imp_right And.left)⟩ function
      (.inr ⟨locals, rfl, rfl, free⟩) (.inl (hst ▸ rfl)) (.inl (hst ▸ rfl)))
    have sized : (s.table.sized name t ctype kind .local count).Sized :=
      sized_sized (hcount.imp_left fun p => ⟨by simp, p⟩)
    exact sized
  have here := SymbolTable.get_push_size symbols
  have l : Leads s { s with table := st } := .withTable hs kept
  refine ⟨⟨l, fun h => absurd rfl h, fun _ _ => rfl, fun file => by cases file⟩, fun _ => ⟨?_, ?_, ?_⟩, ?_⟩
  · simp [symbols]
  · exact pushed_finds hs.table symbols function locals free
  · simp only [here]
    rfl
  · simp only [here]
    rfl

structure Free (storage : StorageClass) (s : ParseState) (name : Text) : Prop where
  ofLocal : storage = .local → s.table.findLocal name = none
  ofParam : storage = .param → s.table.findIn s.table.params name = none

lemma scalarSymbol_sound (hs : s.Sound) (free : Free storage s name) :
    Runs (scalarSymbol name t ctype storage) s
      (fun id s' => Declares storage s s' ∧ Fresh storage t s' id) Breaks := by
  have file : storage.isFileScope = true → Runs (fileScopeSymbol storage name t ctype .variable 1) s
      (fun id s' => Declares storage s s' ∧ Fresh storage t s' id) Breaks := by
    intro fileScope
    refine (fileScopeSymbol_sound hs fileScope (by decide)).mono fun id s' ⟨q, _⟩ => ?_
    refine ⟨q.declares storage, ?_⟩
    rintro rfl
    cases fileScope
  have member : storage ≠ .local →
      Runs (withTable fun st => st.addMember name t ctype .variable 1) s
        (fun id s' => Declares storage s s' ∧ Fresh storage t s' id) Breaks := by
    intro notLocal
    rw [runs_withTable]
    refine ⟨Quiet.declares ?_ storage, fun h => absurd h notLocal⟩
    exact .withTable hs
      (.push rfl nofun (.push rfl rfl (.of_not_frame rfl) rfl (.inl rfl) (.inl rfl) (.inl rfl))) rfl
  cases storage with
  | static | external | global => exact file rfl
  | «local» =>
    have housed : Kind.variable = .array ∨ t.isComposite = true → t.isComposite = true :=
      fun h => h.resolve_left nofun
    exact (localSymbol_sound hs (free.ofLocal rfl) (by decide) (.inr rfl) housed).mono
      fun _ _ ⟨d, fresh, _⟩ => ⟨d, fresh⟩
  | param =>
    rw [scalarSymbol, runs_withTable]
    refine ⟨Quiet.declares ?_ .param, nofun⟩
    refine .withTable hs (.push rfl nofun (.push rfl rfl ⟨?_, ?_⟩ rfl (.inl rfl)
      (.inr ⟨rfl, rfl, free.ofParam rfl⟩) (.inl rfl))) rfl
    · exact sized_sized (.inr rfl)
    · rintro - (array | ⟨-, inner⟩)
      · cases array
      · cases inner
  | _ => exact member nofun

/-- The assignments of initialisers read from `s`, where reading has come to `s'`. -/
def Inits (s s' : ParseState) (ts : List Tree) : Prop :=
  ∀ t ∈ ts, (∃ i a b, t = .assign i a b) ∧ t.IsExpression s'.table.symbols (inner s s')

lemma Inits.later {s'' : ParseState} (h : Inits s s' ts) (l : Leads s s') (k : Leads s' s'') :
    Inits s s'' ts :=
  fun t ht => ⟨(h t ht).1, (h t ht).2.grow k.symbols (inner_later l k).toNarrows⟩

lemma Inits.earlier (hs : s.Sound) (k : Leads s s1) (l : Leads s1 s') (h : Inits s1 s' ts) : Inits s s' ts :=
  fun t ht => ⟨(h t ht).1, (h t ht).2.grow (.refl _) (inner_earlier hs k l).toNarrows⟩

lemma initialiser_sound (hg : g.Sound) (hs : s.Sound) {info : Info} (fresh : Fresh storage info.type s id) :
    Runs (initialiser g name id info storage) s (fun init s' => Quiet s s' ∧ Inits s s' init.toList) Breaks := by
  refine (silent.initialiser (Grammar.has hg) s hs).given ?_
  have none : ∀ s', Inits s s' (none : Option Tree).toList := by simp [Inits]
  simp only [initialiser, ends_isAt, ends_ite, ends_advance, ends_fail_bind, implies_true, and_true,
    ends_pure]
  refine ⟨fun _ _ => ⟨fun here => ?_, fun _ => ?_⟩, fun _ => ⟨.refl hs, none s⟩⟩
  · refine (expression_ends hg hs.advanced).bind ?_
    rintro value s1 ⟨q, hv, -⟩
    refine storable_ends.bind ?_
    rintro v s2 ⟨rfl, ⟨c, rfl⟩, fits, -⟩
    rw [ends_pure]
    refine ⟨q.of_advanced, ?_⟩
    simp only [Option.toList_some, Inits, List.mem_singleton, forall_eq]
    refine ⟨⟨_, _, _, rfl⟩, ?_⟩
    have hv := (hv.isExpression hs.advanced q.toLeads).asRvalue
    obtain ⟨lt, finds, type⟩ := fresh here
    refine .assign (.ident (Nat.lt_of_lt_of_le lt q.symbols.size) ?_ (.inl ?_)) rfl
      (hv.converted value.loaded_asRvalue c _ _) (value.loaded_asRvalue.converted c _ _) fits
    · exact q.toLeads.local hs.advanced lt fun _ => .inr finds
    · exact ((q.symbols.keeps id lt).type.trans type).symm
  · refine (silent.constant (Grammar.has hg) _ hs.advanced).ends.bind ?_
    rintro v s1 q
    rw [ends_modifyTable_bind, ends_pure]
    exact ⟨q.of_advanced.trans (.update q.sound (fun _ => .of_core rfl fun h => h) rfl), none _⟩

lemma scalar_sound (hg : g.Sound) (hs : s.Sound) (free : Free storage s name) :
    Runs (scalar g name t ctype storage) s
      (fun r s' => Declares storage s s' ∧ Inits s s' r.2.toList) Breaks := by
  simp only [scalar, runs_peek]
  refine (scalarSymbol_sound hs free).bind ?_
  rintro id s1 ⟨d, fresh⟩
  refine (initialiser_sound hg d.sound fresh).bind ?_
  rintro init s2 ⟨q2, inits⟩
  refine (silent_writeData s2 q2.sound).bind ?_
  rintro - s3 q3
  have inits := (inits.later q2.toLeads q3.toLeads).earlier hs d.toLeads (q2.trans q3).toLeads
  exact ⟨d.trans ((q2.trans q3).declares storage), inits⟩

lemma arraySymbol_sound (hs : s.Sound) (pointer : t.isPointer = true) (ctype : Option SymId)
    (free : storage = .local → s.table.findLocal name = none) :
    Runs (arraySymbol name t ctype storage) s (fun id s' => Declares storage s s' ∧ Loose s' id) Breaks := by
  have file : storage.isFileScope = true → Runs (fileScopeSymbol storage name t ctype .array 0) s
      (fun id s' => Declares storage s s' ∧ Loose s' id) Breaks := fun fileScope =>
    (fileScopeSymbol_sound hs fileScope (by decide)).mono
      fun _ _ ⟨q, loose⟩ => ⟨q.declares storage, loose⟩
  cases storage with
  | static | external | global => exact file rfl
  | «local» =>
    refine (localSymbol_sound hs (free rfl) (by decide) (.inl pointer) fun _ => rfl).mono ?_
    rintro id s' ⟨d, fresh, param⟩
    obtain ⟨lt, -, type⟩ := fresh rfl
    exact ⟨d, lt, .inr ⟨param, (congrArg _ type).trans pointer⟩⟩
  | _ => exact ⟨rfl, hs.breaks _⟩

lemma array_sound (hg : g.Sound) (hs : s.Sound) (free : storage = .local → s.table.findLocal name = none) :
    Runs (array g name t ctype storage) s (fun _ s' => Declares storage s s') Breaks := by
  refine (silent.arrayLength (Grammar.has hg) s hs).bind ?_
  rintro length s1 q1
  rw [runs_ofType_bind]
  refine ⟨fun pointer hpointer => ?_, fun e _ => q1.sound.breaks (.lowering (.type e))⟩
  have free1 : storage = .local → s1.table.findLocal name = none := by
    intro here
    rw [SymbolTable.findLocal_eq]
    rcases q1.kept.scope with ⟨-, scope⟩ | ⟨-, scope⟩
    · rw [scope]
      rfl
    · rw [scope, findIn_congr, ← SymbolTable.findLocal_eq]
      · exact free here
      · exact fun id hid => (q1.symbols.keeps id (hs.table.scope_lt hid)).name
  refine (arraySymbol_sound q1.sound (CType.of_pointerTo hpointer).1 ctype free1).bind ?_
  rintro id s2 ⟨d2, loose⟩
  refine (silent.arrayInitialiser (Grammar.has hg) s2 d2.sound).bind ?_
  rintro length' s3 q3
  simp only [runs_ite, runs_symbol, runs_fail_bind, q3.sound.breaks, implies_true, true_and, and_true,
    runs_table, runs_ofType_bind, runs_modifyTable_bind]
  intro _ size _
  generalize max (length'.getD (-1)) 0 = count
  have q4 : Quiet s2 { s3 with
      table := s3.table.update id fun s => { s with count, size := count * size } } :=
    q3.trans (.update q3.sound (fun _ => ⟨⟨rfl, rfl, rfl, rfl, fun h => h, fun h => h, .inl, rfl, rfl,
      fun h => h, fun _ => loose.sized q3 _ _⟩, fun _ => rfl⟩) rfl)
  refine (silent_writeData _ q4.sound).bind ?_
  rintro - s5 q5
  exact (q1.declares storage).trans (d2.trans ((q4.trans q5).declares storage))

end Parse
end SmallC
