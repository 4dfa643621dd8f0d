import SmallC.Proofs.Names.Types

/-!
# Names in declarations

`Fresh` is what a declaration makes sure of before it adds a name. Between the look and the addition of a
local array stands the length of the array, which can at most end the function that it is declared in. A
function takes over its parameters only when all of them have been read, and they differ from the locals
that are there already.
-/

namespace SmallC

namespace SymbolTable

variable {name : Text}
variable {a b st : SymbolTable} {name : Text}

def Fresh (st : SymbolTable) (name : Text) : StorageClass → Prop
  | .local => st.findLocal name = none
  | .param => st.findLocal name = none ∧ st.findIn st.params name = none
  | .member => st.findMember name = none
  | _ => True

lemma Resumes.findLocal (h : a.Orderly) (resumes : Resumes a b) (new : a.findLocal name = none) :
    b.findLocal name = none := by
  rw [findLocal_eq] at new ⊢
  rcases resumes.scope with ⟨-, none⟩ | ⟨-, same⟩
  · rw [none]
    rfl
  · rw [same]
    refine List.find?_eq_none.mpr fun id mem => ?_
    rw [resumes.name id (h.scope_lt mem)]
    simpa using name_ne_of_findIn new mem

lemma Orderly.params_locals (h : st.Orderly) : st.Unshared (st.params ++ st.locals) := by
  have behind : st.Unshared (st.locals ++ st.params) := by
    refine h.frame.sublist ?_
    rw [scope, List.append_assoc]
    exact List.sublist_append_right _ _
  unfold Unshared at behind ⊢
  rw [List.map_append] at behind ⊢
  exact List.perm_append_comm.nodup_iff.mp behind

/-- A function takes the parameters collected if they are its first ones. It is not the function at hand
then, which has its own. -/
lemma Orderly.adopt (h : st.Orderly) (id : SymId) (count : Int64) {earlier : Bool}
    (other : earlier ≠ true → st.function ≠ some id) :
    ∃ st', (if earlier then st.takeParams.2
        else st.takeParams.2.update id fun s => { s with count, members := st.takeParams.1 }) = st' ∧
      st'.Orderly ∧ Resumes st.takeParams.2 st' ∧ st'.locals = st.locals := by
  cases earlier with
  | true => exact ⟨_, rfl, h.takeParams, Parse.Mode.quiet.refl _, rfl⟩
  | false =>
    obtain ⟨orderly, resumes⟩ := h.takeParams.complete id (fun s => { s with count, members := st.params })
      (fun _ => ⟨rfl, Iff.rfl, Iff.rfl⟩) rfl (fun p mem => h.listed p (by simp [SymbolTable.listed, mem]))
      (h.frame.sublist (List.sublist_append_right _ _)) (other Bool.false_ne_true)
    exact ⟨_, rfl, orderly, resumes, rfl⟩

lemma Resumes.cleared (h : Later a b) : Resumes a b.clearLocals :=
  ⟨⟨⟨h.size, h.name⟩, .inl ⟨rfl, rfl⟩⟩, fun _ => rfl⟩

end SymbolTable

namespace Parse

open SymbolTable

variable {α : Type} {m : Mode} {g : Grammar} (hg : g.Orderly) {storage : StorageClass} {s : ParseState}
  {ctype : Option SymId} {t : CType} {name : Text} {id : SymId} {count : Int64} {kind : Kind} {info : Info}

/-! ## Variables and arrays -/

lemma redeclared_runs (hs : s.table.Orderly) : Runs (redeclared storage name t ctype) s
      (fun r s' => s'.table.Orderly ∧ Resumes s.table s'.table ∧
        (r = none → s'.table = s.table ∧ s.table.findGlobal name = none))
      fun _ s' => s'.table.Orderly := by
  unfold redeclared
  rw [runs_table]
  cases found : s.table.findGlobal name with
  | none => exact ⟨hs, Mode.quiet.refl _, fun _ => ⟨rfl, rfl⟩⟩
  | some id =>
    simp only [runs_ite, runs_fail_bind, runs_fail, runs_modifyTable_bind, runs_pure]
    refine ⟨fun linkage => ⟨fun _ => hs, fun _ => ⟨fun _ => hs, fun _ => ?_⟩⟩, fun _ => hs⟩
    have linked : (s.table.get id).storage = .global ∨ (s.table.get id).storage = .external := by
      simp only [Bool.or_eq_true, Bool.and_eq_true, decide_eq_true_eq] at linkage
      exact linkage.imp And.left And.left
    have stands : (s.table.get id).Stands { s.table.get id with storage := .global } := by
      refine ⟨rfl, ?_, ?_⟩
      · rcases linked with h | h <;> simp [h]
      · rcases linked with h | h <;> simp [h]
    have ext : s.table.symbols.Extends (s.table.symbols.update id fun s => { s with storage := .global }) :=
      .update (fun _ => stands) rfl
    exact ⟨hs.extend ext, .of_extends hs ext rfl rfl rfl, fun h => by cases h⟩

lemma keeps_fileScopeSymbol : Keeps .quiet (fileScopeSymbol storage name t ctype kind count) := by
  intro s hs _
  refine (redeclared_runs hs).bind ?_
  rintro r s1 ⟨hs1, resumes, new⟩
  cases r with
  | some id => exact ⟨hs1, resumes⟩
  | none =>
    obtain ⟨same, new⟩ := new rfl
    rw [← same] at new
    exact ⟨hs1.addGlobal t ctype kind storage count new,
      Mode.quiet.trans resumes (.push hs1 rfl rfl rfl rfl rfl)⟩

lemma keeps_writeData : Keeps m (writeData storage id) :=
  keeps.ite (keeps.pair.table.bind fun _ => keeps_emit) (keeps.pure _)

lemma addLocal_runs {hasAddr : Bool} (hs : s.table.Orderly) (params : s.table.params = [])
    (new : s.table.findLocal name = none) : Runs (do
      let id ← withTable fun st => st.addLocal name t ctype kind count
      modifyTable fun st => st.update id fun s => { s with hasAddr }
      return id) s
      (fun _ s' => s'.table.Orderly ∧ Proceeds s.table s'.table) fun _ s' => s'.table.Orderly := by
  have added := hs.addLocal t ctype kind count new params
  have pushed : s.table.symbols.Extends (s.table.addLocal name t ctype kind count).2.symbols :=
    .push _ rfl
  rw [runs_withTable_bind]
  apply Keeps.after (m := .inside)
  · exact .bind (keeps.update _ fun _ => rfl) fun _ => keeps.pure _
  · exact added
  · exact params
  · exact ⟨⟨pushed.size, fun id lt => (pushed.stands id lt).name⟩, fun none => none⟩

lemma scalarSymbol_runs (declared : storage.IsDeclared) (hs : s.table.Orderly) (pre : storage.mode.pre s.table)
    (new : s.table.Fresh name storage) : Runs (scalarSymbol name t ctype storage) s
      (fun _ s' => s'.table.Orderly ∧ storage.mode.rel s.table s'.table) fun _ s' => s'.table.Orderly := by
  cases storage
  case «local» => exact addLocal_runs hs pre new
  case param =>
    have pushed : s.table.symbols.Extends (s.table.addParam name t ctype).2.symbols := .push _ rfl
    exact ⟨hs.addParam t ctype new.1 new.2, ⟨pushed.size, fun id lt => (pushed.stands id lt).name⟩,
      .inr ⟨rfl, scope_extend hs pushed⟩⟩
  case member => exact ⟨hs.addMember t ctype .variable 1 new, .push hs rfl rfl rfl rfl rfl⟩
  case global => exact keeps_fileScopeSymbol s hs trivial
  case static => exact keeps_fileScopeSymbol s hs trivial
  case external => exact keeps_fileScopeSymbol s hs trivial
  all_goals exact absurd declared (by simp [StorageClass.IsDeclared, StorageClass.isFileScope])

include hg

lemma scalar_runs (declared : storage.IsDeclared) (hs : s.table.Orderly) (pre : storage.mode.pre s.table)
    (new : s.table.Fresh name storage) : Runs (scalar g name t ctype storage) s
      (fun _ s' => s'.table.Orderly ∧ storage.mode.rel s.table s'.table) fun _ s' => s'.table.Orderly := by
  refine (scalarSymbol_runs declared hs pre new).bind ?_
  rintro id s1 ⟨hs1, rel⟩
  exact Keeps.after ((keeps.pair.initialiser (hg.has _)).bind fun _ =>
    keeps_writeData.bind fun _ => keeps.pure _) hs1 (storage.mode.keep pre rel) rel

omit hg in
lemma arraySymbol_runs (hs : s.table.Orderly) (pre : storage.mode.pre s.table)
    (new : storage = .local → s.table.findLocal name = none) : Runs (arraySymbol name t ctype storage) s
      (fun _ s' => s'.table.Orderly ∧ storage.mode.rel s.table s'.table) fun _ s' => s'.table.Orderly := by
  cases storage
  case «local» => exact addLocal_runs hs pre (new rfl)
  case global => exact keeps_fileScopeSymbol s hs trivial
  case static => exact keeps_fileScopeSymbol s hs trivial
  case external => exact keeps_fileScopeSymbol s hs trivial
  all_goals exact ⟨rfl, hs⟩

lemma array_runs (hs : s.table.Orderly) (pre : storage.mode.pre s.table)
    (new : storage = .local → s.table.findLocal name = none) : Runs (array g name t ctype storage) s
      (fun _ s' => s'.table.Orderly ∧ storage.mode.rel s.table s'.table) fun _ s' => s'.table.Orderly := by
  refine Runs.bind (keeps.pair.arrayLength (hg.has .quiet) s hs trivial) ?_
  rintro length s1 ⟨hs1, resumes⟩
  have rel : storage.mode.rel s.table s1.table := storage.mode.resumes resumes
  rw [runs_ofType_bind]
  refine ⟨fun pointer _ => ?_, fun _ _ => hs1⟩
  refine (arraySymbol_runs hs1 (storage.mode.keep pre rel)
    fun h => resumes.findLocal hs (new h)).bind ?_
  rintro id s2 ⟨hs2, rel2⟩
  refine Keeps.after ((keeps.pair.arrayInitialiser (hg.has _)).bind fun _ => ?_) hs2
    (storage.mode.keep (storage.mode.keep pre rel) rel2) (storage.mode.trans rel rel2)
  have sizing (count : Int64) : Keeps storage.mode (do
      let size ← ofType ((← table).symbols.sizeOf t ctype)
      modifyTable fun st => st.update id fun s => { s with count, size := count * size }
      writeData storage id
      return id) :=
    keeps.pair.table.bind fun _ => keeps.pair.ofType.bind fun _ =>
      .bind (keeps_update (fun _ => ⟨rfl, Iff.rfl, Iff.rfl⟩) fun _ => rfl) fun _ =>
        keeps_writeData.bind fun _ => keeps.pure _
  exact keeps.ite ((keeps.pair.symbol _).bind fun _ => keeps.bind (keeps.fail nofun) fun _ => sizing _) (sizing _)

/-! ## Functions -/

omit hg

lemma finishFunction_runs {body : Tree} (hs : s.table.Orderly) {old : SymbolTable} (later : Later old s.table) :
    Runs (finishFunction info id body) s
      (fun _ s' => s'.table.Orderly ∧ Resumes old s'.table) fun _ s' => s'.table.Orderly := by
  have slots : s.table.symbols.Extends
      (s.out.function s.table.symbols id s.table.locals body.fold).2.1 := by
    unfold Emitter.function
    dsimp only
    split
    · exact .refl _
    · split
      · exact .localSlots _ _
      · exact .localSlots _ _
  have orderly := hs.extend slots
  unfold finishFunction
  rw [runs_modify, runs_modifyGet]
  split
  · exact ⟨rfl, orderly⟩
  · exact ⟨orderly.clearLocals,
      .cleared (later.trans ⟨slots.size, fun id lt => (slots.stands id lt).name⟩)⟩

lemma newFunction_runs (hs : s.table.Orderly) (new : s.table.findGlobal name = none) :
    Runs (newFunction name t ctype storage) s
      (fun r s' => s'.table.Orderly ∧ Resumes s.table s'.table ∧ r = s.table.symbols.size ∧
        r < s'.table.symbols.size)
      fun _ s' => s'.table.Orderly := by
  have added := hs.addGlobal t ctype .function storage 0 new
  have resumes : Resumes s.table (s.table.addGlobal name t ctype .function storage 0).2 :=
    .push hs rfl rfl rfl rfl rfl
  unfold newFunction
  rw [runs_withTable_bind]
  refine Runs.bind (runs_emit (fun _ out _ => rfl) fun _ out _ => added)
    (P := fun _ s' => s'.table = (s.table.addGlobal name t ctype .function storage 0).2) ?_
  intro endLabel s1 same
  rw [runs_modifyTable_bind, same]
  have ext : (s.table.addGlobal name t ctype .function storage 0).2.symbols.Extends
      ((s.table.addGlobal name t ctype .function storage 0).2.symbols.update s.table.symbols.size
        fun s => { s with endLabel }) := .update (fun _ => ⟨rfl, Iff.rfl, Iff.rfl⟩) rfl
  refine ⟨added.extend ext, Mode.quiet.trans resumes (.of_extends added ext rfl rfl rfl), rfl, ?_⟩
  refine Nat.lt_of_lt_of_le ?_ ext.size
  exact (Array.size_push _).symm ▸ Nat.lt_succ_self _

lemma functionSymbol_runs (hs : s.table.Orderly) :
    Runs (functionSymbol (s.table.lookup name) name t ctype storage) s
      (fun r s' => s'.table.Orderly ∧ Resumes s.table s'.table ∧ r < s'.table.symbols.size ∧
        (s.table.lookup name = none → r = s.table.symbols.size))
      fun _ s' => s'.table.Orderly := by
  cases found : s.table.lookup name with
  | none =>
    have new : s.table.findGlobal name = none := (Option.or_eq_none_iff.mp found).2
    refine (newFunction_runs hs new).mono ?_
    rintro r s' ⟨hs', resumes, rfl, lt⟩
    exact ⟨hs', resumes, lt, fun _ => rfl⟩
  | some id =>
    unfold functionSymbol
    simp only [runs_symbol, runs_ite, runs_fail_bind, runs_pure]
    refine ⟨fun _ => hs, fun _ => ⟨hs, Mode.quiet.refl _, ?_, fun h => by cases h⟩⟩
    rcases Option.or_eq_some_iff.mp found with inside | ⟨-, outside⟩
    · exact hs.scope_lt (mem_of_findIn (findLocal_eq s.table name ▸ inside)).1
    · exact hs.listed id (by simp [listed, (mem_of_findIn outside).1])

include hg

lemma functionBody_runs {params : List SymId} (hs : s.table.Orderly) (none : s.table.params = [])
    (inside : id < s.table.symbols.size) (known : ∀ p ∈ params, p < s.table.symbols.size)
    (unshared : s.table.Unshared (params ++ s.table.locals)) : Runs (functionBody g id params info name) s
      (fun _ s' => s'.table.Orderly ∧ Resumes s.table s'.table) fun _ s' => s'.table.Orderly := by
  let enter : Symbol → Symbol := fun s =>
    { s with
      defined := true, members := params,
      storage := if s.storage = .external then .global else s.storage }
  have stands (s : Symbol) : s.Stands (enter s) := by
    refine ⟨rfl, ?_, ?_⟩
    · by_cases h : s.storage = .external <;> simp [enter, h]
    · by_cases h : s.storage = .external <;> simp [enter, h]
  have entered : ({ s.table.update id enter with function := some id } : SymbolTable).Orderly :=
    hs.updateMembers (fun _ => stands _) rfl known
      (unshared.sublist (List.sublist_append_left _ _)) (.inr ⟨rfl, inside, by rwa [none, List.append_nil]⟩)
  have later : Later s.table { s.table.update id enter with function := some id } := by
    have fol : s.table.symbols.Follows (s.table.symbols.update id enter) := .update fun _ => stands _
    exact ⟨fol.size, fun id lt => (fol.stands id lt).name⟩
  unfold functionBody
  simp only [runs_symbol, runs_ite, runs_fail_bind, runs_modifyTable_bind, runs_modify, runs_expect]
  refine ⟨fun _ => hs, fun _ => ⟨fun _ => ?_, fun _ => entered⟩⟩
  refine Runs.bind (hg.block false _ entered none) ?_
  rintro body s1 ⟨hs1, proceeds⟩
  rw [runs_expect]
  refine ⟨fun _ => ?_, fun _ => hs1⟩
  refine Runs.bind ((keeps (m := .quiet)).pair.checkReturns _ hs1 trivial) ?_
  rintro - s2 ⟨hs2, resumes⟩
  exact finishFunction_runs hs2 (later.trans (proceeds.toLater.trans resumes.toLater))

lemma function_runs (hs : s.table.Orderly) : Runs (function g name t ctype storage) s
      (fun _ s' => s'.table.Orderly ∧ Resumes s.table s'.table) fun _ s' => s'.table.Orderly := by
  unfold function
  rw [runs_peek, runs_table]
  refine (functionSymbol_runs hs).bind ?_
  rintro id s1 ⟨hs1, resumes, lt, newest⟩
  rw [runs_expect]
  refine ⟨fun _ => ?_, fun _ => hs1⟩
  refine Runs.bind (keeps.pair.parameters g g (hg.declaration .param _ _ (.inr (.inr (.inl rfl)))) _ _ hs1 trivial) ?_
  rintro count s2 ⟨hs2, within⟩
  simp only [runs_expect, runs_withTable_bind, runs_modifyTable_bind]
  refine ⟨fun _ => ?_, fun _ => hs2⟩
  have known : ∀ p ∈ s2.table.params, p < s2.table.symbols.size :=
    fun p mem => hs2.listed p (by simp [listed, mem])
  have within' : Within s.table s2.table := resumes.toWithin.trans within
  have taken : Resumes s.table s2.table.takeParams.2 :=
    ⟨⟨⟨within'.size, within'.name⟩, within'.scope⟩, fun _ => rfl⟩
  have other : (s.table.lookup name).isSome ≠ true → s2.table.function ≠ some id := by
    intro new same
    obtain rfl := newest (by simpa using new)
    rcases within'.scope with ⟨none, -⟩ | ⟨old, -⟩
    · cases none.symm.trans same
    · exact Nat.lt_irrefl _ (hs.function_lt (old.symm.trans same))
  obtain ⟨st, eq, adopted, resumes3, locals⟩ := hs2.adopt id (Int64.ofNat count) other
  rw [show s2.advanced.table = s2.table from rfl, eq]
  refine Runs.bind ?_ fun _ _ done => done
  unfold bodyIfAny
  simp only [runs_isAt, runs_ite, runs_pure]
  refine ⟨fun _ => ⟨adopted, Mode.quiet.trans taken resumes3⟩, fun _ => ?_⟩
  refine Runs.mono (functionBody_runs hg adopted (resumes3.params rfl) ?_ ?_ ?_) fun _ _ done =>
    ⟨done.1, Mode.quiet.trans taken (Mode.quiet.trans resumes3 done.2)⟩
  · exact Nat.lt_of_lt_of_le lt (Nat.le_trans within.size resumes3.size)
  · exact fun p mem => Nat.lt_of_lt_of_le (known p mem) resumes3.size
  · rw [locals]
    refine resumes3.unshared hs2.params_locals fun p mem => ?_
    rcases List.mem_append.mp mem with mem | mem
    · exact known p mem
    · exact hs2.listed p (by simp [listed, mem])

/-! ## The whole -/

omit hg in
lemma checkName_runs {Q : Unit → ParseState → Prop} {E : Fault → ParseState → Prop}
    (ok : s.table.Fresh name storage → Q () s) (error : ∀ fault, E fault s) :
    Runs (checkName storage name) s Q E := by
  unfold checkName
  simp only [runs_table, runs_ite, runs_fail, runs_pure, error, implies_true, true_and]
  refine ⟨?_, ?_⟩
  · rintro rfl new
    exact ok (by simpa [Fresh] using new)
  · intro other new
    refine ok ?_
    cases storage
    case «local» => simpa [Fresh] using new
    case param => simpa [Fresh] using new
    case member => exact absurd rfl other
    all_goals trivial

lemma keeps_declarator (t : CType) (ctype : Option SymId) (declared : storage.IsDeclared) :
    Keeps storage.mode (declarator g t ctype storage) := by
  refine keeps.pair.expectIdentifier.bind fun name => keeps.pair.isAt.bind fun _ => keeps.ite ?_ ?_
  · refine keeps.unlessFails nofun (.bind ?_ fun _ => keeps.pure _)
    exact .ofQuiet fun s hs _ => function_runs hg hs
  · intro s hs pre
    refine Runs.bind (P := fun _ s' => s' = s ∧ s.table.Fresh name storage)
      (checkName_runs (fun new => ⟨rfl, new⟩) fun _ => hs) ?_
    rintro - s1 ⟨rfl, new⟩
    rw [runs_isAt, runs_ite]
    refine ⟨fun _ => ?_, fun _ => scalar_runs hg declared hs pre new⟩
    refine Runs.bind (array_runs hg hs pre ?_) fun _ _ done => done
    rintro rfl
    exact new

omit hg in
lemma typeSpec_storage (s : ParseState) :
    Ends (typeSpec g storage) s fun r _ => r.2 = storage ∨ r.2.isFileScope = true := by
  refine storageWords_value.bind fun r s1 words => ?_
  exact Ends.bind (P := fun _ _ => True) (fun _ _ _ => trivial) fun _ _ _ => ends_pure.mpr words

lemma keeps_declaration (declared : storage.IsDeclared) {end1 end2 : TokenKind} :
    Keeps storage.mode (declaration g storage end1 end2) := by
  refine Keeps.bindEnds (keeps_typeSpec hg).ofQuiet typeSpec_storage fun r words => ?_
  obtain ⟨spec, storage'⟩ := r
  refine keeps.ite (keeps.pure _) (.iterate fun done => ?_)
  rcases words with same | fileScope
  · obtain rfl : storage' = storage := same
    exact keeps.pair.nextDeclarator g g (fun t => keeps_declarator hg t _ declared) end1 end2 done
  · have quiet : storage'.mode = .quiet := by
      cases storage' <;> first | rfl | cases fileScope
    have declares (t : CType) := keeps_declarator hg t spec.ctype (.inl fileScope : storage'.IsDeclared)
    have := keeps.pair.nextDeclarator g g declares end1 end2 done
    rw [quiet] at this
    exact this.ofQuiet

end Parse
end SmallC
