import SmallC.Proofs.Composites
import SmallC.Proofs.Names.Reading

/-!
# Names in types

A name is added to a table right after a look at that table, or at the tables around it, has not found
it. Between the look and the addition of a local array stands its length, which can at most end the
function that the array is declared in.
-/

namespace SmallC

namespace Symbols

lemma Extends.refl (a : Symbols) : a.Extends a where
  size := Nat.le_refl _
  stands id _ := .refl _
  members _ _ := rfl
  fresh id h := by
    rw [get_of_size_le h]
    rfl

lemma Extends.trans {a b c : Symbols} (h : a.Extends b) (k : b.Extends c) : a.Extends c where
  size := Nat.le_trans h.size k.size
  stands id lt := by
    have first := h.stands id lt
    have second := k.stands id (Nat.lt_of_lt_of_le lt h.size)
    exact ⟨second.name.trans first.name, second.enumVal.trans first.enumVal,
      second.enumType.trans first.enumType⟩
  members id lt := (k.members id (Nat.lt_of_lt_of_le lt h.size)).trans (h.members id lt)
  fresh id le := by
    by_cases old : id < b.size
    · rw [k.members id old, h.fresh id le]
    · exact k.fresh id (Nat.le_of_not_lt old)

end Symbols

namespace SymbolTable

variable {st st' : SymbolTable} {ms : List SymId}

/-! ## Layouts -/

lemma Placed.extends (h : Placed st st') :
    ∃ ss, st.symbols.Extends ss ∧ st' = { st with symbols := ss } := by
  induction h with
  | refl st => exact ⟨st.symbols, .refl _, rfl⟩
  | @step st _ m offset _ ih =>
    obtain ⟨ss, ext, eq⟩ := ih
    have first : st.symbols.Extends (st.symbols.update m fun s => { s with offset }) :=
      .update (fun _ => ⟨rfl, Iff.rfl, Iff.rfl⟩) rfl
    exact ⟨ss, first.trans ext, eq⟩

lemma Orderly.complete (h : st.Orderly) (id : SymId) (f : Symbol → Symbol)
    (stands : ∀ s : Symbol, s.Stands (f s)) (members : (f (st.get id)).members = ms)
    (known : ∀ m ∈ ms, m < st.symbols.size) (unshared : st.Unshared ms) (other : st.function ≠ some id) :
    (st.update id f).Orderly ∧ Resumes st (st.update id f) := by
  refine ⟨@Orderly.updateMembers st h id f ms st.function (fun _ => stands _) members known unshared
    (.inl ⟨rfl, other⟩), ?_⟩
  have fol : st.symbols.Follows (st.symbols.update id f) := .update fun _ => stands _
  refine ⟨⟨⟨fol.size, fun id lt => (fol.stands id lt).name⟩, .inr ⟨rfl, ?_⟩⟩, fun none => none⟩
  unfold scope
  cases hf : st.function with
  | none =>
    change (st.function.elim [] _) ++ _ = _
    rw [hf]
    rfl
  | some g =>
    change (st.function.elim [] _) ++ _ = _
    rw [hf]
    change (Symbols.get (st.symbols.update id f) g).members ++ _ = _
    rw [Symbols.get_update_ne fun same => other (by rw [hf, same])]
    rfl

lemma layout_orderly (h : st.Orderly) {id : SymId} (known : ∀ m ∈ ms, m < st.symbols.size)
    (unshared : st.Unshared ms) (other : st.function ≠ some id) :
    (st.layout id ms).2.Orderly ∧ Resumes st (st.layout id ms).2 := by
  obtain ⟨st1, place, run⟩ := layout_cases st id ms
  obtain ⟨ss, ext, rfl⟩ := place.extends
  have placed := h.extend ext
  have resumes : Resumes st { st with symbols := ss } := .of_extends h ext rfl rfl rfl
  rcases run with ⟨e, run⟩ | ⟨size, run⟩
  · rw [run]
    exact ⟨placed, resumes⟩
  · obtain ⟨done, resumes'⟩ := placed.complete id
      (fun s => { s with members := ms, size }) (fun _ => ⟨rfl, Iff.rfl, Iff.rfl⟩) rfl
      (fun m mem => Nat.lt_of_lt_of_le (known m mem) ext.size) (unshared.follow ext.toFollows known) other
    rw [run]
    exact ⟨done, Parse.Mode.quiet.trans resumes resumes'⟩

lemma Resumes.push {s : Symbol} (h : st.Orderly)
    (symbols : st'.symbols = st.symbols.push s) (none : s.members = [])
    (function : st'.function = st.function) (locals : st'.locals = st.locals)
    (params : st'.params = st.params) : Resumes st st' :=
  .of_extends h (symbols ▸ .push _ none) function locals params

lemma Resumes.withMembers (h : Resumes st st') (ms : List SymId) :
    Resumes st { st' with members := ms } :=
  Parse.Mode.quiet.trans h ⟨⟨⟨Nat.le_refl _, fun _ _ => rfl⟩, .inr ⟨rfl, rfl⟩⟩, fun none => none⟩

end SymbolTable

namespace Parse

open SymbolTable

variable {m : Mode} {g : Grammar} (hg : g.Orderly) {s : ParseState} {storage : StorageClass}

/-! ## Types -/

lemma storageWords_value : Ends (storageWords storage) s fun r _ => r = storage ∨ r.isFileScope = true := by
  refine Ends.iterate (fun r _ => r = storage ∨ r.isFileScope = true) (.inl rfl) ?_
  intro r s1 words
  rw [ends_peek]
  split
  · simp only [ends_ite, ends_fail_bind, implies_true, true_and, ends_advance, ends_pure]
    exact fun _ => .inr rfl
  · simp only [ends_ite, ends_fail_bind, implies_true, true_and, ends_advance, ends_pure]
    exact fun _ _ => .inr rfl
  · exact ends_pure.mpr words

lemma runs_enumeratorValue {next : Int64} {Q : Int64 → ParseState → Prop} {E : Fault → ParseState → Prop}
    (ok : ∀ v s', s'.table = s.table → Q v s') (error : ∀ fault s', s'.table = s.table → E fault s') :
    Runs (enumeratorValue next) s Q E := by
  simp only [enumeratorValue, runs_isAt, runs_ite, runs_advance, runs_fail_bind, runs_pure]
  exact ⟨fun _ => ⟨fun _ => ok _ _ rfl, fun _ => error _ _ rfl⟩, fun _ => ok _ _ rfl⟩

lemma keeps_enumerators : Keeps .quiet enumerators := by
  refine .iterate fun value s hs _ => ?_
  simp only [runs_expectIdentifier, runs_table, runs_ite, runs_fail_bind]
  refine ⟨fun _ => ⟨fun _ => hs, fun new => ?_⟩, fun _ => hs⟩
  refine Runs.bind (runs_enumeratorValue (fun v s' same => (same : s'.table = s.table))
    fun _ s' same => (same : s'.table = s.table) ▸ hs) fun v s1 same => ?_
  rw [runs_withTable_bind, same]
  have fresh : s.table.findEnumVal s.front.lexeme = none := by simpa using new
  exact Keeps.after (keeps.pair.isAt.bind fun _ => keeps.ite (keeps.pure _)
      (keeps.pair.expect.bind fun _ => keeps.pure _))
    (hs.addEnum v (fun _ => fresh) (fun h => by cases h)) trivial (.push hs rfl rfl rfl rfl rfl)

lemma keeps_enumType : Keeps .quiet enumType := by
  refine keeps.advance.bind fun _ => keeps.pair.tag.bind fun name s hs _ => ?_
  simp only [runs_table, runs_isAt, runs_ite, runs_advance, runs_fail]
  refine ⟨fun _ => ?_, fun _ => ⟨fun _ => hs, fun _ => ⟨hs, Mode.quiet.refl _⟩⟩⟩
  split
  · exact ⟨rfl, hs⟩
  · rename_i new
    rw [runs_withTable_bind]
    refine Keeps.after (keeps_enumerators.bind fun _ => keeps.advance.bind fun _ => keeps.pure _)
      (hs.addEnum 0 (fun h => by cases h) fun _ named => ?_) trivial (.push hs rfl rfl rfl rfl rfl)
    cases name with
    | none => exact absurd rfl named
    | some name => exact Option.eq_none_iff_forall_ne_some.mpr fun id same => new id same

include hg

lemma keeps_typedefType : Keeps .quiet (typedefType g) := by
  refine keeps.advance.bind fun _ => (hg.typeSpec _).bind fun spec => keeps.ifFails nofun
    (keeps.pair.stars.bind fun t => keeps.pair.isAt.bind fun _ => keeps.unlessFails nofun fun s hs _ => ?_)
  simp only [runs_peek, runs_table, runs_ite, runs_fail_bind, runs_withTable_bind]
  refine ⟨fun _ => hs, fun new => ?_⟩
  have fresh : s.table.findTypedef s.front.lexeme = none := by simpa using new
  exact Keeps.after (keeps.advance.bind fun _ => keeps.pure _) (hs.addTypedef t spec.1.ctype fresh) trivial
    (.push hs rfl rfl rfl rfl rfl)

lemma compositeBody_runs {isUnion : Bool} {name : Text} (hs : s.table.Orderly) (new : name ≠ [] →
      (if isUnion then s.table.findUnion name else s.table.findStruct name) = none) :
    Runs (compositeBody g isUnion name) s
      (fun _ s' => s'.table.Orderly ∧ Resumes s.table s'.table) fun _ s' => s'.table.Orderly := by
  have added : (if isUnion then s.table.addUnion name else s.table.addStruct name).1 =
        s.table.symbols.size ∧
      (if isUnion then s.table.addUnion name else s.table.addStruct name).2.Orderly ∧
      Resumes s.table (if isUnion then s.table.addUnion name else s.table.addStruct name).2 := by
    cases isUnion with
    | true => exact ⟨rfl, hs.addUnion new, .push hs rfl rfl rfl rfl rfl⟩
    | false => exact ⟨rfl, hs.addStruct new, .push hs rfl rfl rfl rfl rfl⟩
  unfold compositeBody
  simp only [runs_withTable_bind, runs_advance]
  generalize (if isUnion then s.table.addUnion name else s.table.addStruct name) = add at added ⊢
  obtain ⟨id, st⟩ := add
  obtain ⟨rfl, hst, resumes⟩ := added
  refine Runs.bind (P := fun _ s' => s'.table.Orderly ∧ Resumes st.takeMembers.2 s'.table)
    (keeps.pair.memberList g g (hg.declaration .member _ _ (.inr (.inr (.inr rfl)))) _ hst.takeMembers trivial) ?_
  rintro - s1 ⟨hs1, resumes1⟩
  simp only [runs_expect, runs_withTable_bind, runs_modifyTable_bind, runs_ite, runs_fail_bind,
    runs_ofType_bind, runs_pure]
  refine ⟨fun _ => ?_, fun _ => hs1⟩
  have outer_lt : ∀ m ∈ st.members, m < st.symbols.size :=
    fun m mem => hst.listed m (by simp [listed, mem])
  have own_lt : ∀ m ∈ s1.table.members, m < s1.table.symbols.size :=
    fun m mem => hs1.listed m (by simp [listed, mem])
  have back : ({ s1.table.takeMembers.2 with members := st.members } : SymbolTable).Orderly :=
    hs1.takeMembers.withMembers (fun m mem => Nat.lt_of_lt_of_le (outer_lt m mem) resumes1.size)
      (resumes1.unshared hst.pending outer_lt)
  refine ⟨fun _ => back, fun _ => ?_⟩
  have resumes2 : Resumes s.table { s1.table.takeMembers.2 with members := st.members } :=
    Mode.quiet.trans (resumes.withMembers []) (resumes1.withMembers st.members)
  have other : s1.table.function ≠ some s.table.symbols.size := by
    rcases resumes2.scope with ⟨none, -⟩ | ⟨same, -⟩
    · exact fun h => by cases none.symm.trans h
    · exact fun h => Nat.lt_irrefl _ (hs.function_lt (same.symm.trans h))
  obtain ⟨done, resumes3⟩ := layout_orderly back own_lt hs1.pending other
  exact ⟨fun _ _ => ⟨done, Mode.quiet.trans resumes2 resumes3⟩, fun _ _ => done⟩

lemma keeps_compositeType (isUnion : Bool) : Keeps .quiet (compositeType g isUnion) := by
  refine keeps.advance.bind fun _ => keeps.pair.tag.bind fun name s hs _ => ?_
  simp only [runs_table, runs_isAt, runs_ite, runs_fail_bind]
  refine ⟨fun _ => ⟨fun _ => hs, fun new => ?_⟩, fun _ => ?_⟩
  · refine compositeBody_runs hg hs fun named => ?_
    cases name with
    | none => exact absurd rfl named
    | some name => simpa using new
  · split
    · exact ⟨hs, Mode.quiet.refl _⟩
    · exact ⟨rfl, hs⟩

lemma keeps_plainType : Keeps .quiet (plainType g) :=
  keeps.pair.plainType g g (keeps_compositeType hg) keeps_enumType (keeps_typedefType hg)

lemma keeps_typeSpec : Keeps .quiet (typeSpec g storage) :=
  keeps.pair.storageWords.bind fun _ => (keeps_plainType hg).bind fun _ => keeps.pure _

end Parse
end SmallC
