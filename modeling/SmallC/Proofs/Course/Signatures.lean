import SmallC.Proofs.Course.Declarations

/-!
# The course of parameters

Where no words of storage class stand inside of it, a declaration of a function declares the parameters
that it names and no others. The first declaration of a function gives it its parameters, and so does its
body; every other one is only compared with what the function has.
-/

namespace SmallC

open ParseState

namespace SymbolTable

variable {a b c st : SymbolTable} {id : SymId} {except : Option SymId} {more more' : List SymId}
  {types types' : List CType} {w : Prop}

/-- The types of all parameters that were ever declared, in order. -/
def paramTypes (st : SymbolTable) : List CType := (List.range st.symbols.size).filterMap fun id =>
    if (st.get id).storage = .param then some (st.get id).type else none

def memberTypes (st : SymbolTable) (id : SymId) : List CType :=
  (st.get id).members.map fun m => (st.get m).type

lemma paramTypes_eq (size : a.symbols.size ≤ b.symbols.size)
    (old : ∀ id < a.symbols.size, (b.get id).type = (a.get id).type ∧
      ((b.get id).storage = .param ↔ (a.get id).storage = .param))
    (fresh : ∀ id, a.symbols.size ≤ id → (b.get id).storage ≠ .param) : b.paramTypes = a.paramTypes := by
  obtain ⟨n, hn⟩ := Nat.exists_eq_add_of_le size
  rw [paramTypes, hn, List.range_add, List.filterMap_append, paramTypes]
  have none : ((List.range n).map (a.symbols.size + ·)).filterMap (fun id =>
      if (b.get id).storage = .param then some (b.get id).type else Option.none) = [] := by
    refine List.filterMap_eq_nil_iff.mpr fun id mem => ?_
    obtain ⟨k, -, rfl⟩ := List.mem_map.mp mem
    exact if_neg (fresh _ (Nat.le_add_right _ _))
  rw [none, List.append_nil]
  refine List.filterMap_congr fun id mem => ?_
  obtain ⟨type, storage⟩ := old id (List.mem_range.mp mem)
  simp only [type, storage]

lemma paramTypes_addParam (st : SymbolTable) (name : Text) (t : CType) (ctype : Option SymId) :
    (st.addParam name t ctype).2.paramTypes = st.paramTypes ++ [t] := by
  rw [paramTypes, show (st.addParam name t ctype).2.symbols.size = st.symbols.size + 1 from Array.size_push _,
    List.range_succ, List.filterMap_append, paramTypes]
  refine congrArg₂ _ (List.filterMap_congr fun id mem => ?_) ?_
  · rw [get_push rfl (List.mem_range.mp mem)]
  · rw [List.filterMap_cons, get_push_size rfl]
    rfl

/-! ## Tables over a declaration -/

/-- `more` has come to file scope and parameters of the given types were declared. All functions but one
keep what parameters they have. -/
structure Gains (except : Option SymId) (more : List SymId) (types : List CType) (a b : SymbolTable) :
    Prop extends Carries a b where
  globals_eq : b.globals = a.globals ++ more
  signature : ∀ id < a.symbols.size, some id ≠ except → (a.get id).kind = .function →
    (b.get id).members = (a.get id).members ∧ (b.get id).count = (a.get id).count
  paramTypes : b.paramTypes = a.paramTypes ++ types

namespace Gains

lemma refl (a : SymbolTable) : Gains except [] [] a a :=
  ⟨.refl a, (List.append_nil _).symm, fun _ _ _ _ => ⟨rfl, rfl⟩, (List.append_nil _).symm⟩

lemma trans (h : Gains except more types a b) (k : Gains except more' types' b c) :
    Gains except (more ++ more') (types ++ types') a c where
  toCarries := h.toCarries.trans k.toCarries
  globals_eq := by rw [k.globals_eq, h.globals_eq, List.append_assoc]
  signature id lt other function := by
    obtain ⟨members, count⟩ := h.signature id lt other function
    obtain ⟨members', count'⟩ := k.signature id (Nat.lt_of_lt_of_le lt h.size) other
      ((h.fits id lt).kind.trans function)
    exact ⟨members'.trans members, count'.trans count⟩
  paramTypes := by rw [k.paramTypes, h.paramTypes, List.append_assoc]

lemma weaken (h : Gains none more types a b) : Gains except more types a b :=
  { h with signature := fun id lt _ function => h.signature id lt (by simp) function }

lemma of_notes (h : Notes w a b) (quiet : ¬ w) : Gains except [] [] a b where
  toCarries := h.carries
  globals_eq := by rw [h.globals, List.append_nil]
  signature id lt _ function := (h.idle quiet).signature id lt function
  paramTypes := by
    rw [List.append_nil]
    refine paramTypes_eq h.size (fun id lt => ⟨(h.rests id lt).type, ?_⟩) (h.idle quiet).fresh
    rw [(h.rests id lt).storage]

lemma update {f : Symbol → Symbol} (fits : (st.get id).Matches (f (st.get id)))
    (storage : (f (st.get id)).storage = .param ↔ (st.get id).storage = .param) :
    Gains (some id) [] [] st (st.update id f) where
  toCarries := .update fits
  globals_eq := (List.append_nil _).symm
  signature other _ ne _ := by
    rw [get_update_ne fun same : id = other => ne (congrArg some same.symm)]
    exact ⟨rfl, rfl⟩
  paramTypes := by
    rw [List.append_nil]
    refine paramTypes_eq (Nat.le_of_eq (Symbols.size_update _ _ _).symm) (fun other _ => ?_) fun other le => ?_
    · exact forall_get_update (p := fun i s => s.type = (st.get i).type ∧
        (s.storage = .param ↔ (st.get i).storage = .param)) (fun _ => ⟨rfl, Iff.rfl⟩)
        (fun _ => ⟨fits.type, storage⟩) other
    · rw [get_of_size_le (by rwa [SymbolTable.update, Symbols.size_update])]
      exact StorageClass.noConfusion

lemma push {y : Symbol} (symbols : b.symbols = a.symbols.push y)
    (globals : b.globals = a.globals ++ [a.symbols.size]) (storage : y.storage ≠ .param) :
    Gains except [a.symbols.size] [] a b := by
  refine ⟨.push symbols (globals ▸ List.prefix_append _ _), globals, fun id lt _ _ => ?_, ?_⟩
  · rw [get_push symbols lt]
    exact ⟨rfl, rfl⟩
  · rw [List.append_nil]
    refine paramTypes_eq (by rw [symbols, Array.size_push]; omega) (fun id lt => ?_) fun id le => ?_
    · rw [get_push symbols lt]
      exact ⟨rfl, Iff.rfl⟩
    · rcases get_push_of_le symbols le with same | same
      · rwa [same]
      · rw [same]
        exact StorageClass.noConfusion

lemma of_symbols (symbols : b.symbols = a.symbols) (globals : b.globals = a.globals) :
    Gains except [] [] a b := by
  have get := get_congr symbols
  refine ⟨(Notes.of_symbols (w := True) symbols globals fun quiet => absurd trivial quiet).carries,
    by rw [globals, List.append_nil], fun id _ _ _ => ?_, ?_⟩
  · rw [get]
    exact ⟨rfl, rfl⟩
  · simp only [SymbolTable.paramTypes, symbols, get, List.append_nil]

lemma memberTypes_eq (h : Gains except more types a b)
    (members : (b.get id).members = (a.get id).members)
    (known : ∀ m ∈ (a.get id).members, m < a.symbols.size) : b.memberTypes id = a.memberTypes id := by
  rw [SymbolTable.memberTypes, members]
  exact List.map_congr_left fun m mem => (h.fits m (known m mem)).type

end Gains

/-- Parameters of the given types were declared and wait to be taken over. -/
structure Awaits (types : List CType) (a b : SymbolTable) : Prop extends Gains none [] types a b where
  waiting : ∃ ids, b.params = a.params ++ ids ∧ ids.map (fun id => (b.get id).type) = types ∧
    ∀ id ∈ ids, id < b.symbols.size

namespace Awaits

lemma of_notes (h : Notes w a b) (quiet : ¬ w) : Awaits [] a b :=
  ⟨.of_notes h quiet, [], by rw [(h.idle quiet).params, List.append_nil], rfl, by simp⟩

lemma trans (h : Awaits types a b) (k : Awaits types' b c) : Awaits (types ++ types') a c where
  toGains := h.toGains.trans k.toGains
  waiting := by
    obtain ⟨ids, params, same, known⟩ := h.waiting
    obtain ⟨ids', params', same', known'⟩ := k.waiting
    refine ⟨ids ++ ids', by rw [params', params, List.append_assoc], ?_, fun id mem => ?_⟩
    · rw [List.map_append, same', ← same]
      refine congrArg (· ++ _) (List.map_congr_left fun id mem => ?_)
      exact (k.fits id (known id mem)).type
    · rcases List.mem_append.mp mem with mem | mem
      · exact Nat.lt_of_lt_of_le (known id mem) k.size
      · exact known' id mem

lemma addParam (st : SymbolTable) (name : Text) (t : CType) (ctype : Option SymId) :
    Awaits [t] st (st.addParam name t ctype).2 where
  toCarries := .push rfl List.prefix_rfl
  globals_eq := (List.append_nil _).symm
  signature id lt _ _ := by
    rw [get_push rfl lt]
    exact ⟨rfl, rfl⟩
  paramTypes := paramTypes_addParam st name t ctype
  waiting := by
    refine ⟨[st.symbols.size], rfl, by rw [List.map_singleton, get_push_size rfl]; rfl, fun id mem => ?_⟩
    rw [List.mem_singleton.mp mem]
    exact (Array.size_push _).symm ▸ Nat.lt_succ_self _

end Awaits
end SymbolTable

/-- Somewhere `void` closes a list of parameters that has some: the list counts as empty then. -/
def ParseState.Trails (s : ParseState) : Prop :=
  [TokenKind.comma, .voidKw, .rparen] <:+: s.rest.map (·.kind)

namespace Parse

open SymbolTable

variable {g : Grammar} (hg : g.Going) {s s1 : ParseState}
variable {storage : StorageClass} {t : CType}
variable {types : List CType} {id : SymId} {name : Text} {ctype : Option SymId} {a b : SymbolTable}

lemma trails_of_comma {ts : List Token} {comma : Token} (split : s.rest = ts ++ comma :: s1.rest)
    (before : comma.kind = .comma) (here : s1.front.kind = .voidKw)
    (next : s1.advanced.front.kind = .rparen) : s.Trails := by
  have void := rest_eq_of_front (s := s1) (by rw [here]; exact TokenKind.noConfusion)
  have close := rest_eq_of_front (s := s1.advanced) (by rw [next]; exact TokenKind.noConfusion)
  refine ⟨ts.map (·.kind), s1.advanced.advanced.rest.map (·.kind), ?_⟩
  rw [split, void, close, List.map_append, List.map_cons, List.map_cons, List.map_cons, before, here, next,
    List.append_assoc]
  rfl

include hg

lemma parameter_course {count : Nat} {expected : Option (List CType)}
    (before : ¬ s.Worded s1 → types.length = count ∧ Awaits types s.table s1.table ∧
      ∀ all ∈ expected, types <+: all) (rest : s1.rest <:+ s.rest) :
    Ends (g.declaration .param .comma .rparen) s1 fun r s2 => s2.rest <:+ s.rest ∧
      (r.1.bare ≠ true → (∀ all ∈ expected, all[count]? = some r.1.type) → ¬ s.Worded s2 →
        (types ++ [r.1.type]).length = count + 1 ∧ Awaits (types ++ [r.1.type]) s.table s2.table ∧
          ∀ all ∈ expected, types ++ [r.1.type] <+: all) := by
  refine (hg.param s1).mono ?_
  rintro ⟨spec, trees⟩ s2 ⟨goes, adds⟩
  refine ⟨goes.rest.trans rest, fun plain same quiet => ?_⟩
  obtain ⟨length, awaits, fits⟩ := before fun word => quiet (word.left goes.rest)
  rcases adds fun word => quiet (word.right rest) with bare | ⟨s0, name, ctype, only, table⟩
  · exact absurd bare plain
  refine ⟨by rw [List.length_append, length, List.length_singleton], ?_, fun all mem => ?_⟩
  · rw [table]
    exact awaits.trans ((Awaits.of_notes (only.idle not_false) not_false).trans (.addParam ..))
  · obtain ⟨more, rfl⟩ := fits all mem
    have here := same _ mem
    rw [← length, List.getElem?_append_right (Nat.le_refl _), Nat.sub_self] at here
    cases more with
    | nil => cases here
    | cons t more =>
      cases here
      exact ⟨more, by rw [List.append_assoc]; rfl⟩

lemma parameters_course {earlier : Option Symbol} :
    Ends (parameters g earlier) s fun count s' => ¬ s.Worded s' → ∃ types, Awaits types s.table s'.table ∧
      (∀ f ∈ earlier, types <+: f.members.map (fun id => (s.table.get id).type) ∧
        Int64.ofNat count = f.count) ∧ (count = types.length ∨ s.Trails) := by
  unfold parameters
  rw [ends_table]
  set expected := earlier.map fun f => f.members.map fun id => (s.table.get id).type with expects
  refine Ends.bind (P := fun count s' => ¬ s.Worded s' → ∃ types, Awaits types s.table s'.table ∧
    (∀ all ∈ expected, types <+: all) ∧ (count = types.length ∨ s.Trails)) ?_ ?_
  · -- All rounds but the first begin after a comma.
    refine Ends.iterate (fun count s1 => s1.rest <:+ s.rest ∧
      (0 < count → ∃ ts comma, s.rest = ts ++ comma :: s1.rest ∧ comma.kind = .comma) ∧
      ∃ types : List CType, ¬ s.Worded s1 → types.length = count ∧ Awaits types s.table s1.table ∧
        ∀ all ∈ expected, types <+: all)
      ⟨List.suffix_rfl, fun h => absurd h (Nat.lt_irrefl 0), [], fun _ => ⟨rfl, ?_, ?_⟩⟩ ?_
    · exact .of_notes (w := False) (.refl _) not_false
    · exact fun all _ => List.nil_prefix
    rintro count s1 ⟨rest, comma, types, before⟩
    simp only [ends_isAt, ends_ite, ends_peekNext, ends_advance, ends_pure, decide_eq_true_eq,
      Bool.and_eq_true]
    refine ⟨fun _ quiet => ?_, fun _ => ⟨fun void quiet => ?_, fun _ => ?_⟩⟩
    · obtain ⟨length, awaits, fits⟩ := before quiet
      exact ⟨types, awaits, fits, .inl length.symm⟩
    · obtain ⟨length, awaits, fits⟩ := before fun word => quiet (word.left (List.tail_suffix _))
      refine ⟨types, awaits, fits, ?_⟩
      rcases Nat.eq_zero_or_pos count with none | some
      · exact .inl (none.symm.trans length.symm)
      · obtain ⟨ts, t, split, kind⟩ := comma some
        exact .inr (trails_of_comma split kind void.1 void.2)
    · refine (parameter_course hg before rest).bind ?_
      rintro ⟨spec, trees⟩ s2 ⟨rest, more⟩
      simp only [ends_ite, ends_fail_bind, implies_true, true_and, ends_isAt, ends_pure]
      intro plain fits
      have more := more plain fun all mem => by
        by_contra other
        rw [Option.mem_def.mp mem] at fits
        exact fits (decide_eq_true other)
      refine ⟨fun _ quiet => ?_, fun _ => ends_expect fun here => ends_pure.mpr ⟨?_, fun _ => ?_, ?_⟩⟩
      · obtain ⟨length, awaits, fits⟩ := more quiet
        exact ⟨_, awaits, fits, .inl length.symm⟩
      · exact (List.tail_suffix _).trans rest
      · obtain ⟨ts, split⟩ := rest
        refine ⟨ts, s2.front, ?_, here⟩
        rw [← split, rest_eq_of_front (by rw [here]; exact TokenKind.noConfusion)]
      · exact ⟨_, fun quiet => more fun word => quiet (word.left (List.tail_suffix _))⟩
  · intro count s1 read
    cases earlier with
    | none =>
      refine ends_pure.mpr fun quiet => ?_
      obtain ⟨types, awaits, -, length⟩ := read quiet
      exact ⟨types, awaits, (fun f mem => by cases mem), length⟩
    | some f =>
      simp only [ends_ite, ends_fail_bind, implies_true, true_and, ends_pure, not_not]
      intro same quiet
      obtain ⟨types, awaits, fits, length⟩ := read quiet
      refine ⟨types, awaits, fun f' mem => ?_, length⟩
      cases mem
      exact ⟨fits _ rfl, same⟩

omit hg in
lemma Finishes.gains {params : List SymId} {s' : ParseState} (lt : id < s.table.symbols.size)
    (function : (s.table.get id).kind = .function) (h : Finishes id params s s') (quiet : ¬ s.Worded s') :
    Gains (some id) [] [] s.table s'.table ∧ (s'.table.get id).members = params ∧
      (s'.table.get id).count = (s.table.get id).count := by
  obtain ⟨undefined, reads, written⟩ := h
  rename_i s1 info body out
  have quiet : ¬ s.Worded s1 := quiet
  have here : (s.entered id params).table.get id = (s.table.get id).begun params := get_update lt _
  have begins : Gains (some id) [] [] s.table (s.entered id params).table := by
    have begun : Gains (some id) [] [] s.table (s.table.update id (Symbol.begun params)) := by
      refine .update ⟨rfl, rfl, rfl, rfl⟩ ?_
      unfold Symbol.begun
      by_cases external : (s.table.get id).storage = .external <;> simp [external]
    exact begun.trans (.of_symbols rfl rfl)
  have inner := reads.idle quiet
  have get := get_left s1 (d := s1.definition info id body) out rfl
  have ends : Gains none [] [] s1.table (s1.left (s1.definition info id body) out).table := by
    have notes := notes_left s1 (d := s1.definition info id body) out rfl
    refine ⟨notes.carries, by rw [notes.globals, List.append_nil], fun i _ _ _ => ?_, ?_⟩
    · rw [get]
      exact ⟨rfl, rfl⟩
    · rw [List.append_nil]
      refine paramTypes_eq notes.size (fun i _ => ?_) fun i le => ?_
      · rw [get]
        exact ⟨rfl, Iff.rfl⟩
      · rw [get, get_of_size_le le]
        exact StorageClass.noConfusion
  have inside : id < (s.entered id params).table.symbols.size := Nat.lt_of_lt_of_le lt begins.size
  have kind : ((s.entered id params).table.get id).kind = .function := (begins.fits id lt).kind.trans function
  obtain ⟨members, count⟩ := (inner.idle quiet).signature id inside kind
  rw [here] at members count
  refine ⟨begins.trans ((Gains.of_notes inner quiet).trans ends.weaken), ?_, ?_⟩
  · rw [get]
    exact members
  · rw [get]
    exact count

omit hg in
/-- What a declaration of a function without words of storage class inside of it does to the tables. -/
inductive Signs (trails : Prop) (name : Text) (t : CType) (ctype : Option SymId) (types : List CType)
    (a b : SymbolTable) : SymId → Prop
  | new (fresh : a.findGlobal name = none)
      (gains : Gains (some a.symbols.size) [a.symbols.size] types a b)
      (type : (b.get a.symbols.size).type = t) (definition : (b.get a.symbols.size).ctype = ctype)
      (parameters : b.memberTypes a.symbols.size = types)
      (count : trails ∨ (b.get a.symbols.size).count = Int64.ofNat types.length) :
      Signs trails name t ctype types a b a.symbols.size
  | again {id : SymId} (found : a.findGlobal name = some id) (gains : Gains (some id) [] types a b)
      (fits : types <+: a.memberTypes id)
      (parameters : b.memberTypes id = a.memberTypes id ∨ b.memberTypes id = types)
      (counted : trails ∨ Int64.ofNat types.length = (a.get id).count)
      (count : (b.get id).count = (a.get id).count) : Signs trails name t ctype types a b id

omit hg in
lemma Signs.paramTypes {trails : Prop} (h : Signs trails name t ctype types a b id) :
    b.paramTypes = a.paramTypes ++ types := by
  cases h with
  | new _ gains => exact gains.paramTypes
  | again _ gains => exact gains.paramTypes

omit hg in
lemma FindsFunction.rest (h : FindsFunction name t ctype storage s id s1) :
    s1.rest = s.rest ∧ s1.table.params = s.table.params := by
  cases h with
  | new => exact ⟨rfl, rfl⟩
  | again => exact ⟨rfl, rfl⟩

omit hg in
lemma FindsFunction.files (outside : s.table.lookup name = s.table.findGlobal name)
    (h : FindsFunction name t ctype storage s id s1) :
    id ∈ s1.table.globals ∧ (s1.table.get id).name = name := by
  cases h with
  | new =>
    refine ⟨List.mem_append_right _ (.head _), ?_⟩
    rw [get_push_size (declared_symbols ..)]
  | again found => exact mem_of_findIn (outside.symm.trans found)

omit hg in
lemma memberTypes_of_waiting {ids : List SymId} (same : ids.map (fun id => (a.get id).type) = types)
    (known : ∀ id ∈ ids, id < a.symbols.size) (carries : Carries a b) (members : (b.get id).members = ids) :
    b.memberTypes id = types := by
  rw [SymbolTable.memberTypes, members, ← same]
  exact List.map_congr_left fun i mem => (carries.fits i (known i mem)).type

omit hg in
lemma trails_of_suffix (rest : s1.rest <:+ s.rest) (h : s1.Trails) : s.Trails :=
  h.trans (rest.map _).isInfix

/-- A function that is declared for the first time has the parameters that the declaration names, and one
that was declared before may get them with its body. -/
lemma function_signs (fileScope : storage.isFileScope = true)
    (outside : s.table.lookup name = s.table.findGlobal name) (none : s.table.params = [])
    (known : ∀ id, ∀ m ∈ (s.table.get id).members, m < s.table.symbols.size) :
    Ends (function g name t ctype storage) s fun id s' => ¬ s.Worded s' →
      ∃ types, Signs s.Trails name t ctype types s.table s'.table id := by
  refine ends_function fun id s1 count s2 found run => ?_
  obtain ⟨lt, kind⟩ := found.kind
  have rest : s1.advanced.rest <:+ s.rest := found.rest.1 ▸ List.tail_suffix _
  have read := going_parameters hg _ _ _ _ run
  have adopts := notes_adopted (s.table.lookup name).isSome id count s2.table
  refine (bodyIfAny_course hg _ _ _ _).mono fun _ s' ends quiet => ?_
  set s3 : ParseState := { s2.advanced with table := adopted (s.table.lookup name).isSome id count s2.table }
  have lt3 : id < s3.table.symbols.size := Nat.lt_of_lt_of_le lt (Nat.le_trans read.carries.size adopts.size)
  have kind3 : (s3.table.get id).kind = .function :=
    ((read.carries.trans adopts.carries).fits id lt).kind.trans kind
  have later : s'.rest <:+ s3.rest := by
    rcases ends with rfl | finishes
    · exact List.suffix_rfl
    · exact (finishes.goes kind3).rest
  have before : s3.rest <:+ s.rest := (List.tail_suffix _).trans (read.rest.trans rest)
  have after : Gains (some id) [] [] s3.table s'.table ∧
      (s'.table.get id).count = (s3.table.get id).count ∧
      ((s'.table.get id).members = (s3.table.get id).members ∨
        (s'.table.get id).members = s2.table.params) := by
    rcases ends with rfl | finishes
    · exact ⟨.refl _, rfl, .inl rfl⟩
    · obtain ⟨gains, members, count⟩ := finishes.gains lt3 kind3 fun word => quiet (word.right before)
      exact ⟨gains, count, .inr members⟩
  obtain ⟨closes, count', members⟩ := after
  obtain ⟨types, awaits, earlier, number'⟩ := parameters_course hg _ _ run fun word =>
    quiet ((word.left (later.trans (List.tail_suffix _))).right rest)
  have number : s.Trails ∨ Int64.ofNat types.length = Int64.ofNat count :=
    number'.symm.imp (trails_of_suffix rest) fun same => by rw [same]
  obtain ⟨ids, waiting, same, inside⟩ := awaits.waiting
  have params : s2.table.params = ids := by
    rw [waiting, advanced_table, found.rest.2, none]
    rfl
  rw [params] at members
  have own (members : (s'.table.get id).members = ids) : s'.table.memberTypes id = types :=
    memberTypes_of_waiting same inside (adopts.carries.trans closes.toCarries) members
  cases found with
  | new fresh =>
    have here : s3.table = s2.table.takeParams.2.update s.table.symbols.size fun y =>
        { y with count := Int64.ofNat count, members := ids } := by
      change adopted (s.table.lookup name).isSome _ count s2.table = _
      rw [fresh, ← params]
      rfl
    have given : (s3.table.get s.table.symbols.size).members = ids ∧
        (s3.table.get s.table.symbols.size).count = Int64.ofNat count := by
      rw [here] at lt3 ⊢
      rw [get_update (by rwa [SymbolTable.update, Symbols.size_update] at lt3)]
      exact ⟨rfl, rfl⟩
    have adds : Gains (some s.table.symbols.size) [s.table.symbols.size] [] s.table
        (declared s.table name t ctype storage (s.out.labels + 1)) := by
      refine .push (declared_symbols _ _ _ _ _ _) rfl ?_
      rintro rfl
      cases fileScope
    have takes : Gains (some s.table.symbols.size) [] [] s2.table s3.table := by
      rw [here]
      have taken : Gains (some s.table.symbols.size) [] [] s2.table s2.table.takeParams.2 :=
        .of_symbols rfl rfl
      exact taken.trans (.update ⟨rfl, rfl, rfl, rfl⟩ Iff.rfl)
    have gains := adds.trans (awaits.toGains.weaken.trans (takes.trans closes))
    have made := (awaits.toCarries.trans (takes.toCarries.trans closes.toCarries)).fits _ lt
    refine ⟨types, .new (outside ▸ fresh) ?_ ?_ ?_ (own (members.elim (·.trans given.1) fun h => h)) ?_⟩
    · simpa using gains
    · rw [made.type, advanced_table, get_push_size (declared_symbols ..)]
    · rw [made.ctype, advanced_table, get_push_size (declared_symbols ..)]
    · rw [count', given.2]
      exact number.imp_right Eq.symm
  | again found function =>
    have here : s3.table = s2.table.takeParams.2 := by
      change adopted (s.table.lookup name).isSome _ count s2.table = _
      rw [found]
      rfl
    have takes : Gains (some id) [] [] s2.table s3.table := by
      rw [here]
      exact .of_symbols rfl rfl
    obtain ⟨fits, counted⟩ := earlier (s.table.get id) (by rw [found]; rfl)
    obtain ⟨old, old'⟩ := awaits.signature id lt (by simp) function
    have get : s3.table.get id = s2.table.get id := by rw [here]; rfl
    have gains := awaits.toGains.weaken.trans (takes.trans closes)
    refine ⟨types, .again (outside ▸ found) ?_ fits ?_ ?_ ?_⟩
    · simpa using gains
    · refine members.imp (fun kept => ?_) own
      exact gains.memberTypes_eq (kept.trans ((congrArg Symbol.members get).trans old)) (known id)
    · rwa [← counted]
    · rw [count', get]
      exact old'

end Parse
end SmallC
