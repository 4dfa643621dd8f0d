import SmallC.Proofs.Parse.Invariant

/-!
# Names in symbol tables

`Distinct` says that no name stands twice in a table where it must not. `Orderly` adds what it takes to
keep that: tables list symbols that there are, and the names that wait to become members or parameters
are different too. For each change that reading makes to the tables: it leaves them orderly.
-/

namespace SmallC

/-- A later form of a symbol with its name, which is an enumerator or an enumeration if it was one. -/
structure Symbol.Stands (a b : Symbol) : Prop where
  name : b.name = a.name
  enumVal : b.storage = .enumVal ↔ a.storage = .enumVal
  enumType : b.storage = .enumType ↔ a.storage = .enumType

lemma Symbol.Stands.refl (a : Symbol) : a.Stands a := ⟨rfl, Iff.rfl, Iff.rfl⟩

namespace Symbols

/-- Later symbols: there may be more of them, and those there were still stand. -/
structure Follows (a b : Symbols) : Prop where
  size : a.size ≤ b.size
  stands : ∀ id < a.size, (a.get id).Stands (b.get id)

/-- Later symbols with the members that they had; those added have none. -/
structure Extends (a b : Symbols) : Prop extends Follows a b where
  members : ∀ id < a.size, (b.get id).members = (a.get id).members
  fresh : ∀ id, a.size ≤ id → (b.get id).members = []

section
variable {a : Symbols} {id : SymId} {f : Symbol → Symbol}
  (stands : id < a.size → (a.get id).Stands (f (a.get id)))
include stands

lemma Follows.update : a.Follows (a.update id f) where
  size := by simp
  stands other _ := forall_get_update (p := fun i s => (a.get i).Stands s) (fun _ => .refl _) stands other

lemma Extends.update (members : (f (a.get id)).members = (a.get id).members) :
    a.Extends (a.update id f) where
  toFollows := .update stands
  members other _ := forall_get_update (p := fun i s => s.members = (a.get i).members) (fun _ => rfl)
    (fun _ => members) other
  fresh other ho := by
    rw [get_of_size_le (by rwa [size_update])]
    rfl

end

lemma Extends.push (a : Symbols) {s : Symbol} (none : s.members = []) : a.Extends (a.push s) where
  size := by simp
  stands id h := by
    rw [get_push h]
    exact .refl _
  members id h := by rw [get_push h]
  fresh id h := by
    rcases Nat.eq_or_lt_of_le h with rfl | h
    · rw [get_push_size, none]
    · rw [get_of_size_le (by rw [Array.size_push]; omega)]
      rfl

lemma Extends.localSlots (ss : Symbols) (ids : List SymId) : ss.Extends (Lower.localSlots ss ids).2 where
  size := by rw [Lower.localSlots_size]
  stands id _ := by
    rw [Lower.localSlots_get]
    exact ⟨rfl, Iff.rfl, Iff.rfl⟩
  members id _ := by
    rw [Lower.localSlots_get]
    rfl
  fresh id h := by
    rw [get_of_size_le (by rw [Lower.localSlots_size]; exact h)]
    rfl

end Symbols

namespace SymbolTable

variable {st : SymbolTable} {ids : List SymId} {name : Text}

/-! ## Distinct names -/

def named (st : SymbolTable) (ids : List SymId) : List SymId :=
  ids.filter fun id => (st.get id).name ≠ []

def enumsOf (st : SymbolTable) (storage : StorageClass) : List SymId :=
  st.enums.filter fun id => (st.get id).storage = storage

/-- Names differ within each table, tags only if they are given, and in the scope of the function at
hand, which is its parameters and its locals. -/
structure Distinct (st : SymbolTable) : Prop where
  globals : st.Unshared st.globals
  typedefs : st.Unshared st.typedefs
  enumVals : st.Unshared (st.enumsOf .enumVal)
  enumTypes : st.Unshared (st.named (st.enumsOf .enumType))
  structs : st.Unshared (st.named st.structs)
  unions : st.Unshared (st.named st.unions)
  members : ∀ id ∈ st.structs ++ st.unions, st.Unshared (st.get id).members
  scope : st.Unshared st.scope

def listed (st : SymbolTable) : List SymId :=
  st.function.toList ++ st.globals ++ st.locals ++ st.params ++ st.members ++ st.structs ++ st.unions
    ++ st.enums ++ st.typedefs

/-- What every change of the tables keeps. -/
structure Orderly (st : SymbolTable) : Prop where
  globals : st.Unshared st.globals
  typedefs : st.Unshared st.typedefs
  enumVals : st.Unshared (st.enumsOf .enumVal)
  enumTypes : st.Unshared (st.named (st.enumsOf .enumType))
  structs : st.Unshared (st.named st.structs)
  unions : st.Unshared (st.named st.unions)
  /-- Members of structs and unions, and parameters of functions. -/
  inner : ∀ id, st.Unshared (st.get id).members
  pending : st.Unshared st.members
  /-- Parameters that are collected differ from all that is in scope. -/
  frame : st.Unshared (st.scope ++ st.params)
  listed : ∀ id ∈ st.listed, id < st.symbols.size
  known : ∀ id, ∀ m ∈ (st.get id).members, m < st.symbols.size

lemma Unshared.sublist {ids' : List SymId} (h : st.Unshared ids) (sub : ids'.Sublist ids) :
    st.Unshared ids' :=
  List.Nodup.sublist (sub.map _) h

namespace Orderly

lemma distinct (h : st.Orderly) : st.Distinct where
  globals := h.globals
  typedefs := h.typedefs
  enumVals := h.enumVals
  enumTypes := h.enumTypes
  structs := h.structs
  unions := h.unions
  members id _ := h.inner id
  scope := h.frame.sublist (List.sublist_append_left _ _)

lemma function_lt (h : st.Orderly) {f : SymId} (hf : st.function = some f) : f < st.symbols.size :=
  h.listed f (by simp [SymbolTable.listed, hf])

lemma scope_lt (h : st.Orderly) {id : SymId} (hid : id ∈ st.scope) : id < st.symbols.size := by
  rcases List.mem_append.mp hid with hid | hid
  · cases hf : st.function with
    | none =>
      rw [hf] at hid
      cases hid
    | some f =>
      rw [hf] at hid
      exact h.known f id hid
  · exact h.listed id (by simp [SymbolTable.listed, hid])

lemma empty : ({} : SymbolTable).Orderly := by
  have none (id : SymId) : (({} : SymbolTable).get id).members = [] := by
    rw [SymbolTable.get, Symbols.get_of_size_le (Nat.zero_le id)]
    rfl
  refine ⟨List.nodup_nil, List.nodup_nil, List.nodup_nil, List.nodup_nil, List.nodup_nil,
    List.nodup_nil, fun id => ?_, List.nodup_nil, List.nodup_nil, fun id mem => absurd mem List.not_mem_nil,
    fun id m mem => ?_⟩
  · rw [none]
    exact List.nodup_nil
  · rw [none] at mem
    cases mem

end Orderly

/-! ## Changing symbols -/

section
variable {ss : Symbols} {current : Option SymId}

lemma scope_extend (h : st.Orderly) (ext : st.symbols.Extends ss) :
    ({ st with symbols := ss } : SymbolTable).scope = st.scope := by
  unfold scope
  cases hf : st.function with
  | none => rfl
  | some f =>
    change (ss.get f).members ++ _ = _
    rw [ext.members f (h.function_lt hf)]
    rfl

lemma Unshared.follow (h : st.Unshared ids) (fol : st.symbols.Follows ss)
    (known : ∀ id ∈ ids, id < st.symbols.size) :
    ({ st with symbols := ss } : SymbolTable).Unshared ids :=
  h.congr fun id mem => (fol.stands id (known id mem)).name

lemma named_follow (fol : st.symbols.Follows ss) (known : ∀ id ∈ ids, id < st.symbols.size) :
    ({ st with symbols := ss } : SymbolTable).named ids = st.named ids :=
  List.filter_congr fun id mem => by
    change decide ((ss.get id).name ≠ []) = _
    rw [(fol.stands id (known id mem)).name]
    rfl

lemma Unshared.follow_named (h : st.Unshared (st.named ids)) (fol : st.symbols.Follows ss)
    (known : ∀ id ∈ ids, id < st.symbols.size) : ({ st with symbols := ss } : SymbolTable).Unshared
      (({ st with symbols := ss } : SymbolTable).named ids) := by
  rw [named_follow fol known]
  exact h.follow fol fun id mem => known id (List.mem_filter.mp mem).1

lemma Orderly.follow (h : st.Orderly) (fol : st.symbols.Follows ss)
    (current_lt : ∀ f, current = some f → f < ss.size)
    (known : ∀ id, ∀ m ∈ (ss.get id).members, m < st.symbols.size)
    (inner : ∀ id, st.Unshared (ss.get id).members)
    (frame : st.Unshared ((current.elim [] fun f => (ss.get f).members) ++ st.locals ++ st.params)) :
    ({ st with symbols := ss, function := current } : SymbolTable).Orderly := by
  have listed {id : SymId} (mem : id ∈ st.listed) : id < st.symbols.size := h.listed id mem
  have enumsOf {storage : StorageClass}
      (same : ∀ {a b : Symbol}, a.Stands b → (b.storage = storage ↔ a.storage = storage)) :
      ({ st with symbols := ss } : SymbolTable).enumsOf storage = st.enumsOf storage :=
    List.filter_congr fun id mem =>
      decide_eq_decide.mpr (same (fol.stands id (listed (by simp [SymbolTable.listed, mem]))))
  have enums {id : SymId} {storage : StorageClass} (mem : id ∈ st.enumsOf storage) :
      id < st.symbols.size :=
    listed (by simp [SymbolTable.listed, (List.mem_filter.mp mem).1])
  constructor
  case globals => exact h.globals.follow fol fun id mem => listed (by simp [SymbolTable.listed, mem])
  case typedefs => exact h.typedefs.follow fol fun id mem => listed (by simp [SymbolTable.listed, mem])
  case enumVals =>
    change SymbolTable.Unshared _ (({ st with symbols := ss } : SymbolTable).enumsOf _)
    rw [enumsOf (·.enumVal)]
    exact h.enumVals.follow fol fun id mem => enums mem
  case enumTypes =>
    change SymbolTable.Unshared _ (({ st with symbols := ss } : SymbolTable).named
      (({ st with symbols := ss } : SymbolTable).enumsOf _))
    rw [enumsOf (·.enumType)]
    exact h.enumTypes.follow_named fol fun id mem => enums mem
  case structs => exact h.structs.follow_named fol fun id mem => listed (by simp [SymbolTable.listed, mem])
  case unions => exact h.unions.follow_named fol fun id mem => listed (by simp [SymbolTable.listed, mem])
  case inner => exact fun id => (inner id).follow fol (known id)
  case pending => exact h.pending.follow fol fun id mem => listed (by simp [SymbolTable.listed, mem])
  case frame =>
    refine frame.follow fol fun id mem => ?_
    rw [List.append_assoc, List.mem_append] at mem
    rcases mem with mem | mem
    · cases current with
      | none => cases mem
      | some f => exact known f id mem
    · exact listed (by
        simp only [SymbolTable.listed, List.mem_append] at mem ⊢
        tauto)
  case listed =>
    intro id mem
    have old : current = some id ∨ id ∈ st.listed := by
      simp only [SymbolTable.listed, List.mem_append, Option.mem_toList] at mem ⊢
      tauto
    rcases old with rfl | old
    · exact current_lt id rfl
    · exact Nat.lt_of_lt_of_le (listed old) fol.size
  case known => exact fun id m mem => Nat.lt_of_lt_of_le (known id m mem) fol.size

lemma Orderly.extend (h : st.Orderly) (ext : st.symbols.Extends ss) :
    ({ st with symbols := ss } : SymbolTable).Orderly := by
  have members (id : SymId) : (ss.get id).members = (st.get id).members ∨ (ss.get id).members = [] := by
    by_cases old : id < st.symbols.size
    · exact .inl (ext.members id old)
    · exact .inr (ext.fresh id (Nat.le_of_not_lt old))
  refine h.follow ext.toFollows ?_ ?_ ?_ ?_
  · exact fun f hf => Nat.lt_of_lt_of_le (h.function_lt hf) ext.size
  · intro id m mem
    rcases members id with same | none
    · rw [same] at mem
      exact h.known id m mem
    · rw [none] at mem
      cases mem
  · intro id
    rcases members id with same | none
    · rw [same]
      exact h.inner id
    · rw [none]
      exact List.nodup_nil
  · have := h.frame
    rw [← scope_extend h ext] at this
    exact this

end

/-! ## Adding symbols -/

section
variable {s : Symbol}

lemma Orderly.push (h : st.Orderly) (none : s.members = []) :
    ({ st with symbols := st.symbols.push s } : SymbolTable).Orderly :=
  h.extend (.push _ none)

lemma Unshared.push (h : st.Unshared ids) (none : s.members = [])
    (known : ∀ id ∈ ids, id < st.symbols.size) (fresh : ∀ id ∈ ids, (st.get id).name ≠ s.name) :
    ({ st with symbols := st.symbols.push s } : SymbolTable).Unshared (ids ++ [st.symbols.size]) := by
  refine (h.follow (Symbols.Extends.push _ none).toFollows known).concat fun id mem => ?_
  change (Symbols.get (st.symbols.push s) id).name ≠ (Symbols.get (st.symbols.push s) _).name
  rw [Symbols.get_push (known id mem), Symbols.get_push_size]
  exact fresh id mem

lemma Orderly.listed_push (h : st.Orderly) {st' : SymbolTable}
    (symbols : st'.symbols = st.symbols.push s)
    (one : ∀ id ∈ st'.listed, id ∈ st.listed ∨ id = st.symbols.size) :
    ∀ id ∈ st'.listed, id < st'.symbols.size := by
  intro id mem
  rw [symbols, Array.size_push]
  rcases one id mem with old | rfl
  · exact Nat.lt_succ_of_lt (h.listed id old)
  · exact Nat.lt_succ_self _

lemma named_push (known : ∀ id ∈ ids, id < st.symbols.size) (none : s.members = []) :
    ({ st with symbols := st.symbols.push s } : SymbolTable).named (ids ++ [st.symbols.size]) =
      st.named ids ++ if s.name = [] then [] else [st.symbols.size] := by
  have last : (Symbols.get (st.symbols.push s) st.symbols.size).name = s.name := by
    rw [Symbols.get_push_size]
  rw [← named_follow (Symbols.Extends.push _ none).toFollows known]
  unfold named
  rw [List.filter_append, List.filter_singleton]
  refine congrArg _ ?_
  change (bif decide ((Symbols.get (st.symbols.push s) _).name ≠ []) then _ else _) = _
  rw [last]
  by_cases empty : s.name = []
  · simp [empty]
  · simp [empty]

lemma Unshared.push_named (h : st.Unshared (st.named ids)) (none : s.members = [])
    (known : ∀ id ∈ ids, id < st.symbols.size)
    (fresh : s.name ≠ [] → ∀ id ∈ ids, (st.get id).name ≠ s.name) :
    ({ st with symbols := st.symbols.push s } : SymbolTable).Unshared
      (({ st with symbols := st.symbols.push s } : SymbolTable).named (ids ++ [st.symbols.size])) := by
  have known' : ∀ id ∈ st.named ids, id < st.symbols.size :=
    fun id mem => known id (List.mem_filter.mp mem).1
  rw [named_push known none]
  by_cases empty : s.name = []
  · rw [if_pos empty, List.append_nil]
    exact h.follow (Symbols.Extends.push _ none).toFollows known'
  · rw [if_neg empty]
    exact h.push none known' fun id mem => fresh empty id (List.mem_filter.mp mem).1

lemma enumsOf_push (h : st.Orderly) (storage : StorageClass) :
    ({ st with symbols := st.symbols.push s, enums := st.enums ++ [st.symbols.size] } :
      SymbolTable).enumsOf storage =
      st.enumsOf storage ++ if s.storage = storage then [st.symbols.size] else [] := by
  have last : (Symbols.get (st.symbols.push s) st.symbols.size).storage = s.storage := by
    rw [Symbols.get_push_size]
  have old : st.enums.filter (fun id => (Symbols.get (st.symbols.push s) id).storage = storage) =
      st.enumsOf storage :=
    List.filter_congr fun id mem => by
      rw [Symbols.get_push (h.listed id (by simp [SymbolTable.listed, mem]))]
      rfl
  unfold enumsOf at old ⊢
  rw [List.filter_append, List.filter_singleton]
  change List.filter (fun id => decide ((Symbols.get (st.symbols.push s) id).storage = storage)) st.enums ++
    (bif decide ((Symbols.get (st.symbols.push s) _).storage = storage) then _ else _) = _
  rw [old, last, Bool.cond_decide]

end

section
variable (h : st.Orderly)
include h

section
variable (t : CType) (ctype : Option SymId) (kind : Kind) (storage : StorageClass) (count : Int64)

lemma Orderly.addGlobal (new : st.findGlobal name = none) :
    (st.addGlobal name t ctype kind storage count).2.Orderly :=
  { h.push (s := st.sized name t ctype kind storage count) rfl with
    globals := h.globals.push rfl (fun id mem => h.listed id (by simp [SymbolTable.listed, mem]))
      fun _ mem => name_ne_of_findIn new mem
    listed := h.listed_push rfl fun id mem => by
      simp only [SymbolTable.listed, SymbolTable.addGlobal, create, List.mem_append,
        List.mem_singleton] at mem ⊢
      tauto }

lemma Orderly.addLocal (new : st.findLocal name = none) (params : st.params = []) :
    (st.addLocal name t ctype kind count).2.Orderly := by
  have pushed := h.push (s := st.sized name t ctype kind .local count) rfl
  have frame := h.frame.push (s := st.sized name t ctype kind .local count) rfl (fun id mem => by
      rw [params, List.append_nil] at mem
      exact h.scope_lt mem)
    (fun id mem => by
      rw [params, List.append_nil] at mem
      exact name_ne_of_findIn (findLocal_eq st name ▸ new) mem)
  refine { pushed with frame := ?_, listed := ?_ }
  · have scope : (st.addLocal name t ctype kind count).2.scope = st.scope ++ [st.symbols.size] := by
      rw [← scope_extend h (.push _ (rfl : (st.sized name t ctype kind .local count).members = []))]
      exact (List.append_assoc _ _ _).symm
    have none : (st.addLocal name t ctype kind count).2.params = [] := params
    rw [scope, none, List.append_nil]
    rw [params, List.append_nil] at frame
    exact frame
  · refine h.listed_push rfl fun id mem => ?_
    simp only [SymbolTable.listed, SymbolTable.addLocal, create, List.mem_append,
      List.mem_singleton] at mem ⊢
    tauto

lemma Orderly.addParam (new : st.findLocal name = none) (other : st.findIn st.params name = none) :
    (st.addParam name t ctype).2.Orderly := by
  have pushed := h.push (s := st.sized name t ctype .variable .param 1) rfl
  have frame := h.frame.push (s := st.sized name t ctype .variable .param 1) rfl (fun id mem => by
      rcases List.mem_append.mp mem with mem | mem
      · exact h.scope_lt mem
      · exact h.listed id (by simp [SymbolTable.listed, mem]))
    (fun id mem => by
      rcases List.mem_append.mp mem with mem | mem
      · exact name_ne_of_findIn (findLocal_eq st name ▸ new) mem
      · exact name_ne_of_findIn other mem)
  refine { pushed with frame := ?_, listed := ?_ }
  · have scope : (st.addParam name t ctype).2.scope = st.scope := scope_extend h (.push _ rfl)
    rw [scope]
    rw [List.append_assoc] at frame
    exact frame
  · refine h.listed_push rfl fun id mem => ?_
    simp only [SymbolTable.listed, SymbolTable.addParam, create, List.mem_append,
      List.mem_singleton] at mem ⊢
    tauto

lemma Orderly.addMember (new : st.findMember name = none) :
    (st.addMember name t ctype kind count).2.Orderly :=
  { h.push (s := st.sized name t ctype kind .member count) rfl with
    pending := h.pending.push rfl (fun id mem => h.listed id (by simp [SymbolTable.listed, mem]))
      fun _ mem => name_ne_of_findIn new mem
    listed := h.listed_push rfl fun id mem => by
      simp only [SymbolTable.listed, SymbolTable.addMember, create, List.mem_append,
        List.mem_singleton] at mem ⊢
      tauto }

lemma Orderly.addTypedef (new : st.findTypedef name = none) :
    (st.addTypedef name t ctype).2.Orderly :=
  { h.push (s := { name, type := t, ctype, storage := .typedef }) rfl with
    typedefs := h.typedefs.push rfl (fun id mem => h.listed id (by simp [SymbolTable.listed, mem]))
      fun _ mem => name_ne_of_findIn new mem
    listed := h.listed_push rfl fun id mem => by
      simp only [SymbolTable.listed, SymbolTable.addTypedef, create, List.mem_append,
        List.mem_singleton] at mem ⊢
      tauto }

end

lemma Orderly.addStruct (new : name ≠ [] → st.findStruct name = none) :
    (st.addStruct name).2.Orderly := by
  have known : ∀ id ∈ st.structs, id < st.symbols.size :=
    fun id mem => h.listed id (by simp [SymbolTable.listed, mem])
  exact { h.push (s := { name, type := .struct, storage := .struct }) rfl with
    structs := h.structs.push_named rfl known fun named _ mem => name_ne_of_findIn (new named) mem
    listed := h.listed_push rfl fun id mem => by
      simp only [SymbolTable.listed, SymbolTable.addStruct, create, List.mem_append,
        List.mem_singleton] at mem ⊢
      tauto }

lemma Orderly.addUnion (new : name ≠ [] → st.findUnion name = none) :
    (st.addUnion name).2.Orderly := by
  have known : ∀ id ∈ st.unions, id < st.symbols.size :=
    fun id mem => h.listed id (by simp [SymbolTable.listed, mem])
  exact { h.push (s := { name, type := .union, storage := .union }) rfl with
    unions := h.unions.push_named rfl known fun named _ mem => name_ne_of_findIn (new named) mem
    listed := h.listed_push rfl fun id mem => by
      simp only [SymbolTable.listed, SymbolTable.addUnion, create, List.mem_append,
        List.mem_singleton] at mem ⊢
      tauto }

lemma Orderly.addEnum {storage : StorageClass} (value : Int64)
    (val : storage = .enumVal → st.findEnumVal name = none)
    (type : storage = .enumType → name ≠ [] → st.findEnumType name = none) :
    (st.addEnum name storage value).2.Orderly := by
  have known (storage : StorageClass) : ∀ id ∈ st.enumsOf storage, id < st.symbols.size :=
    fun id mem => h.listed id (by simp [SymbolTable.listed, (List.mem_filter.mp mem).1])
  have fresh {storage : StorageClass} (none : st.findEnum storage name = none) :
      ∀ id ∈ st.enumsOf storage, (st.get id).name ≠ name := by
    intro id mem same
    obtain ⟨mem, kind⟩ := List.mem_filter.mp mem
    exact List.find?_eq_none.mp none id mem (decide_eq_true ⟨same, of_decide_eq_true kind⟩)
  have pushed := h.push (s := { name, type := .int, storage, value }) rfl
  refine { pushed with enumVals := ?_, enumTypes := ?_, listed := ?_ }
  · have list := enumsOf_push (s := { name, type := .int, storage, value }) h .enumVal
    change SymbolTable.Unshared _ (SymbolTable.enumsOf _ _)
    simp only [SymbolTable.addEnum, create]
    rw [list]
    by_cases kind : storage = .enumVal
    · rw [if_pos kind]
      exact h.enumVals.push rfl (known .enumVal) (fresh (val kind))
    · rw [if_neg kind, List.append_nil]
      exact h.enumVals.follow (Symbols.Extends.push _ rfl).toFollows (known .enumVal)
  · have list := enumsOf_push (s := { name, type := .int, storage, value }) h .enumType
    simp only [SymbolTable.addEnum, create]
    rw [list]
    by_cases kind : storage = .enumType
    · rw [if_pos kind]
      exact h.enumTypes.push_named rfl (known .enumType) fun named => fresh (type kind named)
    · rw [if_neg kind, List.append_nil]
      exact h.enumTypes.follow_named (Symbols.Extends.push _ rfl).toFollows (known .enumType)
  · refine h.listed_push rfl fun id mem => ?_
    simp only [SymbolTable.listed, SymbolTable.addEnum, create, List.mem_append,
      List.mem_singleton] at mem ⊢
    tauto

/-! ## Other changes -/

lemma Orderly.updateMembers {id : SymId} {f : Symbol → Symbol} {ms : List SymId} {current : Option SymId}
    (stands : id < st.symbols.size → (st.get id).Stands (f (st.get id)))
    (members : (f (st.get id)).members = ms) (known : ∀ m ∈ ms, m < st.symbols.size)
    (unshared : st.Unshared ms) (function : current = st.function ∧ st.function ≠ some id ∨
      current = some id ∧ id < st.symbols.size ∧ st.Unshared (ms ++ st.locals ++ st.params)) :
    ({ st.update id f with function := current } : SymbolTable).Orderly := by
  have after := Symbols.forall_get_update (p := fun i s => s.members = ms ∨ s.members = (st.get i).members)
    (fun _ => .inr rfl) fun _ => .inl members
  refine @Orderly.follow st (st.symbols.update id f) current h (.update stands) ?_ ?_ ?_ ?_
  · intro g hg
    rw [Symbols.size_update]
    rcases function with ⟨rfl, -⟩ | ⟨rfl, lt, -⟩
    · exact h.function_lt hg
    · cases hg
      exact lt
  · intro other m mem
    rcases after other with new | old
    · exact known m (new ▸ mem)
    · exact h.known other m (old ▸ mem)
  · intro other
    rcases after other with new | old
    · rw [new]
      exact unshared
    · rw [old]
      exact h.inner other
  · rcases function with ⟨rfl, other⟩ | ⟨rfl, lt, frame⟩
    · have frame := h.frame
      cases hf : st.function with
      | none =>
        rw [scope, hf] at frame
        exact frame
      | some g =>
        rw [scope, hf] at frame
        rw [Option.elim_some, Symbols.get_update_ne (fun same => other (by rw [hf, same]))]
        exact frame
    · rw [Option.elim_some, Symbols.get_update lt, if_pos rfl]
      change st.Unshared ((f (st.get id)).members ++ _ ++ _)
      rw [members]
      exact frame

lemma Orderly.takeMembers : st.takeMembers.2.Orderly := { h with
    pending := List.nodup_nil
    listed := fun id mem => h.listed id (by
      simp only [SymbolTable.listed, SymbolTable.takeMembers, List.mem_append, List.not_mem_nil] at mem ⊢
      tauto) }

lemma Orderly.withMembers {ms : List SymId} (known : ∀ m ∈ ms, m < st.symbols.size)
    (unshared : st.Unshared ms) : ({ st with members := ms } : SymbolTable).Orderly :=
  { h with
    pending := unshared
    listed := fun id mem => by
      have old : id ∈ st.listed ∨ id ∈ ms := by
        simp only [SymbolTable.listed, List.mem_append] at mem ⊢
        tauto
      exact old.elim (h.listed id) (known id) }

lemma Orderly.takeParams : st.takeParams.2.Orderly := { h with
    frame := by
      have := h.frame.sublist (List.sublist_append_left _ _)
      exact (List.append_nil st.scope).symm ▸ this
    listed := fun id mem => h.listed id (by
      simp only [SymbolTable.listed, SymbolTable.takeParams, List.mem_append, List.not_mem_nil] at mem ⊢
      tauto) }

lemma Orderly.clearLocals : st.clearLocals.Orderly := { h with
    frame := List.nodup_nil
    listed := fun id mem => h.listed id (by
      simp only [SymbolTable.listed, SymbolTable.clearLocals, Option.toList_none, List.mem_append,
        List.not_mem_nil] at mem ⊢
      tauto) }

lemma Orderly.purgeStatics : st.purgeStatics.Orderly := { h with
    globals := h.globals.sublist List.filter_sublist
    listed := fun id mem => h.listed id (by
      have kept : id ∈ st.purgeStatics.globals → id ∈ st.globals := fun mem => (List.mem_filter.mp mem).1
      simp only [SymbolTable.listed, List.mem_append] at mem ⊢
      change _ ∨ _ at mem
      tauto) }

end

end SymbolTable
end SmallC
