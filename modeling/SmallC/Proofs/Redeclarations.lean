import SmallC.Proofs.Labels
import SmallC.Proofs.Names.Sessions
import SmallC.Proofs.Survey

/-!
# Declarations of one name

The declarations of a name are not compared with each other but with the symbol that the first of them has
made. A variable or an array must have the type of the symbol, and its definition where it is built on a
struct or union; that it is a variable, an array or a function is not looked at. A function must be one,
and its parameters must be the first of those that the symbol has, and as many as it counts; what it
returns is not looked at.
-/

namespace SmallC

open ParseState SymbolTable

namespace Announced

structure Makes (d : Announced) (y : Symbol) : Prop where
  name : y.name = d.name
  kind : y.kind = d.kind
  type : y.type = d.type
  ctype : y.ctype = d.ctype

/-- What is checked of a declaration against the symbol that its name stands for. -/
structure Fits (d : Announced) (y : Symbol) : Prop where
  name : y.name = d.name
  function : d.kind = .function → y.kind = .function
  data : d.kind ≠ .function → y.type = d.type ∧
    (d.type.base = .struct ∨ d.type.base = .union → y.ctype = d.ctype)
  pointer : d.kind ≠ .function → d.kind = .variable ∨ d.type.isPointer = true

variable {d : Announced} {a b : Symbol}

lemma Makes.carry (h : d.Makes a) (k : a.Matches b) : d.Makes b :=
  ⟨k.name.trans h.name, k.kind.trans h.kind, k.type.trans h.type, k.ctype.trans h.ctype⟩

lemma Fits.carry (h : d.Fits a) (k : a.Matches b) : d.Fits b where
  name := k.name.trans h.name
  function function := k.kind.trans (h.function function)
  data plain := ⟨k.type.trans (h.data plain).1, fun base => k.ctype.trans ((h.data plain).2 base)⟩
  pointer := h.pointer

end Announced

namespace SymbolTable

variable {v w w' : Prop} {names : List Announced} {d e : Announced} {a b c st : SymbolTable} {id : SymId}
  {types : List CType} {except : Option SymId}

/-- What a declaration does to the tables that has no words of storage class inside of it. Where `v` holds,
nothing is known of the number of parameters. -/
inductive Takes (v : Prop) (d : Announced) (a b : SymbolTable) (id : SymId) : Prop
  | new {types : List CType} (fresh : a.findGlobal d.name = none) (gains : Gains (some id) [id] types a b)
      (made : d.Makes (b.get id))
      (signed : d.kind = .function → b.memberTypes id = d.parameters ∧
        (v ∨ (b.get id).count = Int64.ofNat d.parameters.length))
  | again {types : List CType} (found : a.findGlobal d.name = some id)
      (gains : Gains (some id) [] types a b)
      (kept : (a.get id).kind = .function → b.memberTypes id <+: a.memberTypes id ∧
        (d.kind = .array ∨ (b.get id).count = (a.get id).count))
      (filled : (a.get id).kind = .function → b.memberTypes id = a.memberTypes id ∨ v ∨
        Int64.ofNat (b.memberTypes id).length = (a.get id).count)
      (signed : d.kind = .function → d.parameters <+: a.memberTypes id ∧
        (v ∨ Int64.ofNat d.parameters.length = (a.get id).count))

/-- A symbol of file scope and what was said of its name: the first declaration has made it, and the
parameters of all begin one list. -/
structure Told (v : Prop) (names : List Announced) (st : SymbolTable) (id : SymId) : Prop where
  first : ∃ d, names.find? (fun d => d.name = (st.get id).name) = some d ∧ d.Makes (st.get id)
  signed : (st.get id).kind = .function → ∃ whole, st.memberTypes id <+: whole ∧
    ∀ d ∈ names, d.name = (st.get id).name → d.kind = .function → d.parameters <+: whole ∧
      (v ∨ (∃ e ∈ names, e.name = d.name ∧ e.kind = .array) ∨
        Int64.ofNat d.parameters.length = (st.get id).count)
  filled : (st.get id).kind = .function → v ∨ (∃ e ∈ names, e.name = (st.get id).name ∧ e.kind = .array) ∨
    Int64.ofNat (st.memberTypes id).length = (st.get id).count

/-- The tables agree with all that was declared. Where `w` holds, words of storage class stand inside of
declarations. -/
structure Agrees (v w : Prop) (names : List Announced) (st : SymbolTable) : Prop where
  fits : ∀ d ∈ names, ∃ id ∈ st.globals, d.Fits (st.get id)
  told : ¬ w → ∀ id ∈ st.globals, Told v names st id

/-- The tables between the declarations of a file. -/
structure Outside (st : SymbolTable) : Prop where
  orderly : st.Orderly
  function : st.function = none
  scope : st.scope = []
  params : st.params = []

namespace Outside

lemma empty : ({} : SymbolTable).Outside := ⟨.empty, rfl, rfl, rfl⟩

lemma listed (h : st.Outside) (mem : id ∈ st.globals) : id < st.symbols.size :=
  h.orderly.listed id (by simp [SymbolTable.listed, mem])

lemma lookup (h : st.Outside) (name : Text) : st.lookup name = st.findGlobal name := by
  rw [SymbolTable.lookup, findLocal_eq, h.scope]
  rfl

lemma eq_of_name (h : st.Outside) {i j : SymId} (hi : i ∈ st.globals) (hj : j ∈ st.globals)
    (same : (st.get i).name = (st.get j).name) : i = j :=
  List.inj_on_of_nodup_map h.orderly.globals hi hj same

end Outside

/-! ## One declaration -/

lemma Told.gain {more : List SymId} (h : Told v names a id) (lt : id < a.symbols.size)
    (known : ∀ m ∈ (a.get id).members, m < a.symbols.size) (gains : Gains except more types a b)
    (other : some id ≠ except) : Told v names b id := by
  have same := gains.fits id lt
  refine ⟨?_, fun function => ?_, fun function => ?_⟩
  · obtain ⟨d, found, made⟩ := h.first
    exact ⟨d, by rwa [same.name], made.carry same⟩
  · rw [same.kind] at function
    obtain ⟨members, count⟩ := gains.signature id lt other function
    obtain ⟨whole, begins, all⟩ := h.signed function
    refine ⟨whole, by rwa [gains.memberTypes_eq members known], fun d mem name kind => ?_⟩
    rw [same.name] at name
    rw [count]
    exact all d mem name kind
  · rw [same.kind] at function
    obtain ⟨members, count⟩ := gains.signature id lt other function
    rw [gains.memberTypes_eq members known, same.name, count]
    exact h.filled function

lemma Told.other (h : Told v names st id) (ne : d.name ≠ (st.get id).name) :
    Told v (names ++ [d]) st id := by
  refine ⟨?_, fun function => ?_, fun function => (h.filled function).imp_right (.imp_left ?_)⟩
  · obtain ⟨e, found, made⟩ := h.first
    exact ⟨e, by rw [List.find?_append, found]; rfl, made⟩
  · obtain ⟨whole, begins, all⟩ := h.signed function
    refine ⟨whole, begins, fun e mem name kind => ?_⟩
    rcases List.mem_append.mp mem with mem | mem
    · obtain ⟨fits, number⟩ := all e mem name kind
      refine ⟨fits, number.imp_right (.imp_left ?_)⟩
      rintro ⟨e', mem', array⟩
      exact ⟨e', List.mem_append_left _ mem', array⟩
    · rw [List.mem_singleton.mp mem] at name
      exact absurd name ne
  · exact fun ⟨e, mem, array⟩ => ⟨e, List.mem_append_left _ mem, array⟩

lemma Told.new (none : ∀ e ∈ names, e.name ≠ d.name) (made : d.Makes (st.get id))
    (signed : d.kind = .function → st.memberTypes id = d.parameters ∧
      (v ∨ (st.get id).count = Int64.ofNat d.parameters.length)) : Told v (names ++ [d]) st id := by
  refine ⟨⟨d, ?_, made⟩, fun function => ?_, fun function => ?_⟩
  · rw [List.find?_append, List.find?_eq_none.mpr fun e mem => ?_]
    · simp [made.name]
    · simpa [made.name] using none e mem
  · obtain ⟨own, number⟩ := signed (made.kind.symm.trans function)
    refine ⟨d.parameters, own ▸ List.prefix_rfl, fun e mem name _ => ?_⟩
    rcases List.mem_append.mp mem with mem | mem
    · exact absurd (name.trans made.name) (none e mem)
    · rw [List.mem_singleton.mp mem]
      exact ⟨List.prefix_rfl, number.imp_right fun count => .inr count.symm⟩
  · obtain ⟨own, number⟩ := signed (made.kind.symm.trans function)
    exact number.imp_right fun count => .inr (own ▸ count.symm)

lemma Told.again (h : Told v names a id) (same : (a.get id).Matches (b.get id))
    (name : (a.get id).name = d.name)
    (kept : (a.get id).kind = .function → b.memberTypes id <+: a.memberTypes id ∧
      (d.kind = .array ∨ (b.get id).count = (a.get id).count))
    (filled : (a.get id).kind = .function → b.memberTypes id = a.memberTypes id ∨ v ∨
      Int64.ofNat (b.memberTypes id).length = (a.get id).count)
    (signed : d.kind = .function → d.parameters <+: a.memberTypes id ∧
      (v ∨ Int64.ofNat d.parameters.length = (a.get id).count)) : Told v (names ++ [d]) b id := by
  refine ⟨?_, fun function => ?_, fun function => ?_⟩
  · obtain ⟨e, found, made⟩ := h.first
    exact ⟨e, by rw [same.name, List.find?_append, found]; rfl, made.carry same⟩
  · rw [same.kind] at function
    obtain ⟨whole, begins, all⟩ := h.signed function
    obtain ⟨shorter, count⟩ := kept function
    refine ⟨whole, shorter.trans begins, fun e mem name' kind => ?_⟩
    rw [same.name] at name'
    have counted (h : Int64.ofNat e.parameters.length = (a.get id).count) :
        (∃ e' ∈ names ++ [d], e'.name = e.name ∧ e'.kind = .array) ∨
          Int64.ofNat e.parameters.length = (b.get id).count := by
      rcases count with array | count
      · exact .inl ⟨d, List.mem_append_right _ (.head _), name.symm.trans name'.symm, array⟩
      · exact .inr (h.trans count.symm)
    rcases List.mem_append.mp mem with mem | mem
    · obtain ⟨fits, number⟩ := all e mem name' kind
      refine ⟨fits, number.imp_right ?_⟩
      rintro (⟨e', mem', array⟩ | number)
      · exact .inl ⟨e', List.mem_append_left _ mem', array⟩
      · exact counted number
    · cases List.mem_singleton.mp mem
      obtain ⟨fits, number⟩ := signed kind
      exact ⟨fits.trans begins, number.imp_right counted⟩
  · rw [same.kind] at function
    rcases (kept function).2 with array | count
    · exact .inr (.inl ⟨d, List.mem_append_right _ (.head _), name.symm.trans same.name.symm, array⟩)
    rw [count, same.name]
    rcases filled function with own | number
    · refine (own ▸ h.filled function).imp_right (.imp_left ?_)
      exact fun ⟨e, mem, array⟩ => ⟨e, List.mem_append_left _ mem, array⟩
    · exact number.imp_right .inr

/-! ## All declarations -/

lemma Agrees.mono (h : Agrees v w names st) (hw : w → w') : Agrees v w' names st :=
  ⟨h.fits, fun quiet => h.told fun now => quiet (hw now)⟩

lemma Agrees.empty : Agrees v w [] {} := ⟨by simp, fun _ id mem => by cases mem⟩

lemma Agrees.pass (h : Agrees v w names a) (ha : a.Outside) (carries : Carries a b)
    (gains : ¬ w' → Gains none [] [] a b) : Agrees v (w ∨ w') names b := by
  refine ⟨fun d mem => ?_, fun quiet id mem => ?_⟩
  · obtain ⟨id, mem, fits⟩ := h.fits d mem
    exact ⟨id, carries.globals.subset mem, fits.carry (carries.fits id (ha.listed mem))⟩
  · obtain ⟨quiet, quiet'⟩ := not_or.mp quiet
    have gains := gains quiet'
    rw [gains.globals_eq, List.append_nil] at mem
    exact (h.told quiet id mem).gain (ha.listed mem) (ha.orderly.known id) gains (by simp)

lemma Agrees.step (h : Agrees v w names a) (ha : a.Outside) (carries : Carries a b)
    (mem : id ∈ b.globals) (fits : d.Fits (b.get id)) (takes : ¬ w' → Takes v d a b id) :
    Agrees v (w ∨ w') (names ++ [d]) b := by
  refine ⟨fun e mem' => ?_, fun quiet i mem' => ?_⟩
  · rcases List.mem_append.mp mem' with mem' | mem'
    · obtain ⟨i, mem', fits⟩ := h.fits e mem'
      exact ⟨i, carries.globals.subset mem', fits.carry (carries.fits i (ha.listed mem'))⟩
    · rw [List.mem_singleton.mp mem']
      exact ⟨id, mem, fits⟩
  · obtain ⟨quiet, quiet'⟩ := not_or.mp quiet
    have untouched {more : List SymId} {types : List CType} (old : i ∈ a.globals)
        (ne : (a.get i).name ≠ d.name) (gains : Gains (some id) more types a b) :
        Told v (names ++ [d]) b i := by
      have lt := ha.listed old
      have name := (gains.fits i lt).name
      refine Told.other ((h.told quiet i old).gain lt (ha.orderly.known i) gains ?_) ?_
      · rintro ⟨⟩
        exact ne (name.symm.trans fits.name)
      · rw [name]
        exact ne.symm
    cases takes quiet' with
    | new fresh gains made signed =>
      rw [gains.globals_eq] at mem'
      rcases List.mem_append.mp mem' with old | new
      · exact untouched old (name_ne_of_findIn fresh old) gains
      · rw [List.mem_singleton.mp new]
        refine .new (fun e mem' => ?_) made signed
        obtain ⟨j, old, fits'⟩ := h.fits e mem'
        exact fits'.name ▸ name_ne_of_findIn fresh old
    | again found gains kept filled signed =>
      obtain ⟨old, name⟩ := mem_of_findIn found
      rw [gains.globals_eq, List.append_nil] at mem'
      by_cases same : i = id
      · rw [same]
        exact (h.told quiet id old).again (carries.fits id (ha.listed old)) name kept filled signed
      · exact untouched mem' (fun name' => same (ha.eq_of_name mem' old (name'.trans name.symm))) gains

lemma Agrees.shared (h : Agrees v w names st) (out : st.Outside) (hd : d ∈ names) (he : e ∈ names)
    (same : d.name = e.name) : ∃ id ∈ st.globals, d.Fits (st.get id) ∧ e.Fits (st.get id) := by
  obtain ⟨i, hi, fits⟩ := h.fits d hd
  obtain ⟨j, hj, fits'⟩ := h.fits e he
  obtain rfl := out.eq_of_name hi hj (fits.name.trans (same.trans fits'.name.symm))
  exact ⟨i, hi, fits, fits'⟩

lemma Agrees.data {e : Announced} (h : Agrees v w names st) (out : st.Outside) (hd : d ∈ names)
    (he : e ∈ names) (same : d.name = e.name) (plain : d.kind ≠ .function) (plain' : e.kind ≠ .function) :
    d.type = e.type ∧ (d.type.base = .struct ∨ d.type.base = .union → d.ctype = e.ctype) ∧
      (d.kind = e.kind ∨ d.type.isPointer = true) := by
  obtain ⟨id, -, fits, fits'⟩ := h.shared out hd he same
  obtain ⟨type, definition⟩ := fits.data plain
  obtain ⟨type', definition'⟩ := fits'.data plain'
  have types : d.type = e.type := type.symm.trans type'
  refine ⟨types, fun base => (definition base).symm.trans (definition' (types ▸ base)), ?_⟩
  rcases fits.pointer plain, fits'.pointer plain' with ⟨one | pointer, other | pointer'⟩
  · exact .inl (one.trans other.symm)
  · exact .inr (types ▸ pointer')
  · exact .inr pointer
  · exact .inr pointer

lemma Agrees.mixed (h : Agrees v w names st) (out : st.Outside) (quiet : ¬ w) (hd : d ∈ names) (he : e ∈ names)
    (same : d.name = e.name) (function : d.kind = .function) (plain : e.kind ≠ .function) :
    ∃ f, names.find? (·.name = d.name) = some f ∧ f.kind = .function ∧ f.type = e.type ∧
      (e.type.base = .struct ∨ e.type.base = .union → f.ctype = e.ctype) := by
  obtain ⟨id, mem, fits, fits'⟩ := h.shared out hd he same
  obtain ⟨f, first, made⟩ := (h.told quiet id mem).first
  obtain ⟨type, definition⟩ := fits'.data plain
  refine ⟨f, by rwa [← fits.name], made.kind.symm.trans (fits.function function),
    made.type.symm.trans type, fun base => made.ctype.symm.trans (definition base)⟩

lemma Agrees.functions (h : Agrees v w names st) (out : st.Outside) (quiet : ¬ w) (hd : d ∈ names)
    (he : e ∈ names) (same : d.name = e.name) (function : d.kind = .function) (function' : e.kind = .function) :
    (d.parameters <+: e.parameters ∨ e.parameters <+: d.parameters) ∧
      (¬ v → (∀ c ∈ names, c.name = d.name → c.kind ≠ .array) → d.parameters.length < 2 ^ 64 →
        e.parameters.length < 2 ^ 64 → d.parameters = e.parameters) := by
  obtain ⟨id, mem, fits, fits'⟩ := h.shared out hd he same
  obtain ⟨whole, -, all⟩ := (h.told quiet id mem).signed (fits.function function)
  obtain ⟨begins, number⟩ := all d hd fits.name.symm function
  obtain ⟨begins', number'⟩ := all e he fits'.name.symm function'
  refine ⟨List.prefix_or_prefix_of_prefix begins begins', fun counted none small small' => ?_⟩
  have none' : ¬ ∃ c ∈ names, c.name = d.name ∧ c.kind = .array :=
    fun ⟨c, mem, name, array⟩ => none c mem name array
  have count := (number.resolve_left counted).resolve_left none'
  have count' := (number'.resolve_left counted).resolve_left (same ▸ none')
  have length : d.parameters.length = e.parameters.length := by
    have same := congrArg (·.toBitVec.toNat) (count.trans count'.symm)
    rwa [Int64.toBitVec_ofNat', Int64.toBitVec_ofNat', BitVec.toNat_ofNat, BitVec.toNat_ofNat,
      Nat.mod_eq_of_lt small, Nat.mod_eq_of_lt small'] at same
  rw [List.prefix_iff_eq_take.mp begins, List.prefix_iff_eq_take.mp begins', length]

end SymbolTable

/-! ## Reading -/

namespace Parse

variable {v w : Prop} {names old : List Announced} {d : Announced} {a b : SymbolTable} {id : SymId}
  {s s' s1 : ParseState} {storage : StorageClass} {g : Grammar}

lemma Enters.fits {count : Int64} (ha : a.Outside)
    (plain : d.kind ≠ .function) (pointer : d.kind = .variable ∨ d.type.isPointer = true)
    (h : a.Enters storage d.name d.type d.ctype d.kind count id b) :
    id ∈ b.globals ∧ id < b.symbols.size ∧ d.Fits (b.get id) := by
  cases h with
  | new =>
    have here : (a.addGlobal d.name d.type d.ctype d.kind storage count).2.get a.symbols.size =
        a.sized d.name d.type d.ctype d.kind storage count := Symbols.get_push_size _ _
    refine ⟨List.mem_append_right _ (.head _), (Array.size_push _).symm ▸ Nat.lt_succ_self _, ?_⟩
    rw [here]
    exact ⟨rfl, fun function => function, fun _ => ⟨rfl, fun _ => rfl⟩, fun _ => pointer⟩
  | again found linkage type definition =>
    obtain ⟨mem, name⟩ := mem_of_findIn found
    have lt := ha.listed mem
    refine ⟨mem, Nat.lt_of_lt_of_le lt (Nat.le_of_eq (Symbols.size_update _ _ _).symm), ?_⟩
    rw [get_update lt]
    exact ⟨name, fun function => absurd function plain,
      fun _ => ⟨type.symm, fun base => (definition base).symm⟩, fun _ => pointer⟩

lemma Introduces.fits (ha : s.table.Outside) (plain : d.kind ≠ .function)
    (pointer : d.kind = .variable ∨ d.type.isPointer = true)
    (h : Introduces storage d.name d.type d.ctype d.kind id s s') :
    id ∈ s'.table.globals ∧ d.Fits (s'.table.get id) := by
  obtain ⟨enters, reads, sized, puts⟩ := h
  rename_i st' s1 out
  obtain ⟨mem, lt, fits⟩ := Enters.fits ha plain pointer enters
  have sizes : s1.table.Carries st' := by
    rcases sized with rfl | ⟨-, count, size, rfl⟩
    · exact .refl _
    · exact .update ⟨rfl, rfl, rfl, rfl⟩
  have later := reads.carries.trans sizes
  exact ⟨later.globals.subset mem, fits.carry (later.fits id lt)⟩

/-- Where the name stands for a function, this keeps its parameters, and their number unless it gets that
of an array. -/
lemma Introduces.takes (ha : s.table.Outside) (fileScope : storage.isFileScope = true)
    (plain : d.kind ≠ .function) (h : Introduces storage d.name d.type d.ctype d.kind id s s')
    (quiet : ¬ s.Worded s') : SymbolTable.Takes v d s.table s'.table id := by
  obtain ⟨enters, reads, sized, puts⟩ := h
  rename_i count st st' s1 out
  have quiet : ¬ s.Worded s1 := quiet
  have reads : Gains (some id) [] [] st s1.table ∧ ((st.get id).kind = .function →
      id < st.symbols.size → (s1.table.get id).members = (st.get id).members ∧
        (s1.table.get id).count = (st.get id).count) := by
    have notes := reads.idle quiet
    exact ⟨.of_notes notes quiet, fun function lt => (notes.idle quiet).signature id lt function⟩
  have sizes : Gains (some id) [] [] s1.table st' ∧ (id < s1.table.symbols.size →
      (st'.get id).members = (s1.table.get id).members ∧
        (d.kind = .array ∨ (st'.get id).count = (s1.table.get id).count)) := by
    rcases sized with rfl | ⟨array, count, size, rfl⟩
    · exact ⟨.refl _, fun _ => ⟨rfl, .inr rfl⟩⟩
    · refine ⟨.update ⟨rfl, rfl, rfl, rfl⟩ Iff.rfl, fun lt => ?_⟩
      rw [get_update lt]
      exact ⟨rfl, .inl array⟩
  have later := reads.1.trans sizes.1
  cases enters with
  | new fresh =>
    have adds : Gains (some s.table.symbols.size) [s.table.symbols.size] [] s.table
        (s.table.addGlobal d.name d.type d.ctype d.kind storage count).2 := by
      refine .push rfl rfl ?_
      rintro rfl
      cases fileScope
    have here : (s.table.addGlobal d.name d.type d.ctype d.kind storage count).2.get s.table.symbols.size =
        s.table.sized d.name d.type d.ctype d.kind storage count := Symbols.get_push_size _ _
    refine .new fresh (adds.trans later) ?_ fun function => absurd function plain
    refine Announced.Makes.carry ?_ (later.fits _ ((Array.size_push _).symm ▸ Nat.lt_succ_self _))
    rw [here]
    exact ⟨rfl, rfl, rfl, rfl⟩
  | again found linkage type definition =>
    have lt := ha.listed (mem_of_findIn found).1
    have here := get_update lt fun s => { s with storage := .global }
    have begins : Gains (some id) [] [] s.table (s.table.update id fun s => { s with storage := .global }) := by
      refine .update ⟨rfl, rfl, rfl, rfl⟩ ?_
      rcases linkage with ⟨storage, -⟩ | ⟨storage, -⟩ <;> simp [storage]
    have gains := begins.trans later
    have kept (function : (s.table.get id).kind = .function) : st'.memberTypes id = s.table.memberTypes id ∧
        (d.kind = .array ∨ (st'.get id).count = (s.table.get id).count) := by
      have lt' := Nat.lt_of_lt_of_le lt begins.size
      obtain ⟨members, count⟩ := reads.2 (by rw [here]; exact function) lt'
      obtain ⟨members', count'⟩ := sizes.2 (Nat.lt_of_lt_of_le lt' reads.1.size)
      rw [here] at members count
      exact ⟨gains.memberTypes_eq (members'.trans members) (ha.orderly.known id), count'.imp_right (·.trans count)⟩
    exact .again found gains (fun function => ⟨(kept function).1 ▸ List.prefix_rfl, (kept function).2⟩)
      (fun function => .inl (kept function).1) fun function => absurd function plain

lemma Introduces.agrees (h : Agrees v w names s.table) (ha : s.table.Outside)
    (fileScope : storage.isFileScope = true) (plain : d.kind ≠ .function)
    (pointer : d.kind = .variable ∨ d.type.isPointer = true)
    (introduces : Introduces storage d.name d.type d.ctype d.kind id s s') :
    Agrees v (w ∨ s.Worded s') (names ++ [d]) s'.table := by
  obtain ⟨mem, fits⟩ := introduces.fits ha plain pointer
  exact h.step ha (introduces.goes plain).carries mem fits (introduces.takes ha fileScope plain)

lemma Signs.takes {types : List CType} {trails : Prop} (function : d.kind = .function)
    (parameters : d.parameters = types) (name : (b.get id).name = d.name)
    (kind : (b.get id).kind = .function) (hv : trails → v)
    (h : Signs trails d.name d.type d.ctype types a b id) : SymbolTable.Takes v d a b id := by
  subst parameters
  cases h with
  | new fresh gains type definition own count =>
    refine .new fresh gains ⟨name, kind.trans function.symm, type, definition⟩ fun _ => ⟨own, ?_⟩
    exact count.imp_left hv
  | again found gains fits own counted count =>
    refine .again found gains (fun _ => ⟨?_, .inr count⟩) (fun _ => own.imp_right fun same => ?_)
      fun _ => ⟨fits, counted.imp_left hv⟩
    · rcases own with same | same
      · exact same ▸ List.prefix_rfl
      · rwa [same]
    · exact same ▸ counted.imp_left hv

lemma outside_of_keeps {α : Type} {x : Parse α} (hx : Keeps .quiet x) (h : s.table.Outside) :
    Ends x s fun _ s' => s'.table.Outside := by
  refine (hx s h.orderly trivial).ends.mono ?_
  rintro - s' ⟨orderly, resumes⟩
  rcases resumes.scope with ⟨function, scope⟩ | ⟨function, scope⟩
  · exact ⟨orderly, function, scope, resumes.params h.params⟩
  · exact ⟨orderly, function.trans h.function, scope.trans h.scope, resumes.params h.params⟩

variable (hg : g.Going) (ho : g.Orderly)
include hg ho

lemma declarator_agrees {t : CType} {ctype : Option SymId} (fileScope : storage.isFileScope = true)
    (h : Agrees v w names s.table) (ha : s.table.Outside) (hv : s.Trails → v) :
    Ends (declarator g t ctype storage) s fun _ s' =>
      Agrees v (w ∨ s.Worded s') (names ++ [announced t ctype s s']) s'.table := by
  refine ends_expectIdentifier fun _ => ?_
  simp only [ends_isAt, ends_ite, decide_eq_true_eq]
  refine ⟨fun here => ⟨fun _ => ?_, fun _ => ends_fail_bind.mpr trivial⟩, fun other => ?_⟩
  · have outside := ha.lookup s.front.lexeme
    refine Ends.bind (Ends.and (function_course hg _ t ctype storage)
      (function_signs hg fileScope outside ha.params ha.orderly.known)) ?_
    rintro id s' ⟨⟨s1, found, read⟩, signs⟩
    have kind : (announced t ctype s s').kind = .function := congrArg TokenKind.declares here
    have type : (announced t ctype s s').type = t := if_neg fun h => by cases here.symm.trans h
    obtain ⟨mem, name⟩ := FindsFunction.files (s := s.advanced) outside found
    obtain ⟨lt, function⟩ := found.kind
    have fits := read.carries.fits id lt
    have carries : s.table.Carries s'.table := found.goes.carries.trans read.carries
    refine ends_pure.mpr (h.step ha carries (read.carries.globals.subset mem) ?_ fun quiet => ?_)
    · exact ⟨fits.name.trans name, fun _ => fits.kind.trans function, (absurd kind ·), (absurd kind ·)⟩
    · obtain ⟨types, signs⟩ := signs fun word => quiet (word.right (List.tail_suffix _))
      refine Signs.takes kind ?_ (fits.name.trans name) (fits.kind.trans function)
        (fun trails => hv (trails_of_suffix (List.tail_suffix _) trails)) (type.symm ▸ signs)
      change s'.table.paramTypes.drop s.table.paramTypes.length = types
      rw [signs.paramTypes, advanced_table, List.drop_left]
  · refine Ends.bind (P := fun _ s1 => s1 = s.advanced) ?_ ?_
    · simp only [checkName, ends_table, ends_ite, ends_fail, ends_pure, implies_true, and_self]
    rintro - s1 rfl
    simp only [ends_isAt, ends_ite, decide_eq_true_eq]
    refine ⟨fun here => ?_, fun here => ?_⟩
    · have length : Ends (arrayLength g) s.advanced fun _ s0 =>
          Goes (s.advanced.Worded s0) s.advanced s0 ∧ s0.table.Outside :=
        Ends.and ((going.pair.arrayLength hg.has _).mono fun _ _ h => h.mono (·.resolve_left not_false))
          (outside_of_keeps (keeps.pair.arrayLength (ho.has .quiet)) ha)
      refine (array_course hg fileScope length).bind ?_
      rintro id s' ⟨pointer, s0, made, ⟨read, ha0⟩, introduces⟩
      have kind : (announced t ctype s s').kind = .array := congrArg TokenKind.declares here
      have type : (announced t ctype s s').type = pointer := by
        refine (if_pos here).trans ?_
        rw [made]
        rfl
      have pointed : pointer.isPointer = true := (CType.of_pointerTo made).1
      rw [← type] at pointed
      rw [← kind, ← type] at introduces
      have before := h.pass ha read.carries fun quiet => .of_notes (read.idle quiet) quiet
      have plain : (announced t ctype s s').kind ≠ .function := by rw [kind]; exact Kind.noConfusion
      have rest := (introduces.goes plain).rest
      refine ends_pure.mpr ((Introduces.agrees before ha0 fileScope plain (.inr pointed) introduces).mono ?_)
      rintro ((now | word) | word)
      · exact .inl now
      · exact .inr ((word.left rest).right (List.tail_suffix _))
      · exact .inr (word.right (read.rest.trans (List.tail_suffix _)))
    · refine (scalar_course hg fileScope).mono fun r s' introduces => ?_
      have kind : (announced t ctype s s').kind = .variable := by
        change s.advanced.front.kind.declares = _
        unfold TokenKind.declares
        split
        · exact absurd ‹_› other
        · exact absurd ‹_› here
        · rfl
      have type : (announced t ctype s s').type = t := if_neg here
      rw [← kind, ← type] at introduces
      have plain : (announced t ctype s s').kind ≠ .function := by rw [kind]; exact Kind.noConfusion
      refine (Introduces.agrees (s := s.advanced) h ha fileScope plain (.inl kind) introduces).mono (.imp_right ?_)
      exact fun word => word.right (List.tail_suffix _)

/-- From the state `s` on, where `old` had been declared, reading has come to another one. -/
structure Reaches (v w : Prop) (old : List Announced) (s : ParseState) (names : List Announced)
    (s' : ParseState) : Prop where
  rest : s'.rest <:+ s.rest
  outside : s'.table.Outside
  agrees : Agrees v (w ∨ s.Worded s') (old ++ names) s'.table

omit hg ho in
lemma Reaches.still (h : Reaches v w old s names s1) (still : s1.Still s') : Reaches v w old s names s' where
  rest := still.rest.trans h.rest
  outside := still.table ▸ h.outside
  agrees := still.table ▸ h.agrees.mono (.imp_right (·.left still.rest))

lemma surveyDeclarator_reaches {spec : TypeSpec} (fileScope : storage.isFileScope = true) (hv : s.Trails → v)
    (h : Reaches v w old s names s1) : Ends (surveyDeclarator g spec storage names) s1 fun r s' =>
      r.elim (Reaches v w old s · s') (Reaches v w old s · s') := by
  refine still_stars.bind fun t s2 still => ?_
  have h := h.still still
  rw [ends_get]
  have quiet : storage.mode = .quiet := by
    cases storage <;> first | rfl | cases fileScope
  have keeps : Keeps .quiet (declarator g t spec.ctype storage) :=
    quiet ▸ keeps_declarator ho t spec.ctype (.inl fileScope : storage.IsDeclared)
  refine Ends.bind (Ends.and (declarator_goes hg fileScope) (Ends.and
    (outside_of_keeps keeps h.outside) (declarator_agrees hg ho fileScope h.agrees h.outside
      fun trails => hv (trails_of_suffix h.rest trails)))) ?_
  rintro ⟨id, init⟩ s3 ⟨goes, outside, agrees⟩
  have reached : Reaches v w old s (names ++ [announced t spec.ctype s2 s3]) s3 := by
    refine ⟨goes.rest.trans h.rest, outside, ?_⟩
    rw [← List.append_assoc]
    refine agrees.mono ?_
    rintro ((now | word) | word)
    · exact .inl now
    · exact .inr (word.left goes.rest)
    · exact .inr (word.right h.rest)
  simp only [ends_get, ends_symbol, ends_ite, ends_isAt, ends_pure]
  refine ⟨fun _ => reached, fun _ => ⟨fun _ => reached, fun _ => ends_expect fun _ => ?_⟩⟩
  exact ends_pure.mpr (reached.still (still_advanced s3))

omit hg ho in
lemma worded_taken (h : s.Worded s') : ∃ t ∈ s.taken s', t.kind = .staticKw ∨ t.kind = .externKw := by
  obtain ⟨ts, split, t, mem, word⟩ := h
  refine ⟨t, ?_, word⟩
  rw [taken, split, List.length_append, Nat.add_sub_cancel, List.take_left]
  exact mem

lemma surveyDeclaration_agrees (hv : s.Trails → v) (h : Agrees v w names s.table) (ha : s.table.Outside) :
    Ends (surveyDeclaration g) s fun u s' => s'.rest <:+ s.rest ∧ s'.table.Outside ∧
      Agrees v (w ∨ ∃ t ∈ u.inner, t.kind = .staticKw ∨ t.kind = .externKw) (names ++ u.names) s'.table := by
  refine storageWords_course.bind ?_
  rintro storage s1 ⟨still, word⟩
  have fileScope : storage.isFileScope = true := by
    rcases word with rfl | ⟨-, fileScope⟩
    · rfl
    · exact fileScope
  have ha : s1.table.Outside := still.table ▸ ha
  have h : Agrees v w names s1.table := still.table ▸ h
  rw [ends_get]
  refine Ends.bind (Ends.and (going_plainType hg s1) (outside_of_keeps (keeps_plainType ho) ha)) ?_
  rintro spec s2 ⟨goes, outside⟩
  have reached : Reaches v w names s1 [] s2 := by
    refine ⟨goes.rest, outside, ?_⟩
    rw [List.append_nil]
    refine (h.pass ha goes.carries fun quiet => .of_notes (goes.idle quiet) quiet).mono (.imp_right ?_)
    exact (·.resolve_left not_false)
  refine Ends.bind (P := fun all s3 => Reaches v w names s1 all s3) ?_ fun all s3 reached => ?_
  · simp only [surveyNames, ends_ite, ends_pure]
    refine ⟨fun _ => reached, fun _ => ?_⟩
    refine Ends.iterate (fun all s3 => Reaches v w names s1 all s3) reached fun all s3 reached => ?_
    exact surveyDeclarator_reaches hg ho fileScope
      (fun trails => hv (trails_of_suffix still.rest trails)) reached
  · rw [ends_get, ends_pure]
    exact ⟨reached.rest.trans still.rest, reached.outside, reached.agrees.mono (.imp_right worded_taken)⟩

omit hg ho in
/-- What was declared up to the end of a file agrees with the tables then. -/
theorem survey_agrees (h : Agrees s.Trails False [] s.table) (ha : s.table.Outside) :
    Ends survey s fun u s' => s'.table.Outside ∧ Agrees s.Trails (¬ u.Plain) u.names s'.table := by
  have words (u : Survey) : ¬ u.Plain ↔ ∃ t ∈ u.inner, t.kind = .staticKw ∨ t.kind = .externKw := by
    simp only [Survey.Plain, not_forall, not_and_or, not_not, exists_prop]
  rw [survey, ends_get]
  refine Ends.iterate (fun u s' => s'.rest <:+ s.rest ∧ s'.table.Outside ∧
    Agrees s.Trails (¬ u.Plain) u.names s'.table) ⟨List.suffix_rfl, ha, h.mono False.elim⟩ ?_
  rintro u s1 ⟨rest, ha, agrees⟩
  simp only [surveyNext, ends_isAt, ends_ite, ends_pure]
  refine ⟨fun _ => ⟨ha, agrees⟩, fun _ => ?_⟩
  refine (surveyDeclaration_agrees (grammar_going s.bound) grammar_orderly
    (trails_of_suffix rest) agrees ha).bind ?_
  rintro more s2 ⟨rest', ha, agrees⟩
  have agrees : Agrees s.Trails (¬ Survey.Plain ⟨u.names ++ more.names, u.inner ++ more.inner⟩)
      (u.names ++ more.names) s2.table := by
    refine agrees.mono fun either => ?_
    rw [words] at either ⊢
    obtain ⟨t, mem, word⟩ | ⟨t, mem, word⟩ := either
    · exact ⟨t, List.mem_append_left _ mem, word⟩
    · exact ⟨t, List.mem_append_right _ mem, word⟩
  refine ends_skip ?_ ?_
  · exact ends_pure.mpr ⟨(List.tail_suffix _).trans (rest'.trans rest), ha, agrees⟩
  · exact ends_pure.mpr ⟨rest'.trans rest, ha, agrees⟩

end Parse

/-! ## Sources -/

lemma compile_agrees {file source code : Text}
    (h : (Session.compile { file } source).1.outcome = .ok code) :
    ∃ u st, surveyOf file source = some u ∧ SymbolTable.Outside st ∧
      Agrees ([TokenKind.comma, .voidKw, .rparen] <:+: (lex source file).1.map (·.kind)) (¬ u.Plain) u.names st := by
  obtain ⟨tokens, s, lexed, run, -⟩ := Session.compile_eq_ok.mp h
  obtain ⟨u, surveyed, -⟩ := Parse.shadows_file _ _ _ run
  have same : (lex source file).1 = tokens := congrArg Prod.fst lexed
  obtain ⟨outside, agrees⟩ := Parse.survey_agrees (s := Session.start { file } tokens) .empty .empty u s surveyed
  refine ⟨u, s.table, ?_, outside, ?_⟩
  · rw [surveyOf, same, surveyed]
  · rw [same]
    exact agrees

/-- In a source without diagnostics the declarations of a name say the same up to what is not compared.
Variables and arrays of one name have one type and one definition; one may be a pointer and the other an
array. Where a name stands for a function and for a variable or array, it was a function first, and what the
first declaration returns is the type of the variable or array. The parameters of functions of one name
begin one list; they are the same unless `void` closes a list that has some or the name is also that of an
array. The last two hold where no words of storage class stand inside of declarations. -/
theorem compile_redeclares {file source code : Text}
    (h : (Session.compile { file } source).1.outcome = .ok code) :
    ∃ u, surveyOf file source = some u ∧
      ∀ d ∈ u.names, ∀ e ∈ u.names, d.name = e.name →
        (d.kind ≠ .function → e.kind ≠ .function → d.type = e.type ∧
          (d.type.base = .struct ∨ d.type.base = .union → d.ctype = e.ctype) ∧
          (d.kind = e.kind ∨ d.type.isPointer = true)) ∧
        (u.Plain → d.kind = .function → e.kind ≠ .function →
          ∃ f, u.names.find? (·.name = d.name) = some f ∧ f.kind = .function ∧ f.type = e.type ∧
            (e.type.base = .struct ∨ e.type.base = .union → f.ctype = e.ctype)) ∧
        (u.Plain → d.kind = .function → e.kind = .function →
          (d.parameters <+: e.parameters ∨ e.parameters <+: d.parameters) ∧
          (¬ [TokenKind.comma, .voidKw, .rparen] <:+: (lex source file).1.map (·.kind) →
            (∀ c ∈ u.names, c.name = d.name → c.kind ≠ .array) → d.parameters.length < 2 ^ 64 →
            e.parameters.length < 2 ^ 64 → d.parameters = e.parameters)) := by
  obtain ⟨u, st, surveyed, out, agrees⟩ := compile_agrees h
  refine ⟨u, surveyed, fun d hd e he same => ⟨agrees.data out hd he same, fun plain => ?_, fun plain => ?_⟩⟩
  · exact agrees.mixed out (not_not.mpr plain) hd he same
  · exact agrees.functions out (not_not.mpr plain) hd he same

theorem compile_redeclares_mixed :
    let source : Text :=
      "extern int *a; int a[3]; struct p \x7b int x; \x7d *q; extern struct p *q; int f(int m, char n); extern long g(); long g; int f(int k, char l) \x7b return k; \x7d"
    (∃ code, (Session.compile { file := "t.c" } source).1.outcome = .ok code) ∧
      ∃ u, surveyOf "t.c" source = some u ∧ u.Plain ∧
        u.names.map (·.kind) =
          [.variable, .array, .variable, .variable, .function, .function, .variable, .function] ∧
        ∀ d ∈ u.names, ∀ e ∈ u.names, d.name = e.name → d.kind = .function → e.kind = .function →
          d.parameters = e.parameters := by
  intro source
  obtain ⟨code, ok⟩ := exists_of_isSome (x := (Session.compile { file := "t.c" } source).1.outcome)
    (by decide +kernel)
  obtain ⟨u, surveyed, all⟩ := compile_redeclares ok
  have facts : (surveyOf "t.c" source).map (fun u => (decide u.Plain, u.names.map (·.kind),
      u.names.all fun d => d.parameters.length < 2 ^ 64 ∧
        (d.kind = .function → ∀ c ∈ u.names, c.name = d.name → c.kind ≠ .array))) =
      some (true, [.variable, .array, .variable, .variable, .function, .function, .variable, .function],
        true) := by decide +kernel
  rw [surveyed, Option.map_some, Option.some.injEq, Prod.mk.injEq, Prod.mk.injEq, decide_eq_true_eq] at facts
  obtain ⟨plain, kinds, small⟩ := facts
  have small (d : Announced) (mem : d ∈ u.names) := of_decide_eq_true (List.all_eq_true.mp small d mem)
  refine ⟨⟨code, ok⟩, u, surveyed, plain, kinds, fun d hd e he same function function' => ?_⟩
  exact ((all d hd e he same).2.2 plain function function').2 (by decide +kernel)
    ((small d hd).2 function) (small d hd).1 (small e he).1

/-- What a function returns is not compared. -/
theorem compile_redeclares_apart :
    let source : Text := "int f(); long f() \x7b return 1; \x7d"
    (Session.compile { file := "t.c" } source).1.outcome.toOption.isSome = true ∧
      (surveyOf "t.c" source).map (·.names) =
        some [⟨"f", .function, .int, none, []⟩, ⟨"f", .function, .long, none, []⟩] := by
  decide +kernel

end SmallC
