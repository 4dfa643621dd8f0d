import SmallC.Proofs.Lowering.Inside
import SmallC.Proofs.Parse.Declaration

/-!
# The course of reading

What reading can do between two states, said once. Tokens are taken; symbols are noted that are no
functions and have nothing to do with file scope; labels are given out and strings written. All else is
about names of file scope and happens at the top of a file, or inside of something else after a word of
storage class: a variable is declared, and its data written once its initialiser has been read; a function
is announced; a function is defined, its code being written once its body has been read.
-/

namespace SmallC

open Ir

variable {a b c : Symbol} {w' : Prop}

/-- A later form of a symbol of which a declaration would say the same. -/
structure Symbol.Matches (a b : Symbol) : Prop where
  name : b.name = a.name
  type : b.type = a.type
  ctype : b.ctype = a.ctype
  kind : b.kind = a.kind

/-- A later form of a symbol that is as much defined as it was. -/
structure Symbol.Rests (a b : Symbol) : Prop extends a.Matches b where
  storage : b.storage = a.storage
  defined : b.defined = a.defined

lemma Symbol.Matches.refl (a : Symbol) : a.Matches a := ⟨rfl, rfl, rfl, rfl⟩

lemma Symbol.Matches.trans (h : a.Matches b) (k : b.Matches c) : a.Matches c :=
  ⟨k.name.trans h.name, k.type.trans h.type, k.ctype.trans h.ctype, k.kind.trans h.kind⟩

lemma Symbol.Rests.refl (a : Symbol) : a.Rests a := ⟨.refl a, rfl, rfl⟩

lemma Symbol.Rests.trans (h : a.Rests b) (k : b.Rests c) : a.Rests c :=
  ⟨h.toMatches.trans k.toMatches, k.storage.trans h.storage, k.defined.trans h.defined⟩

namespace SymbolTable

variable {a b c st st' : SymbolTable} {w : Prop} {id : SymId} {s : Symbol}
variable {f : Symbol → Symbol}

/-! ## Tables -/

/-- Parameters have neither been declared nor taken over. -/
structure Idle (a b : SymbolTable) : Prop where
  params : b.params = a.params
  fresh : ∀ id, a.symbols.size ≤ id → (b.get id).storage ≠ .param
  signature : ∀ id < a.symbols.size, (a.get id).kind = .function →
    (b.get id).members = (a.get id).members ∧ (b.get id).count = (a.get id).count

/-- Nothing of file scope has changed. Unless words of storage class were read, parameters were not
touched. -/
structure Notes (w : Prop) (a b : SymbolTable) : Prop where
  globals : b.globals = a.globals
  size : a.symbols.size ≤ b.symbols.size
  rests : ∀ id < a.symbols.size, (a.get id).Rests (b.get id)
  fresh : ∀ id, a.symbols.size ≤ id → (b.get id).kind ≠ .function
  idle : ¬ w → Idle a b

/-- Symbols are there as they were declared, and those of file scope still are of file scope. -/
structure Carries (a b : SymbolTable) : Prop where
  globals : a.globals <+: b.globals
  size : a.symbols.size ≤ b.symbols.size
  fits : ∀ id < a.symbols.size, (a.get id).Matches (b.get id)

lemma Notes.refl (a : SymbolTable) : Notes w a a where
  globals := rfl
  size := Nat.le_refl _
  rests _ _ := .refl _
  fresh id h := by
    rw [get_of_size_le h]
    exact Kind.noConfusion
  idle _ := by
    refine ⟨rfl, fun id h => ?_, fun _ _ _ => ⟨rfl, rfl⟩⟩
    rw [get_of_size_le h]
    exact StorageClass.noConfusion

lemma Notes.trans (h : Notes w a b) (k : Notes w b c) : Notes w a c where
  globals := k.globals.trans h.globals
  size := Nat.le_trans h.size k.size
  rests id lt := (h.rests id lt).trans (k.rests id (Nat.lt_of_lt_of_le lt h.size))
  fresh id le := by
    by_cases lt : id < b.symbols.size
    · rw [(k.rests id lt).kind]
      exact h.fresh id le
    · exact k.fresh id (Nat.le_of_not_lt lt)
  idle quiet := by
    refine ⟨(k.idle quiet).params.trans (h.idle quiet).params, fun id le => ?_, fun id lt function => ?_⟩
    · by_cases lt : id < b.symbols.size
      · rw [(k.rests id lt).storage]
        exact (h.idle quiet).fresh id le
      · exact (k.idle quiet).fresh id (Nat.le_of_not_lt lt)
    · obtain ⟨members, count⟩ := (h.idle quiet).signature id lt function
      obtain ⟨members', count'⟩ := (k.idle quiet).signature id (Nat.lt_of_lt_of_le lt h.size)
        ((h.rests id lt).kind.trans function)
      exact ⟨members'.trans members, count'.trans count⟩

lemma Notes.mono (h : Notes w a b) (hw : w → w') : Notes w' a b :=
  { h with idle := fun quiet => h.idle fun now => quiet (hw now) }

lemma Notes.of_symbols (symbols : st'.symbols = st.symbols) (globals : st'.globals = st.globals)
    (params : ¬ w → st'.params = st.params) : Notes w st st' := by
  have get := get_congr symbols
  have same : Notes w st st := .refl st
  refine ⟨globals, Nat.le_of_eq (congrArg Array.size symbols).symm, fun id lt => ?_, fun id le => ?_,
    fun quiet => ⟨params quiet, fun id le => ?_, fun id lt function => ?_⟩⟩
  · rw [get]
    exact .refl _
  · rw [get]
    exact same.fresh id le
  · rw [get]
    exact (same.idle quiet).fresh id le
  · rw [get]
    exact ⟨rfl, rfl⟩

lemma Notes.push (symbols : st'.symbols = st.symbols.push s) (globals : st'.globals = st.globals)
    (kind : s.kind ≠ .function) (quiet : ¬ w → st'.params = st.params ∧ s.storage ≠ .param) :
    Notes w st st' := by
  refine ⟨globals, by rw [symbols, Array.size_push]; omega, fun id lt => ?_, fun id le => ?_,
    fun now => ⟨(quiet now).1, fun id le => ?_, fun id lt function => ?_⟩⟩
  · rw [get_push symbols lt]
    exact .refl _
  · rcases get_push_of_le symbols le with same | same
    · rwa [same]
    · rw [same]
      exact Kind.noConfusion
  · rcases get_push_of_le symbols le with same | same
    · rw [same]
      exact (quiet now).2
    · rw [same]
      exact StorageClass.noConfusion
  · rw [get_push symbols lt]
    exact ⟨rfl, rfl⟩

lemma Notes.update (rests : (st.get id).Rests (f (st.get id)))
    (quiet : ¬ w → (st.get id).kind = .function →
      (f (st.get id)).members = (st.get id).members ∧ (f (st.get id)).count = (st.get id).count) :
    Notes w st (st.update id f) := by
  have same : Notes w st st := .refl st
  have size : (st.update id f).symbols.size = st.symbols.size := Symbols.size_update _ _ _
  have out {other : SymId} (le : st.symbols.size ≤ other) : (st.update id f).get other = st.get other := by
    rw [get_of_size_le le, get_of_size_le (size ▸ le)]
  refine ⟨rfl, Nat.le_of_eq size.symm, fun other _ => ?_, fun other le => ?_,
    fun now => ⟨rfl, fun other le => ?_, fun other _ => ?_⟩⟩
  · exact forall_get_update (p := fun i s => (st.get i).Rests s) (fun _ => .refl _) (fun _ => rests) other
  · rw [out le]
    exact same.fresh other le
  · rw [out le]
    exact (same.idle now).fresh other le
  · exact forall_get_update (p := fun i s => (st.get i).kind = .function →
      s.members = (st.get i).members ∧ s.count = (st.get i).count)
      (fun _ _ => ⟨rfl, rfl⟩) (fun _ => quiet now) other

lemma Carries.refl (a : SymbolTable) : Carries a a := ⟨List.prefix_rfl, Nat.le_refl _, fun _ _ => .refl _⟩

lemma Carries.trans (h : Carries a b) (k : Carries b c) : Carries a c where
  globals := h.globals.trans k.globals
  size := Nat.le_trans h.size k.size
  fits id lt := (h.fits id lt).trans (k.fits id (Nat.lt_of_lt_of_le lt h.size))

lemma Notes.carries (h : Notes w a b) : Carries a b :=
  ⟨h.globals ▸ List.prefix_rfl, h.size, fun id lt => (h.rests id lt).toMatches⟩

lemma Carries.push (symbols : st'.symbols = st.symbols.push s) (globals : st.globals <+: st'.globals) :
    Carries st st' := by
  refine ⟨globals, by rw [symbols, Array.size_push]; omega, fun id lt => ?_⟩
  rw [get_push symbols lt]
  exact .refl _

lemma Carries.update (fits : (st.get id).Matches (f (st.get id))) : Carries st (st.update id f) where
  globals := List.prefix_rfl
  size := Nat.le_of_eq (Symbols.size_update _ _ _).symm
  fits other _ :=
    forall_get_update (p := fun i s => (st.get i).Matches s) (fun _ => .refl _) (fun _ => fits) other

/-- A variable or array of file scope is declared, for the first time or again. -/
inductive Enters (storage : StorageClass) (name : Text) (t : CType) (ctype : Option SymId) (kind : Kind)
    (count : Int64) (st : SymbolTable) : SymId → SymbolTable → Prop
  | new (h : st.findGlobal name = none) : Enters storage name t ctype kind count st st.symbols.size
        (st.addGlobal name t ctype kind storage count).2
  | again {id : SymId} (h : st.findGlobal name = some id)
      (linkage : (st.get id).storage = .global ∧ storage = .external ∨
        (st.get id).storage = .external ∧ storage = .global)
      (type : t = (st.get id).type)
      (definition : t.base = .struct ∨ t.base = .union → ctype = (st.get id).ctype) :
      Enters storage name t ctype kind count st id
        (st.update id fun s => { s with storage := .global })

lemma Enters.carries {storage : StorageClass} {name : Text} {t : CType} {ctype : Option SymId}
    {kind : Kind} {count : Int64} (h : Enters storage name t ctype kind count st id st') :
    Carries st st' := by
  cases h with
  | new => exact .push rfl (List.prefix_append _ _)
  | again => exact .update ⟨rfl, rfl, rfl, rfl⟩

end SymbolTable

/-- The data of a symbol is written where a declaration defines it. -/
def Emitter.Puts (storage : StorageClass) (s : Symbol) (e e' : Emitter) : Prop :=
  if (storage = .global ∨ storage = .static) ∧ s.kind ≠ .function ∧ s.storage ≠ .external then
    ∃ align items, e' = e.add [.data (s.storage = .global) s.name align items]
  else e' = e

namespace ParseState

/-- Nothing but tokens and the counts of loops and switches differs. -/
structure Still (s s' : ParseState) : Prop where
  rest : s'.rest <:+ s.rest
  table : s'.table = s.table
  out : s'.out = s.out

/-- A word of storage class was taken. -/
def Worded (s s' : ParseState) : Prop :=
  ∃ ts, s.rest = ts ++ s'.rest ∧ ∃ t ∈ ts, t.kind = .staticKw ∨ t.kind = .externKw

/-- What can happen between two states. Only `w` allows for declarations of file scope. -/
inductive Goes (w : Prop) : ParseState → ParseState → Prop
  | still {s s' : ParseState} (h : s.Still s') : Goes w s s'
  | trans {s s1 s' : ParseState} (h : Goes w s s1) (k : Goes w s1 s') : Goes w s s'
  | notes {s : ParseState} {st : SymbolTable} (h : s.table.Notes w st) : Goes w s { s with table := st }
  | label {s : ParseState} : Goes w s { s with out := s.out.count 0 1 }
  | string {s s1 : ParseState} (bytes : Text) (h : s.Still s1) :
      Goes w s { s1 with out := (s1.out.count 0 1).add [.string (s1.out.labels + 1) bytes] }
  | declares {s s1 : ParseState} {storage : StorageClass} {name : Text} {t : CType}
      {ctype : Option SymId} {kind : Kind} {count : Int64} {id : SymId} {st : SymbolTable} {out : Emitter}
      (hw : w) (plain : kind ≠ .function)
      (enters : s.table.Enters storage name t ctype kind count id st)
      (reads : Goes w { s with table := st } s1)
      (puts : s1.out.Puts storage (s1.table.get id) out) : Goes w s { s1 with out }
  | announces {s : ParseState} {name : Text} (t : CType) (ctype : Option SymId) (storage : StorageClass)
      (hw : w) (new : s.table.findGlobal name = none) :
      Goes w s { s with
          table := Parse.declared s.table name t ctype storage (s.out.labels + 1)
          out := s.out.count 0 1 }
  | defines {s s1 : ParseState} {id : SymId} {params : List SymId} {info : Info} {body : Tree}
      {out : Emitter} (hw : w) (function : (s.table.get id).kind = .function)
      (undefined : (s.table.get id).defined = false) (reads : Goes w (s.entered id params) s1)
      (written : s1.out.function s1.table.symbols id s1.table.locals body.fold =
        (.ok (), (s1.definition info id body).settled, out)) :
      Goes w s (s1.left (s1.definition info id body) out)

variable {s s1 s' : ParseState} {w : Prop}

lemma Still.refl (s : ParseState) : s.Still s := ⟨List.suffix_rfl, rfl, rfl⟩

lemma still_advanced (s : ParseState) : s.Still s.advanced := ⟨List.tail_suffix _, rfl, rfl⟩

lemma Still.trans (h : s.Still s1) (k : s1.Still s') : s.Still s' :=
  ⟨k.rest.trans h.rest, k.table.trans h.table, k.out.trans h.out⟩

lemma Worded.left (h : s.Worded s1) (rest : s'.rest <:+ s1.rest) : s.Worded s' := by
  obtain ⟨ts, split, t, mem, word⟩ := h
  obtain ⟨us, split'⟩ := rest
  exact ⟨ts ++ us, by rw [split, ← split', List.append_assoc], t, List.mem_append_left us mem, word⟩

lemma Worded.right (h : s1.Worded s') (rest : s1.rest <:+ s.rest) : s.Worded s' := by
  obtain ⟨ts, split, t, mem, word⟩ := h
  obtain ⟨us, split'⟩ := rest
  exact ⟨us ++ ts, by rw [← split', split, List.append_assoc], t, List.mem_append_right us mem, word⟩

namespace Goes

lemma refl (s : ParseState) : Goes w s s := .still (.refl s)

lemma mono (h : Goes w s s') (hw : w → w') : Goes w' s s' := by
  induction h with
  | still h => exact .still h
  | trans _ _ ih ih' => exact ih.trans ih'
  | notes h => exact .notes (h.mono hw)
  | label => exact .label
  | string bytes h => exact .string bytes h
  | declares now plain enters _ puts ih => exact .declares (hw now) plain enters ih puts
  | announces t ctype storage now new => exact .announces t ctype storage (hw now) new
  | defines now function undefined _ written ih =>
    exact .defines (hw now) function undefined ih written

lemma rest (h : Goes w s s') : s'.rest <:+ s.rest := by
  induction h with
  | still h => exact h.rest
  | trans _ _ ih ih' => exact ih'.trans ih
  | notes | label | announces => exact List.suffix_rfl
  | string _ h => exact h.rest
  | declares _ _ _ _ _ ih => exact ih
  | defines _ _ _ _ _ ih => exact ih

lemma seq {c : Prop} (h : Goes (c ∨ s.Worded s1) s s1) (k : Goes (c ∨ s1.Worded s') s1 s') :
    Goes (c ∨ s.Worded s') s s' :=
  .trans (h.mono (.imp_right fun word => word.left k.rest))
    (k.mono (.imp_right fun word => word.right h.rest))

lemma idle (h : Goes w s s') (quiet : ¬ w) : s.table.Notes w s'.table := by
  induction h with
  | still h => exact h.table ▸ .refl _
  | trans _ _ ih ih' => exact ih.trans ih'
  | notes h => exact h
  | label => exact .refl _
  | string _ h => exact h.table ▸ .refl _
  | declares now => exact absurd now quiet
  | announces _ _ _ now => exact absurd now quiet
  | defines now => exact absurd now quiet

end Goes

lemma carries_entered (s : ParseState) (id : SymId) (params : List SymId) :
    s.table.Carries (s.entered id params).table where
  globals := List.prefix_rfl
  size := (SymbolTable.Carries.update (f := Symbol.begun params) ⟨rfl, rfl, rfl, rfl⟩).size
  fits := (SymbolTable.Carries.update ⟨rfl, rfl, rfl, rfl⟩).fits

section
variable (s : ParseState) {d : Definition} (out : Emitter) (symbols : d.symbols = s.table.symbols)
  (id : SymId)
include symbols

lemma get_left : (s.left d out).table.get id =
      (s.table.get id).addressed ((s.table.get id).hasAddr || id ∈ d.locals && (s.table.get id).type = .char) := by
  change (Lower.localSlots d.symbols d.locals).2.get id = _
  rw [Lower.localSlots_get, symbols]
  rfl

lemma notes_left : s.table.Notes True (s.left d out).table := by
  have same : s.table.Notes True s.table := .refl _
  refine ⟨rfl, ?_, fun id _ => ?_, fun id le => ?_, fun quiet => absurd trivial quiet⟩
  · change _ ≤ (Lower.localSlots d.symbols d.locals).2.size
    rw [Lower.localSlots_size, symbols]
  · rw [get_left s out symbols]
    exact ⟨⟨rfl, rfl, rfl, rfl⟩, rfl, rfl⟩
  · rw [get_left s out symbols]
    exact same.fresh id le

end

namespace Goes

lemma carries (h : Goes w s s') : s.table.Carries s'.table := by
  induction h with
  | still h => exact h.table ▸ .refl _
  | trans _ _ ih ih' => exact ih.trans ih'
  | notes h => exact h.carries
  | label => exact .refl _
  | string _ h => exact h.table ▸ .refl _
  | declares _ _ enters _ _ ih => exact enters.carries.trans ih
  | announces =>
    exact .push (Parse.declared_symbols _ _ _ _ _ _) (List.prefix_append _ _)
  | defines _ _ _ _ _ ih => exact (carries_entered _ _ _).trans (ih.trans (notes_left _ _ rfl).carries)

end Goes
end ParseState
end SmallC
