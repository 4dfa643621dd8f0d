import SmallC.Proofs.Course.Declarations
import SmallC.Proofs.Labels
import SmallC.Proofs.LineMarker

/-!
# Names that code defines

A file defines its variables and functions under the names that the source gives them and its strings
under names of their own. A variable is defined by the declaration after which it counts as defined, and
so is a function, and what counts as defined is not defined again. Strings take their names from labels,
which are given out once. What is not kept apart are the two: a source may use the name of a string.
-/

namespace SmallC

open Ir ParseState SymbolTable

variable {id : SymId} {out : Emitter} (a b : List Line)

/-! ## Names in lines -/

namespace Text

lemma ofNat_injective {m n : Nat} (h : ofNat m = ofNat n) : m = n := by
  obtain ⟨ds, digits, -, -, value⟩ := ofNat_chars m
  obtain ⟨es, digits', -, -, value'⟩ := ofNat_chars n
  have same : ds = es := by
    rw [← chars_ofChars ds, ← chars_ofChars es, ← digits, ← digits', h]
  rw [same, value'] at value
  exact (Option.some.inj value).symm

end Text

namespace Ir

def stringName (l : Int) : Text := Text.ofString "L" ++ Text.ofInt l

def Line.declared? : Line → Option Text
  | .data _ name _ _ => some name
  | .opening _ _ name _ => some name
  | _ => none

def Line.string? : Line → Option Int
  | .string l _ => some l
  | _ => none

/-- The name that a line defines: it follows the `$` of `data $x =` or `function w $x(`. -/
def Line.defined? : Line → Option Text
  | .string l _ => some (stringName l)
  | line => line.declared?

def declaredNames (lines : List Line) : List Text := lines.filterMap Line.declared?

def stringLabels (lines : List Line) : List Int := lines.filterMap Line.string?

def definedNames (lines : List Line) : List Text := lines.filterMap Line.defined?

lemma declaredNames_append : declaredNames (a ++ b) = declaredNames a ++ declaredNames b :=
  List.filterMap_append

lemma stringLabels_append : stringLabels (a ++ b) = stringLabels a ++ stringLabels b :=
  List.filterMap_append

lemma definedNames_perm (lines : List Line) :
    (definedNames lines).Perm (declaredNames lines ++ (stringLabels lines).map stringName) := by
  induction lines with
  | nil => exact .refl _
  | cons line lines ih =>
    cases line with
    | data _ name | opening _ _ name => exact ih.cons name
    | string l bytes => exact (ih.cons (stringName l)).trans List.perm_middle.symm
    | label | instr | ret | closing => exact ih

lemma declaredNames_inner {code : List Line} (inner : ∀ line ∈ code, line.IsInner) :
    declaredNames code = [] ∧ stringLabels code = [] := by
  constructor
  · refine List.filterMap_eq_nil_iff.mpr fun line mem => ?_
    have := inner line mem
    cases line with
    | label | instr => rfl
    | _ => exact this.elim
  · refine List.filterMap_eq_nil_iff.mpr fun line mem => ?_
    have := inner line mem
    cases line with
    | label | instr => rfl
    | _ => exact this.elim

end Ir

/-! ## What counts as defined -/

/-- A function has a body; a variable or array belongs to this file. -/
def Symbol.IsDefined (y : Symbol) : Prop :=
  if y.kind = .function then y.defined = true else y.storage = .global ∨ y.storage = .static

variable {y : Symbol}

lemma Symbol.isDefined_function (function : y.kind = .function) : y.IsDefined ↔ y.defined = true := by
  rw [Symbol.IsDefined, if_pos function]

lemma Symbol.isDefined_variable (plain : y.kind ≠ .function) :
    y.IsDefined ↔ y.storage = .global ∨ y.storage = .static := by
  rw [Symbol.IsDefined, if_neg plain]

lemma Symbol.Rests.isDefined {a b : Symbol} (h : a.Rests b) (defined : a.IsDefined) : b.IsDefined := by
  unfold Symbol.IsDefined at *
  rwa [h.kind, h.defined, h.storage]

namespace SymbolTable

variable {st st' : SymbolTable} {name : Text} {id : SymId}

/-- File scope is in order: names stand once, and functions are of file scope. -/
structure Filed (st : SymbolTable) : Prop where
  known : ∀ id ∈ st.globals, id < st.symbols.size
  unshared : st.Unshared st.globals
  functions : ∀ id, (st.get id).kind = .function → id ∈ st.globals

/-- What the name stands for at file scope counts as defined. -/
def Settled (st : SymbolTable) (name : Text) : Prop :=
  ∃ id ∈ st.globals, (st.get id).name = name ∧ (st.get id).IsDefined

lemma Filed.empty : ({} : SymbolTable).Filed where
  known id mem := by cases mem
  unshared := List.nodup_nil
  functions id function := by
    rw [get_of_size_le (Nat.zero_le id)] at function
    cases function

lemma Filed.eq_of_name (h : st.Filed) {a b : SymId} (ha : a ∈ st.globals) (hb : b ∈ st.globals)
    (same : (st.get a).name = (st.get b).name) : a = b :=
  List.inj_on_of_nodup_map h.unshared ha hb same

lemma Filed.carry (h : st.Filed) (carries : Carries st st') (globals : st'.globals = st.globals)
    (fresh : ∀ id, st.symbols.size ≤ id → (st'.get id).kind ≠ .function) : st'.Filed where
  known id mem := Nat.lt_of_lt_of_le (h.known id (globals ▸ mem)) carries.size
  unshared := by
    rw [globals]
    exact h.unshared.congr fun id mem => (carries.fits id (h.known id mem)).name
  functions id function := by
    rw [globals]
    by_cases lt : id < st.symbols.size
    · exact h.functions id ((carries.fits id lt).kind.symm.trans function)
    · exact absurd function (fresh id (Nat.le_of_not_lt lt))

lemma Filed.push (h : st.Filed) (symbols : st'.symbols = st.symbols.push y)
    (globals : st'.globals = st.globals ++ [st.symbols.size]) (new : st.findGlobal y.name = none) :
    st'.Filed := by
  have old {id : SymId} (lt : id < st.symbols.size) : st'.get id = st.get id := get_push symbols lt
  have here := get_push_size symbols
  refine ⟨fun id mem => ?_, ?_, fun id function => ?_⟩
  · rw [symbols, Array.size_push]
    rw [globals, List.mem_append, List.mem_singleton] at mem
    rcases mem with mem | rfl
    · exact Nat.lt_succ_of_lt (h.known id mem)
    · exact Nat.lt_succ_self _
  · rw [globals]
    refine Unshared.concat (h.unshared.congr fun id mem => by rw [old (h.known id mem)]) fun id mem => ?_
    rw [old (h.known id mem), here]
    exact name_ne_of_findIn new mem
  · rw [globals, List.mem_append, List.mem_singleton]
    rcases Nat.lt_trichotomy id st.symbols.size with lt | rfl | gt
    · exact .inl (h.functions id (by rwa [← old lt]))
    · exact .inr rfl
    · rw [get_of_size_le (by rw [symbols, Array.size_push]; omega)] at function
      cases function

lemma Settled.carry (settled : st.Settled name) (h : st.Filed) (carries : Carries st st')
    (keeps : ∀ id ∈ st.globals, (st.get id).IsDefined → (st'.get id).IsDefined) : st'.Settled name := by
  obtain ⟨id, mem, named, defined⟩ := settled
  refine ⟨id, carries.globals.subset mem, ?_, keeps id mem defined⟩
  exact (carries.fits id (h.known id mem)).name.trans named

lemma not_settled_of_findGlobal (new : st.findGlobal name = none) : ¬ st.Settled name := by
  rintro ⟨id, mem, named, -⟩
  exact name_ne_of_findIn new mem named

lemma Filed.settled_iff (h : st.Filed) (mem : id ∈ st.globals) :
    st.Settled (st.get id).name ↔ (st.get id).IsDefined := by
  constructor
  · rintro ⟨other, mem', named, defined⟩
    rwa [h.eq_of_name mem mem' named.symm]
  · exact fun defined => ⟨id, mem, rfl, defined⟩

end SymbolTable

namespace ParseState

variable {s s1 s' : ParseState} {w : Prop}

/-- The names defined on the way are new, and count as defined from then on. -/
structure Accounts (s s' : ParseState) : Prop where
  filed : s'.table.Filed
  settled : ∀ name, s.table.Settled name → s'.table.Settled name
  names : ∃ new, declaredNames s'.out.lines.toList = declaredNames s.out.lines.toList ++ new ∧ new.Nodup ∧
    ∀ name ∈ new, ¬ s.table.Settled name ∧ s'.table.Settled name

namespace Accounts

lemma trans (h : s.Accounts s1) (k : s1.Accounts s') : s.Accounts s' := by
  obtain ⟨new, first, nodup, fresh⟩ := h.names
  obtain ⟨more, second, nodup', fresh'⟩ := k.names
  refine ⟨k.filed, fun name settled => k.settled name (h.settled name settled), new ++ more,
    by rw [second, first, List.append_assoc], ?_, ?_⟩
  · refine List.nodup_append.mpr ⟨nodup, nodup', ?_⟩
    rintro a ha b hb rfl
    exact (fresh' a hb).1 (fresh a ha).2
  · intro name mem
    rcases List.mem_append.mp mem with mem | mem
    · exact ⟨(fresh name mem).1, k.settled name (fresh name mem).2⟩
    · exact ⟨fun settled => (fresh' name mem).1 (h.settled name settled), (fresh' name mem).2⟩

lemma quiet (filed : s'.table.Filed) (settled : ∀ name, s.table.Settled name → s'.table.Settled name)
    (names : declaredNames s'.out.lines.toList = declaredNames s.out.lines.toList) : s.Accounts s' :=
  ⟨filed, settled, [], by rw [names, List.append_nil], List.nodup_nil, by simp⟩

lemma of_notes (filed : s.table.Filed) (notes : s.table.Notes w s'.table)
    (names : declaredNames s'.out.lines.toList = declaredNames s.out.lines.toList) : s.Accounts s' := by
  refine quiet (filed.carry notes.carries notes.globals notes.fresh) (fun name settled => ?_) names
  exact settled.carry filed notes.carries fun id mem defined =>
    (notes.rests id (filed.known id mem)).isDefined defined

end Accounts
end ParseState

namespace SymbolTable

variable {st st' : SymbolTable} {storage : StorageClass} {name : Text} {t : CType} {ctype : Option SymId}
  {kind : Kind} {count : Int64} {id : SymId}

/-- What is known of a variable or array that was declared. -/
structure Entered (storage : StorageClass) (name : Text) (st : SymbolTable) (id : SymId)
    (st' : SymbolTable) : Prop where
  filed : st'.Filed
  settled : ∀ other, st.Settled other → st'.Settled other
  mem : id ∈ st'.globals
  named : (st'.get id).name = name
  /-- Only what was not defined becomes so. -/
  defined : storage = .global ∨ storage = .static → (st'.get id).kind ≠ .function →
    ¬ st.Settled name ∧ (st'.get id).IsDefined

lemma Enters.entered (h : st.Filed) (plain : kind ≠ .function)
    (enters : st.Enters storage name t ctype kind count id st') : Entered storage name st id st' := by
  have carries := enters.carries
  cases enters with
  | new new =>
    have here : (st.addGlobal name t ctype kind storage count).2.get st.symbols.size =
        st.sized name t ctype kind storage count := get_push_size rfl
    refine ⟨h.push rfl rfl new, fun other settled => settled.carry h carries fun id mem defined => ?_,
      List.mem_append_right _ (.head _), by rw [here]; rfl, fun defines _ => ?_⟩
    · rwa [get_push rfl (h.known id mem)]
    · rw [here, Symbol.isDefined_variable (y := st.sized name t ctype kind storage count) plain]
      exact ⟨not_settled_of_findGlobal new, defines⟩
  | again found linkage =>
    obtain ⟨mem, named⟩ := mem_of_findIn found
    have lt := h.known id mem
    have here := get_update lt fun s => { s with storage := .global }
    refine ⟨h.carry carries rfl fun other le => ?_, fun other settled => settled.carry h carries ?_, mem,
      by rw [here]; exact named, fun defines other => ?_⟩
    · rw [get_of_size_le (by rwa [SymbolTable.update, Symbols.size_update])]
      exact Kind.noConfusion
    · intro other _ defined
      by_cases same : id = other
      · subst other
        rw [here]
        by_cases function : (st.get id).kind = .function
        · rw [Symbol.isDefined_function function] at defined
          exact (Symbol.isDefined_function (y := { st.get id with storage := .global }) function).mpr defined
        · exact (Symbol.isDefined_variable (y := { st.get id with storage := .global }) function).mpr (.inl rfl)
      · rwa [get_update_ne same]
    · rw [here] at other ⊢
      rcases linkage with ⟨-, rfl⟩ | ⟨external, -⟩
      · rcases defines with h | h <;> cases h
      · rw [← named, h.settled_iff mem, Symbol.isDefined_variable (y := st.get id) other, external]
        refine ⟨(by rintro (h | h) <;> cases h), ?_⟩
        exact (Symbol.isDefined_variable (y := { st.get id with storage := .global }) other).mpr (.inl rfl)

end SymbolTable

namespace ParseState

variable {s s1 s' : ParseState} {w : Prop}

namespace Accounts

lemma around {s0 : ParseState} (reads : s0.Accounts s1) (written : List Text)
    (entered : ∀ name, s.table.Settled name → s0.table.Settled name) (out : s0.out = s.out)
    (filed : s'.table.Filed)
    (settled : ∀ name, s1.table.Settled name → s'.table.Settled name)
    (lines : declaredNames s'.out.lines.toList = declaredNames s1.out.lines.toList ++ written)
    (once : written.Nodup) (begun : ∀ name ∈ written, ¬ s.table.Settled name ∧ s0.table.Settled name) :
    s.Accounts s' := by
  obtain ⟨new, names, nodup, fresh⟩ := reads.names
  refine ⟨filed, fun name h => settled name (reads.settled name (entered name h)), new ++ written, ?_, ?_, ?_⟩
  · rw [lines, names, out, List.append_assoc]
  · refine List.nodup_append.mpr ⟨nodup, once, ?_⟩
    rintro a ha b hb rfl
    exact (fresh a ha).1 (begun a hb).2
  · intro name mem
    rcases List.mem_append.mp mem with mem | mem
    · exact ⟨fun h => (fresh name mem).1 (entered name h), settled name (fresh name mem).2⟩
    · exact ⟨(begun name mem).1, settled name (reads.settled name (begun name mem).2)⟩

lemma of_puts {storage : StorageClass} {name : Text} {st : SymbolTable}
    (entered : Entered storage name s.table id st) (reads : Accounts { s with table := st } s1)
    (carries : st.Carries s1.table) (puts : s1.out.Puts storage (s1.table.get id) out) :
    s.Accounts { s1 with out } := by
  have fits := carries.fits id (entered.filed.known id entered.mem)
  unfold Emitter.Puts at puts
  split at puts
  · rename_i writes
    obtain ⟨align, items, rfl⟩ := puts
    obtain ⟨unsettled, defined⟩ := entered.defined writes.1 (fits.kind ▸ writes.2.1)
    refine around reads [name] entered.settled rfl reads.filed (fun _ h => h) ?_
      (List.nodup_singleton name) fun other mem => ?_
    · rw [Emitter.add_lines, declaredNames_append, fits.name, entered.named]
      rfl
    · rw [List.mem_singleton.mp mem]
      exact ⟨unsettled, id, entered.mem, entered.named, defined⟩
  · rw [puts]
    exact around reads [] entered.settled rfl reads.filed (fun _ h => h) (List.append_nil _).symm
      List.nodup_nil (by simp)

lemma of_function {params : List SymId} {info : Info} {body : Tree} (filed : s.table.Filed)
    (function : (s.table.get id).kind = .function) (undefined : (s.table.get id).defined = false)
    (reads : (s.entered id params).table.Filed → Accounts (s.entered id params) s1)
    (carries : (s.entered id params).table.Carries s1.table)
    (written : s1.out.function s1.table.symbols id s1.table.locals body.fold =
      (.ok (), (s1.definition info id body).settled, out)) :
    s.Accounts (s1.left (s1.definition info id body) out) := by
  have mem := filed.functions id function
  have lt := filed.known id mem
  have here : (s.entered id params).table.get id = (s.table.get id).begun params := get_update lt _
  have begins := carries_entered s id params
  have filed0 : (s.entered id params).table.Filed := by
    refine filed.carry begins rfl fun other le => ?_
    rw [get_of_size_le (Nat.le_trans (Nat.le_of_eq (Symbols.size_update _ _ _)) le)]
    exact Kind.noConfusion
  have settled0 (name : Text) (h : s.table.Settled name) : (s.entered id params).table.Settled name := by
    refine h.carry filed begins fun other _ defined => ?_
    by_cases same : id = other
    · subst other
      rw [here]
      exact (Symbol.isDefined_function (y := (s.table.get id).begun params) function).mpr rfl
    · rwa [show (s.entered id params).table.get other = s.table.get other from Symbols.get_update_ne same]
  have notes := notes_left s1 (d := s1.definition info id body) out rfl
  have reads := reads filed0
  refine around reads [(s.table.get id).name] settled0 rfl
    (reads.filed.carry notes.carries notes.globals notes.fresh) (fun name h => ?_) ?_
    (List.nodup_singleton _) fun name named => ?_
  · exact h.carry reads.filed notes.carries fun other mem =>
      (notes.rests other (reads.filed.known other mem)).isDefined
  · obtain ⟨-, -, c, ps, code, lines, inner, -⟩ := Emitter.function_lines written
    have named : (s1.table.symbols.get id).name = (s.table.get id).name :=
      (begins.trans carries).fits id lt |>.name
    change declaredNames out.lines.toList = _
    rw [lines, declaredNames_append, List.cons_append, ← named]
    refine congrArg _ (congrArg (List.cons _) ?_)
    change declaredNames (code ++ _) = []
    rw [declaredNames_append, (declaredNames_inner inner).1]
    rfl
  · rw [List.mem_singleton.mp named, filed.settled_iff mem, Symbol.isDefined_function function, undefined]
    refine ⟨Bool.false_ne_true, id, mem, ?_, ?_⟩
    · rw [here]
      rfl
    · rw [here]
      exact (Symbol.isDefined_function (y := (s.table.get id).begun params) function).mpr rfl

end Accounts

lemma Goes.accounts (h : Goes w s s') (filed : s.table.Filed) : s.Accounts s' := by
  induction h with
  | still h =>
    refine .of_notes (w := w) filed (h.table ▸ .refl _) ?_
    rw [h.out]
  | trans _ _ ih ih' => exact (ih filed).trans (ih' (ih filed).filed)
  | notes h => exact .of_notes filed h rfl
  | label => exact .of_notes (w := w) filed (.refl _) rfl
  | string bytes h =>
    refine .of_notes (w := w) filed (h.table ▸ .refl _) ?_
    rw [Emitter.add_lines, declaredNames_append, h.out]
    exact List.append_nil _
  | declares _ plain enters reads puts ih =>
    have entered := enters.entered filed plain
    exact .of_puts entered (ih entered.filed) reads.carries puts
  | @announces s name t ctype storage _ new =>
    refine .quiet (filed.push (Parse.declared_symbols _ _ _ _ _ _) rfl new) (fun other settled => ?_) rfl
    have carries : s.table.Carries (Parse.declared s.table name t ctype storage (s.out.labels + 1)) :=
      .push (Parse.declared_symbols _ _ _ _ _ _) (List.prefix_append _ _)
    refine settled.carry filed carries fun id mem defined => ?_
    change (Symbols.get (Parse.declared ..).symbols id).IsDefined
    rwa [Parse.declared_symbols, Symbols.get_push (filed.known id mem)]
  | defines _ function undefined reads written ih =>
    exact .of_function filed function undefined ih reads.carries written

/-! ## Strings -/

/-- Strings take labels that were given out on the way. -/
structure Letters (s s' : ParseState) : Prop where
  labels : s.out.labels ≤ s'.out.labels
  strings : ∃ new, stringLabels s'.out.lines.toList = stringLabels s.out.lines.toList ++ new ∧ new.Nodup ∧
    ∀ l ∈ new, s.out.labels < l ∧ l ≤ s'.out.labels

namespace Letters

lemma trans (h : s.Letters s1) (k : s1.Letters s') : s.Letters s' := by
  obtain ⟨new, first, nodup, fresh⟩ := h.strings
  obtain ⟨more, second, nodup', fresh'⟩ := k.strings
  refine ⟨Int.le_trans h.labels k.labels, new ++ more, by rw [second, first, List.append_assoc], ?_, ?_⟩
  · refine List.nodup_append.mpr ⟨nodup, nodup', ?_⟩
    rintro a ha b hb rfl
    have := (fresh a ha).2
    have := (fresh' a hb).1
    omega
  · intro l mem
    have := h.labels
    have := k.labels
    rcases List.mem_append.mp mem with mem | mem
    · have := fresh l mem
      omega
    · have := fresh' l mem
      omega

lemma quiet (labels : s.out.labels ≤ s'.out.labels)
    (strings : stringLabels s'.out.lines.toList = stringLabels s.out.lines.toList) : s.Letters s' :=
  ⟨labels, [], by rw [strings, List.append_nil], List.nodup_nil, by simp⟩

end Letters

lemma Goes.letters (h : Goes w s s') : s.Letters s' := by
  induction h with
  | still h => exact .quiet (by rw [h.out]) (by rw [h.out])
  | trans _ _ ih ih' => exact ih.trans ih'
  | notes => exact .quiet (Int.le_refl _) rfl
  | label | announces => exact .quiet (Int.le_add_of_nonneg_right (Int.natCast_nonneg 1)) rfl
  | @string s s1 bytes h =>
    refine ⟨?_, [s.out.labels + 1], ?_, List.nodup_singleton _, fun l mem => ?_⟩
    · rw [Emitter.add_labels, Emitter.count_labels, h.out]
      omega
    · rw [Emitter.add_lines, stringLabels_append, Emitter.count_lines, h.out]
      rfl
    · rw [List.mem_singleton.mp mem, Emitter.add_labels, Emitter.count_labels, h.out]
      omega
  | declares _ _ _ _ puts ih =>
    refine Letters.trans ⟨ih.labels, ih.strings⟩ ?_
    unfold Emitter.Puts at puts
    split at puts
    · obtain ⟨align, items, rfl⟩ := puts
      refine .quiet (Int.le_refl _) ?_
      rw [Emitter.add_lines, stringLabels_append]
      exact List.append_nil _
    · rw [puts]
      exact .quiet (Int.le_refl _) rfl
  | @defines s s1 id params info body out _ _ _ _ written ih =>
    obtain ⟨-, labels, c, ps, code, lines, inner, -⟩ := Emitter.function_lines written
    refine Letters.trans ⟨ih.labels, ih.strings⟩ (.quiet labels ?_)
    change stringLabels out.lines.toList = _
    rw [lines, stringLabels_append]
    refine (congrArg _ ?_).trans (List.append_nil _)
    change stringLabels (code ++ _) = []
    rw [stringLabels_append, (declaredNames_inner inner).2]
    rfl

end ParseState

/-! ## Sources -/

lemma Ir.stringName_injective {a b : Int} (ha : 0 < a) (hb : 0 < b) (h : stringName a = stringName b) :
    a = b := by
  lift a to Nat using ha.le
  lift b to Nat using hb.le
  rw [Text.ofNat_injective (List.append_cancel_left h)]

lemma compile_goes {file source code : Text}
    (h : (Session.compile { file } source).1.outcome = .ok code) :
    ∃ s : ParseState, Goes True (Session.start { file } (lex source file).1) s ∧
      (Session.compile { file } source).2.out = s.out ∧ code = render s.out.lines.toList := by
  obtain ⟨tokens, s, lexed, run, rfl⟩ := Session.compile_eq_ok.mp h
  refine ⟨s, ?_, congrArg Session.out (Session.compile_of_file lexed run).2.2, rfl⟩
  rw [show (lex source file).1 = tokens from congrArg Prod.fst lexed]
  exact Parse.file_goes () s run

/-- The code of a source defines no variable or function twice and no string twice, so all names are
different exactly if none is both that of a string and one that the source declares. -/
theorem compile_defines {file source code : Text}
    (h : (Session.compile { file } source).1.outcome = .ok code) :
    let lines := (Session.compile { file } source).2.out.lines.toList
    code = render lines ∧ (declaredNames lines).Nodup ∧ ((stringLabels lines).map stringName).Nodup ∧
      ((definedNames lines).Nodup ↔ ∀ l ∈ stringLabels lines, stringName l ∉ declaredNames lines) := by
  obtain ⟨s, goes, out, rfl⟩ := compile_goes h
  simp only [out]
  obtain ⟨names, all, distinct, -⟩ := (goes.accounts .empty).names
  obtain ⟨labels, every, apart, fresh⟩ := goes.letters.strings
  have declared : (declaredNames s.out.lines.toList).Nodup := by
    rw [all]
    exact distinct
  have strings : ((stringLabels s.out.lines.toList).map stringName).Nodup := by
    rw [every]
    refine List.Nodup.map_on (fun a ha b hb same => ?_) apart
    exact stringName_injective (fresh a ha).1 (fresh b hb).1 same
  refine ⟨trivial, declared, strings, ?_⟩
  rw [(definedNames_perm _).nodup_iff, List.nodup_append']
  simp only [declared, strings, true_and, List.disjoint_right, List.mem_map, forall_exists_index, and_imp,
    forall_apply_eq_imp_iff₂]

theorem compile_defines_strings :
    let source : Text :=
      "char *s = \"a\"; extern int x; int x = 3; static int y; int f(); int f() \x7b char *t; t = \"b\"; return x; \x7d"
    (∃ code, (Session.compile { file := "t.c" } source).1.outcome = .ok code) ∧
      (stringLabels (Session.compile { file := "t.c" } source).2.out.lines.toList).length = 2 ∧
      (definedNames (Session.compile { file := "t.c" } source).2.out.lines.toList).Nodup := by
  intro source
  obtain ⟨code, ok⟩ := exists_of_isSome (x := (Session.compile { file := "t.c" } source).1.outcome)
    (by decide +kernel)
  exact ⟨⟨code, ok⟩, by decide +kernel, (compile_defines ok).2.2.2.mpr (by decide +kernel)⟩

/-- A variable may have the name that a string was given. -/
theorem compile_defines_twice :
    let source : Text := "char *s = \"a\"; int L1;"
    (Session.compile { file := "t.c" } source).1.outcome.toOption.isSome = true ∧
      definedNames (Session.compile { file := "t.c" } source).2.out.lines.toList =
        [Text.ofString "L1", Text.ofString "s", Text.ofString "L1"] := by
  decide +kernel

end SmallC
