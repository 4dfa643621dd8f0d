import SmallC.Proofs.Parse.Variable

/-!
# Reading functions and declarations

A function is finished with the lines that it adds: its labels are new but for that of its end, and
that one has not been placed, for a function that is defined already is not defined again. Inside
its body others may have been finished.
-/

namespace SmallC

open ParseState Ir

variable {params : List SymId} {body : Tree} {t : CType} {info : Info} {name : Text}
variable {E : Fault → ParseState → Prop} {storage' : StorageClass}

def Symbol.begun (params : List SymId) (f : Symbol) : Symbol := { f with
    defined := true, members := params,
    storage := if f.storage = .external then .global else f.storage }

lemma Symbol.keeps_begun {f : Symbol} (kind : f.kind = .function) (undefined : f.defined = false) :
    f.Keeps (f.begun params) := by
  have frame : (f.begun params).isFrame = f.isFrame := by
    unfold Symbol.isFrame Symbol.begun
    dsimp only
    split
    · simp [*]
    · rfl
  have param : (f.begun params).isParam = f.isParam := by
    unfold Symbol.isParam Symbol.begun
    dsimp only
    split
    · simp [*]
    · rfl
  refine ⟨⟨rfl, rfl, rfl, rfl, fun h => ?_, fun _ => rfl, fun _ => .inr kind, frame, param,
    fun h => h, fun sized inside plain => sized (frame ▸ inside) (param ▸ plain)⟩,
    fun h => absurd h (ne_true_of_eq_false undefined)⟩
  unfold Symbol.isFileScope Symbol.begun at *
  dsimp only
  split
  · rfl
  · exact h

namespace ParseState

variable {s s1 s2 : ParseState} {id : SymId}
variable {out : Emitter}

def entered (s : ParseState) (id : SymId) (params : List SymId) : ParseState := { s with
    table := { s.table.update id (Symbol.begun params) with function := some id }
    loops := 0
    switches := 0 }

def definition (s : ParseState) (info : Info) (id : SymId) (body : Tree) : Definition :=
  { info, sym := id, locals := s.table.locals, symbols := s.table.symbols, read := body }

def left (s : ParseState) (d : Definition) (out : Emitter) : ParseState := { s with
    table := { s.table with symbols := d.settled }.clearLocals, out
    functions := s.functions.push d }

lemma entered_grows (hid : s.table.IsFunction id) (undefined : (s.table.get id).defined = false)
    (params : List SymId) : s.table.symbols.Grows (s.entered id params).table.symbols :=
  .update fun _ => Symbol.keeps_begun hid.2 undefined

lemma entered_sound (hs : s.Sound) (hid : s.table.IsFunction id)
    (undefined : (s.table.get id).defined = false)
    (known : ∀ p ∈ params, p < s.table.symbols.size ∧ (s.table.get p).isParam = true) :
    (s.entered id params).Sound := by
  have grows := entered_grows hid undefined params
  have size : (s.entered id params).table.symbols.size = s.table.symbols.size := by
    simp [entered, SymbolTable.update]
  have get : (s.entered id params).table.get id = (s.table.get id).begun params :=
    (Symbols.get_update hid.1 (Symbol.begun params) id).trans (if_pos rfl)
  have scope : (s.entered id params).table.scope = params ++ s.table.locals :=
    congrArg (Symbol.members · ++ s.table.locals) get
  have sound := hs.relisted size (fun i lt => (grows.keeps i lt).toResembles) (fun f hf => ?_) (fun p hp => ?_)
    (List.Subset.refl _) (List.Subset.refl _) (List.Subset.refl _)
  · exact { sound with }
  · obtain rfl : id = f := Option.some.inj hf
    rw [get]
    exact ⟨hid.1, rfl⟩
  · rw [scope, List.append_assoc, List.mem_append] at hp
    rcases hp with hp | hp
    · exact (known p hp).imp_right Symbol.isFrame_of_isParam
    · refine hs.table.known p ?_
      rw [SymbolTable.scope, List.append_assoc]
      exact List.mem_append_right _ hp

lemma left_sound (hs : s.Sound) {d : Definition} (hd : s.table.IsFunction d.sym)
    (defined : (s.table.get d.sym).defined = true) (symbols : d.symbols = s.table.symbols)
    (once : ∀ d' ∈ s.functions, d'.sym ≠ d.sym) (runs : d.body.Runs d.settled)
    (he : s.out.function d.symbols d.sym d.locals d.body = (.ok (), d.settled, out))
    (written : ∀ text, out.lines.toList = s.out.lines.toList ++ text → d.Written text) :
    (s.left d out).Sound := by
  have grows : s.table.symbols.Grows d.settled := symbols ▸ Lower.localSlots_grows _ _
  have size : d.settled.size = s.table.symbols.size := symbols ▸ Lower.localSlots_size _ _
  -- The tables alone.
  have cleared : Sound { s with table := { s.table with symbols := d.settled }.clearLocals } :=
    hs.relisted size (fun i lt => (grows.keeps i lt).toResembles) nofun nofun nofun nofun (List.Subset.refl _)
  -- The label of the end has been given out and not placed.
  have ends := hs.ends d.sym hd
  have label : (d.symbols.get d.sym).endLabel = (s.table.get d.sym).endLabel := by
    rw [symbols]
    rfl
  have unplaced : (s.table.get d.sym).endLabel ∉ labelsOf s.out.lines.toList := by
    intro hl
    obtain ⟨d', hd', same⟩ := hs.placed d.sym hd hl
    exact once d' hd' same
  obtain ⟨le, text, placed, hlines, htext, nodup, fresh⟩ :=
    Emitter.function_labels he runs hs.positive (by rw [label]; omega)
  rw [label] at htext
  have all : labelsOf out.lines.toList =
      labelsOf s.out.lines.toList ++ (placed ++ [(s.table.get d.sym).endLabel]) := by
    rw [hlines, labelsOf_append, htext]
  constructor
  case table => exact cleared.table
  case positive => exact hs.positive.trans le
  case ends =>
    intro f hf
    obtain ⟨pos, hle⟩ := cleared.ends f hf
    exact ⟨pos, Int.le_trans hle le⟩
  case apart => exact cleared.apart
  case placed =>
    intro f hf hl
    have hf' : s.table.IsFunction f := by
      have lt : f < s.table.symbols.size := size ▸ hf.1
      exact ⟨lt, (grows.keeps f lt).kind.symm.trans hf.2⟩
    have same : ((s.left d out).table.get f).endLabel = (s.table.get f).endLabel :=
      (grows.keeps f hf'.1).endLabel
    have functions : (s.left d out).functions = s.functions.push d := rfl
    simp only [functions, Array.mem_push]
    rw [same, show (s.left d out).out = out from rfl, all, List.mem_append, List.mem_append,
      List.mem_singleton] at hl
    rcases hl with hl | hl | hl
    · obtain ⟨d', hd', rfl⟩ := hs.placed f hf' hl
      exact ⟨d', .inl hd', rfl⟩
    · have := (fresh _ hl).1
      have := (hs.ends f hf').2
      omega
    · exact ⟨d, .inr rfl, (hs.apart f d.sym hf' hd hl).symm⟩
  case finished =>
    intro d' hd'
    rcases Array.mem_push.mp hd' with hd' | rfl
    · exact cleared.finished d' hd'
    · exact ⟨Nat.lt_of_lt_of_le hd.1 grows.size, (grows.keeps _ hd.1).defined defined⟩
  case labels =>
    intro l hl
    rw [show (s.left d out).out = out from rfl] at hl ⊢
    rw [all, List.mem_append, List.mem_append, List.mem_singleton] at hl
    rcases hl with hl | hl | rfl
    · have := hs.labels l hl
      omega
    · have := fresh l hl
      have := hs.positive
      omega
    · omega
  case nodup =>
    rw [show (s.left d out).out = out from rfl, all]
    refine List.nodup_append.mpr ⟨hs.nodup, ?_, ?_⟩
    · refine List.nodup_append.mpr ⟨nodup, by simp, ?_⟩
      intro l hl l' hl'
      rw [List.mem_singleton] at hl'
      have := (fresh l hl).1
      omega
    · rintro l hl l' hl' rfl
      rw [List.mem_append, List.mem_singleton] at hl'
      rcases hl' with hl' | rfl
      · have := (fresh l hl').1
        have := (hs.labels l hl).2
        omega
      · exact unplaced hl
  case layout =>
    have := hs.layout.function (written text hlines) ⟨s.out, out, he, hlines, rfl, rfl⟩
    rwa [← hlines, ← Array.toList_push] at this

lemma Forms.returns (f : Forms s s1 body) (hs : s.Sound) (function : s.table.function = some id) (info : Info)
    (ht : Returns s t) : t.fits (s1.definition info id body).symbol.type = true := by
  obtain ⟨f', hf, fits⟩ := ht
  obtain rfl : id = f' := Option.some.inj (function.symm.trans hf)
  have type := (f.symbols.keeps id (hs.table.function id function).1).type
  change t.fits (s1.table.symbols.get id).type = true
  rw [type]
  exact fits

lemma Forms.written (f : Forms s s1 body) (hs : s.Sound) (function : s.table.function = some id)
    (hid : s1.table.IsFunction id) (params : ∀ p ∈ (s1.table.get id).members,
      p < s1.table.symbols.size ∧ (s1.table.get p).isParam = true)
    (returns : info.type ≠ .void → body.endsInResult) {text : List Line}
    (he : s1.out.function s1.table.symbols id s1.table.locals body.fold =
      (.ok (), (s1.definition info id body).settled, out))
    (hlines : out.lines.toList = s1.out.lines.toList ++ text) :
    (s1.definition info id body).Written text where
  emitted := ⟨s1.out, out, he, hlines, f.sound.positive, (f.sound.ends id hid).2⟩
  positive := (f.sound.ends id hid).1
  shape := by
    cases value : body.endsInValue with
    | true =>
      obtain ⟨s0, hs0, leads, shape⟩ := f.named value
      exact ⟨_, shape, fun t => f.returns hs function info, fun _ => leads.distinct hs0⟩
    | false =>
      refine ⟨_, f.shape, fun t => f.returns hs function info, fun h => ?_⟩
      rw [definition, Definition.body, Tree.endsInValue_fold, value] at h
      cases h
  returns h := by
    rw [definition, Definition.body, Tree.endsInResult_fold]
    exact returns h
  frame p hp := by
    have known : p < s1.table.symbols.size ∧ (s1.table.get p).isFrame = true := by
      rcases List.mem_append.mp hp with hp | hp
      · exact (params p hp).imp_right Symbol.isFrame_of_isParam
      · exact f.sound.table.known p (by simp [SymbolTable.scope, show p ∈ s1.table.locals from hp])
    exact ⟨known.2, f.sound.table.fit p known.1⟩
  params p hp := (params p hp).2
  locals p hp := f.sound.table.locals p hp

lemma Forms.closed (f : Forms s s1 body) (hs : s.Sound) (info : Info) (function : s.table.function = some id)
    (same : s1.functions.size = s.functions.size) : (s1.definition info id body).Closed := by
  have function1 : s1.table.function = some id := (f.current same).trans function
  refine f.shape.grow (.refl _) ⟨⟨fun i _ hi => ?_, fun _ _ hf => (hf same).2⟩,
    fun t => f.returns hs function info⟩
  refine (hi (by simp [function1])).imp_right fun finds => ?_
  rw [SymbolTable.Finds, SymbolTable.scope, function1] at finds
  exact finds

/-- How the body of a function goes on up to its end. -/
structure Defines (params : List SymId) (s s' : ParseState) : Prop extends Leads s s' where
  kept : Kept s s'
  homes : s.Clean → s.Outer → s.table.Unshared params →
    ∀ d ∈ s'.functions, d ∈ s.functions ∨ d.Unshared

lemma Forms.leaves (hs : s.Sound) (hid : s.table.IsFunction id) (undefined : (s.table.get id).defined = false)
    (known : ∀ p ∈ params, p < s.table.symbols.size ∧ (s.table.get p).isParam = true)
    (f : Forms (s.entered id params) s1 body) (returns : info.type ≠ .void → body.endsInResult)
    (he : s1.out.function s1.table.symbols id s1.table.locals body.fold =
      (.ok (), (s1.definition info id body).settled, out)) :
    Defines params s (s1.left (s1.definition info id body) out) := by
  have begins := entered_grows hid undefined params
  have grows := begins.trans f.symbols
  have hid1 : s1.table.IsFunction id :=
    ⟨Nat.lt_of_lt_of_le hid.1 grows.size, (grows.keeps id hid.1).kind.trans hid.2⟩
  have entered : (s.entered id params).table.get id = (s.table.get id).begun params :=
    (Symbols.get_update hid.1 (Symbol.begun params) id).trans (if_pos rfl)
  have defined : ((s.entered id params).table.get id).defined = true :=
    congrArg Symbol.defined entered
  have hlt : id < (s.entered id params).table.symbols.size := Nat.lt_of_lt_of_le hid.1 begins.size
  -- It was not finished before, and what its body contains cannot finish it.
  have once : ∀ d ∈ s1.functions, d.sym ≠ id := by
    rintro d hd same
    obtain ⟨d', hd', rfl⟩ := f.finished id hlt defined ⟨d, hd, same⟩
    exact absurd (hs.finished d' hd').2 (ne_true_of_eq_false undefined)
  have members : (s1.table.get id).members = params :=
    ((f.symbols.keeps id hlt).members defined).trans (congrArg Symbol.members entered)
  have taken : ∀ p ∈ (s1.table.get id).members,
      p < s1.table.symbols.size ∧ (s1.table.get p).isParam = true := by
    intro p hp
    obtain ⟨lt, param⟩ := known p (members ▸ hp)
    exact ⟨Nat.lt_of_lt_of_le lt grows.size, (grows.keeps p lt).param.trans param⟩
  have settles : s1.table.symbols.Grows (s1.definition info id body).settled :=
    Lower.localSlots_grows _ _
  have hs0 := entered_sound hs hid undefined known
  have size : (s1.left (s1.definition info id body) out).functions.size = s1.functions.size + 1 :=
    Array.size_push _
  have more : s.functions.size ≤ s1.functions.size := f.functions
  refine ⟨?_, ⟨.inl ⟨rfl, rfl⟩, fun _ => List.nodup_nil⟩, ?_⟩
  case refine_2 =>
    intro clean outer apart d hd
    have still : s1.functions = s.functions := f.still clean
    rcases Array.mem_push.mp hd with hd | rfl
    · exact .inl (still ▸ hd)
    · have function : s1.table.function = some id := f.current (congrArg Array.size still)
      have locals : s.table.locals = [] := (List.append_eq_nil_iff.mp outer.scope).2
      have scope : (s.entered id params).table.scope = params :=
        (congrArg (Symbol.members · ++ s.table.locals) entered).trans (by simp [locals, Symbol.begun])
      have start : (s.entered id params).table.Unshared (s.entered id params).table.scope := by
        rw [scope]
        exact apart.congr fun p hp => (begins.keeps p (known p hp).1).name
      have unshared := f.unshared start (by simp [function])
      rw [SymbolTable.scope, function] at unshared
      exact .inr unshared
  constructor
  case sound =>
    refine left_sound f.sound hid1 ((f.symbols.keeps id hlt).defined defined) rfl once
      ?_ he fun text hlines => f.written hs0 rfl hid1 taken returns he hlines
    exact (f.shape.fold.grow settles (.refl _ _)).runs
  case symbols => exact grows.trans settles
  case finished =>
    rintro i hi hd ⟨d, hd', rfl⟩
    rcases Array.mem_push.mp hd' with hd' | rfl
    · exact f.finished d.sym (Nat.lt_of_lt_of_le hi begins.size)
        ((begins.keeps d.sym hi).defined hd) ⟨d, hd', rfl⟩
    · exact absurd hd (ne_true_of_eq_false undefined)
  case scope => exact .inl rfl
  case functions =>
    rw [size]
    exact Nat.le_succ_of_le more
  case counters | current | signatures =>
    intro same
    rw [size] at same
    omega
  case unshared => exact fun _ function => absurd rfl function
  case clean => exact f.clean
  case inside =>
    intro hc d hd
    rcases Array.mem_push.mp hd with hd | rfl
    · exact f.inside hc d hd
    · have still : s1.functions = s.functions := f.still hc
      have stays := f.stays (Int.le_refl 0) (Int.le_refl 0) (congrArg Array.size still)
      refine .inr ⟨(f.shape.strays_fold true true).trans ?_, ?_⟩
      · simpa [ParseState.entered] using stays
      · exact f.closed hs0 info rfl (congrArg Array.size still)

end ParseState

namespace Parse

variable {g : Grammar} {s s1 : ParseState} {ctype : Option SymId} {end1 end2 : TokenKind}
variable {storage : StorageClass} {id : SymId}

/-! ## Functions -/

/-- A function in the tables, before its parameters are known. -/
def declared (st : SymbolTable) (name : Text) (t : CType) (ctype : Option SymId)
    (storage : StorageClass) (endLabel : Int) : SymbolTable :=
  (st.addGlobal name t ctype .function storage 0).2.update st.symbols.size
    fun s => { s with endLabel }

lemma declared_symbols (st : SymbolTable) (name : Text) (t : CType) (ctype : Option SymId)
    (storage : StorageClass) (endLabel : Int) :
    (declared st name t ctype storage endLabel).symbols = st.symbols.push
      { name, type := t, ctype, kind := .function, storage, count := 0,
        size := st.storageSize t ctype 0, endLabel } := by
  rw [declared, SymbolTable.addGlobal, SymbolTable.create, SymbolTable.update,
    Symbols.update_push_size]
  rfl

lemma runs_newFunction {Q : SymId → ParseState → Prop} :
    Runs (newFunction name t ctype storage) s Q E ↔ Q s.table.symbols.size { s with
        table := declared s.table name t ctype storage (s.out.labels + 1), out := s.out.count 0 1 } := Iff.rfl

lemma newFunction_sound (hs : s.Sound) (fileScope : storage.isFileScope) :
    Runs (newFunction name t ctype storage) s
      (fun id s' => Quiet s s' ∧ s'.table.IsFunction id ∧ s.table.symbols.size ≤ id) Breaks := by
  rw [runs_newFunction]
  have symbols := declared_symbols s.table name t ctype storage (s.out.labels + 1)
  have grows : TableGrows s.table (declared s.table name t ctype storage (s.out.labels + 1)) :=
    .push symbols rfl (.of_not_frame (Symbol.isFrame_eq_false fileScope)) rfl (.inl rfl) (.inl rfl)
      (.inr ⟨rfl, fileScope⟩)
  refine ⟨.newFunction hs symbols grows rfl rfl, ?_, Nat.le_refl _⟩
  change (declared s.table name t ctype storage (s.out.labels + 1)).IsFunction s.table.symbols.size
  unfold SymbolTable.IsFunction SymbolTable.get
  rw [symbols, Symbols.get_push_size]
  exact ⟨by simp, rfl⟩

lemma checkReturns_sound (hs : s.Sound) :
    Runs (checkReturns t body) s (fun _ s' => s' = s ∧ (t ≠ .void → body.endsInResult)) Breaks := by
  unfold checkReturns
  rw [runs_ite, runs_pure]
  refine ⟨fun _ => ?_, fun h => ⟨rfl, fun h' => absurd h' h⟩⟩
  split
  · split
    · exact ⟨rfl, hs.breaks _⟩
    · rename_i last
      refine ⟨rfl, fun _ => ?_⟩
      rw [Tree.endsInResult, Tree.finalValue?, last]
      rfl
    · exact ⟨rfl, hs.breaks _⟩
  · exact ⟨rfl, hs.breaks _⟩

lemma runs_finishFunction {Q : Unit → ParseState → Prop}
    (h : ∀ out, s.out.function s.table.symbols id s.table.locals body.fold =
      (.ok (), (s.definition info id body).settled, out) → Q () (s.left (s.definition info id body) out))
    (broken : ∀ fault s', s'.functions = s.functions.push (s.definition info id body) → E fault s') :
    Runs (finishFunction info id body) s Q E := by
  rw [finishFunction, runs_modify, runs_modifyGet]
  rcases he : s.out.function s.table.symbols id s.table.locals body.fold with ⟨outcome, symbols, out⟩
  dsimp only
  rw [he]
  cases outcome with
  | error e => exact ⟨rfl, broken _ _ rfl⟩
  | ok _ =>
    rw [runs_modifyTable]
    obtain ⟨rfl, -⟩ := Emitter.function_eq_ok he
    exact h out he

section
variable (hg : g.Sound) (hs : s.Sound) (hid : s.table.IsFunction id)
  (known : ∀ p ∈ params, p < s.table.symbols.size ∧ (s.table.get p).isParam = true) (info : Info)
  (name : Text)
include hg hs hid known

lemma functionBody_sound :
    Runs (functionBody g id params info name) s (fun _ s' => Defines params s s') Breaks := by
  simp only [functionBody, runs_symbol, runs_ite, runs_fail_bind, hs.breaks, implies_true, true_and,
    Bool.not_eq_true, runs_modifyTable_bind, runs_modify]
  intro undefined
  change Runs _ (s.entered id params) _ _
  have hs1 := entered_sound hs hid undefined known
  refine runs_expect.mpr ⟨fun _ => ?_, fun _ => hs1.breaks _⟩
  refine (hg.block hs1.advanced).bind ?_
  rintro body s2 f
  refine runs_expect.mpr ⟨fun _ => ?_, fun _ => f.sound.breaks _⟩
  have f := f.of_advanced.advanced
  refine (checkReturns_sound f.sound).bind ?_
  rintro - s3 ⟨rfl, returns⟩
  refine runs_finishFunction (fun out he => f.leaves hs hid undefined known returns he) ?_
  intro fault s4 functions d hd
  rw [functions] at hd
  rcases Array.mem_push.mp hd with hd | rfl
  · exact f.sound.breaks fault d hd
  · exact ⟨_, f.shape, fun t => f.returns hs1 rfl info⟩

lemma bodyIfAny_sound :
    Runs (bodyIfAny g id params info name) s (fun _ s' => Defines params s s') Breaks := by
  simp only [bodyIfAny, runs_isAt, runs_ite, runs_pure]
  refine ⟨fun _ => ?_, fun _ => functionBody_sound hg hs hid known info name⟩
  have := Quiet.refl hs
  exact ⟨this.toLeads, this.kept, fun _ _ _ _ hd => .inl hd⟩

end

lemma functionSymbol_sound (hs : s.Sound) {earlier : Option SymId}
    (known : ∀ id, earlier = some id → id < s.table.symbols.size) (fileScope : storage.isFileScope) :
    Runs (functionSymbol earlier name t ctype storage) s (fun id s' =>
      Quiet s s' ∧ s'.table.IsFunction id ∧ (earlier = none → s.table.symbols.size ≤ id)) Breaks := by
  cases earlier with
  | none =>
    refine (newFunction_sound hs fileScope).mono ?_
    rintro id s' ⟨q, hid, new⟩
    exact ⟨q, hid, fun _ => new⟩
  | some id =>
    simp only [functionSymbol, runs_symbol, runs_ite, runs_fail_bind, hs.breaks, implies_true, true_and,
      runs_pure]
    intro kind
    exact ⟨.refl hs, ⟨known id rfl, by simpa using kind⟩, by simp⟩

lemma function_sound (hg : g.Sound) (hs : s.Sound) (fileScope : storage.isFileScope) :
    Runs (function g name t ctype storage) s (fun _ s' => Declares storage s s') Breaks := by
  simp only [function, runs_peek, runs_table]
  have found : ∀ id, s.table.lookup name = some id → id < s.table.symbols.size := by
    intro id hid
    rw [SymbolTable.lookup, SymbolTable.findLocal_eq, Option.or_eq_some_iff] at hid
    rcases hid with hid | ⟨-, hid⟩
    · exact hs.table.scope_lt (SymbolTable.mem_of_findIn hid).1
    · exact (hs.table.globals id (SymbolTable.mem_of_findIn hid).1).1
  generalize s.table.lookup name = earlier at found
  refine (functionSymbol_sound hs found fileScope).bind ?_
  rintro id s1 ⟨q1, hid, new⟩
  refine runs_expect.mpr ⟨fun _ => ?_, fun _ => q1.sound.breaks _⟩
  have q2 := q1.trans (.advanced q1.sound)
  have read := silent.parameters g g (fun _ hs => hg.declaration .param hs (by simp) rfl) (earlier.map s.table.get)
  refine (read _ q2.sound).bind ?_
  rintro count s3 q3
  refine runs_expect.mpr ⟨fun _ => ?_, fun _ => q3.sound.breaks _⟩
  simp only [SymbolTable.takeParams, runs_withTable_bind, runs_modifyTable_bind]
  have q4 := (q2.trans q3).trans (.advanced q3.sound)
  have q5 : Quiet s { s3.advanced with table := { s3.table with params := [] } } :=
    q4.trans (.withTable q4.sound (.lists rfl rfl rfl (.inr rfl) rfl) rfl)
  have known : ∀ p ∈ s3.table.params,
      p < s3.table.symbols.size ∧ (s3.table.get p).isParam = true := fun p hp =>
    ⟨(q3.sound.table.known p (List.mem_append_right _ hp)).1, q3.sound.table.params p hp⟩
  -- What was read before the body is quiet, and parameters have been taken from the tables.
  have whole : ∀ {s5 s6 : ParseState}, Quiet s s5 →
      (s3.table.Unshared s3.table.params → s5.table.Unshared s3.table.params) →
      Defines s3.table.params s5 s6 → Declares storage s s6 := by
    intro s5 s6 q5 apart h
    refine ⟨q5.toLeads.trans h.toLeads, fun _ => q5.kept.trans h.kept, fun inner => ?_, ?_⟩
    · rw [fileScope] at inner
      cases inner
    · intro _ clean outer d hd
      have params := apart ((q2.trans q3).kept.params outer.params)
      rw [← q5.still clean]
      exact h.homes (q5.clean clean) (q5.kept.outer outer) params d hd
  have hid3 : s3.table.IsFunction id :=
    ⟨Nat.lt_of_lt_of_le hid.1 q3.symbols.size, (q3.symbols.keeps id hid.1).kind.trans hid.2⟩
  cases earlier with
  | some _ =>
    refine (bodyIfAny_sound hg q5.sound hid3 known _ name).bind ?_
    rintro - s6 h6
    exact whole q5 (fun h => h) h6
  | none =>
    have q6 := Quiet.updateNew hs q5 (new rfl) (f := fun s =>
      { s with count := Int64.ofNat count, members := s3.table.params })
      ⟨rfl, rfl, rfl, rfl, fun h => h, fun h => h, .inl, rfl, rfl, fun h => h, fun h => h⟩
    have size : (s3.table.symbols.update id fun s =>
        { s with count := Int64.ofNat count, members := s3.table.params }).size =
        s3.table.symbols.size := Symbols.size_update _ _ _
    refine (bodyIfAny_sound hg q6.sound (show SymbolTable.IsFunction _ id from ⟨?_, ?_⟩) ?_ _ name).bind ?_
    · exact size ▸ hid3.1
    · exact (congrArg Symbol.kind ((Symbols.get_update hid3.1 _ id).trans (if_pos rfl))).trans hid3.2
    · intro p hp
      refine ⟨size ▸ (known p hp).1, Eq.trans ?_ (known p hp).2⟩
      refine (congrArg Symbol.isParam (Symbols.get_update hid3.1 _ p)).trans ?_
      split
      · rename_i same
        exact same ▸ rfl
      · rfl
    rintro - s7 h7
    refine whole q6 (fun apart => apart.congr fun p hp => ?_) h7
    refine (congrArg Symbol.name (Symbols.get_update hid3.1 _ p)).trans ?_
    split
    · rename_i same
      exact same ▸ rfl
    · rfl

/-! ## The whole -/

lemma checkName_sound (hs : s.Sound) :
    Runs (checkName storage name) s (fun _ s' => s' = s ∧ Free storage s name) Breaks := by
  unfold checkName
  simp only [runs_table, runs_ite, runs_fail, hs.breaks, runs_pure, implies_true, true_and]
  refine ⟨fun member _ => ?_, fun _ taken => ?_⟩
  · subst member
    exact ⟨by simp, by simp⟩
  · simp only [Bool.or_eq_true, Bool.and_eq_true, decide_eq_true_eq, not_or, not_and,
      Bool.not_eq_true, Option.isSome_eq_false_iff, Option.isNone_iff_eq_none] at taken
    exact ⟨fun _ => taken.1, taken.2⟩

lemma declarator_sound (hg : g.Sound) (hs : s.Sound) : Runs (declarator g t ctype storage) s
      (fun r s' => Declares storage s s' ∧ Inits s s' r.2.toList) Breaks := by
  have none : ∀ s', Inits s s' (none : Option Tree).toList := by simp [Inits]
  refine runs_expectIdentifier.mpr ⟨fun _ => ?_, fun _ => hs.breaks _⟩
  simp only [runs_isAt, runs_ite, runs_fail_bind, hs.advanced.breaks, implies_true, and_true]
  refine ⟨fun _ fileScope => ?_, fun _ => ?_⟩
  · refine (function_sound hg hs.advanced fileScope).bind ?_
    rintro id s1 d
    exact ⟨d.of_advanced, none s1⟩
  · refine (checkName_sound hs.advanced).bind ?_
    rintro - s1 ⟨rfl, free⟩
    simp only [runs_isAt, runs_ite]
    refine ⟨fun _ => ?_, fun _ => ?_⟩
    · refine (array_sound hg hs.advanced free.ofLocal).bind ?_
      rintro id s2 d
      exact ⟨d.of_advanced, none s2⟩
    · refine (scalar_sound hg hs.advanced free).mono ?_
      rintro r s2 ⟨d, inits⟩
      exact ⟨d.of_advanced, inits.earlier hs (Quiet.advanced hs).toLeads d.toLeads⟩

lemma Words.declares {s2 : ParseState} (w : Words s storage storage') (d : Declares storage s s1)
    (d' : Declares storage' s1 s2) : Declares storage s s2 where
  toLeads := d.toLeads.trans d'.toLeads
  kept notLocal := by
    refine (d.kept notLocal).trans (d'.kept ?_)
    rcases w.1 with rfl | rfl | rfl
    · exact notLocal
    · exact nofun
    · exact nofun
  still inner hc := by
    refine (d'.still ?_ (d.clean hc)).trans (d.still inner hc)
    rw [w.2 hc]
    exact inner
  homes file hc outer f hf := by
    have notLocal : storage ≠ .local := by
      rintro rfl
      cases file
    have same := w.2 hc
    subst same
    rcases d'.homes file (d.clean hc) ((d.kept notLocal).outer outer) f hf with hf | hf
    · exact d.homes file hc outer f hf
    · exact .inr hf

lemma nextDeclarator_sound (hg : g.Sound) (w : Words s storage storage') {spec : TypeSpec} {done : List Tree}
    (hs : s.Sound) (d : Declares storage s s1) (inits : Inits s s1 done) :
    Runs (nextDeclarator g spec storage' end1 end2 done) s1 (fun r s' =>
      Declares storage s s' ∧ Inits s s' (r.elim (fun done => done) fun whole => whole.2)) Breaks := by
  refine (silent.stars s1 d.sound).bind ?_
  rintro t s2 q2
  refine (declarator_sound hg q2.sound).bind ?_
  rintro ⟨id, init⟩ s3 ⟨d3, inits3⟩
  have inits := inits.later d.toLeads (q2.toLeads.trans d3.toLeads)
  have inits3 := inits3.earlier hs (d.toLeads.trans q2.toLeads) d3.toLeads
  have d := w.declares d ((q2.declares storage').trans d3)
  have both : Inits s s3 (done ++ init.toList) := by
    intro t ht
    exact (List.mem_append.mp ht).elim (inits t) (inits3 t)
  simp only [runs_symbol, runs_ite, runs_isAt, runs_pure, runs_expect]
  refine ⟨fun _ => ⟨d, inits⟩, fun _ => ⟨fun _ => ⟨d, both⟩, fun _ => ⟨fun _ => ?_, fun _ => d.sound.breaks _⟩⟩⟩
  have q := Quiet.advanced d.sound
  exact ⟨d.trans (q.declares storage), both.later d.toLeads q.toLeads⟩

theorem declaration_sound (hg : g.Sound) (hs : s.Sound) : Runs (declaration g storage end1 end2) s
      (fun r s' => Declares storage s s' ∧ Inits s s' r.2) Breaks := by
  refine (typeSpec_sound hg hs).bind ?_
  rintro ⟨spec, storage'⟩ s1 ⟨q1, words⟩
  have start : Declares storage s s1 ∧ Inits s s1 [] := ⟨q1.declares storage, by simp [Inits]⟩
  simp only [runs_ite, runs_pure]
  refine ⟨fun _ => start, fun _ => ?_⟩
  refine Runs.iterate (fun done s' => Declares storage s s' ∧ Inits s s' done) start
    (fun _ _ h => h.1.sound.breaks _) ?_
  rintro done s2 ⟨d, inits⟩
  refine (nextDeclarator_sound hg words hs d inits).mono ?_
  rintro (r | r) s3 h <;> exact h

end Parse
end SmallC
