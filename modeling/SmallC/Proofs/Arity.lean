import SmallC.Proofs.Lowering.Inside
import SmallC.Proofs.Redeclarations

/-!
# The number of parameters

A function has a list of parameters, and a number that calls and later declarations are compared with. The list
is collected while the parameters are declared, and the number is counted beside it. The two agree, and the
head in the code lists as many, unless `void` closes a list that has some, which then counts as empty, a word
of storage class stands in the declaration, or the name is declared as an array as well.
-/

namespace SmallC

open Ir Lower Parse ParseState

lemma Lower.HeadOf.names {ss : Symbols} {ids : List SymId} {params : List Param} (h : HeadOf ss ids params) :
    params.map (·.name) = ids.map fun id => (ss.get id).name := by
  obtain ⟨heads, -⟩ := h
  induction heads with
  | nil => rfl
  | cons head _ ih => rw [List.map_cons, List.map_cons, head.name, ih]

namespace SymbolTable

variable {a b st : SymbolTable} {id p : SymId}

/-- The number of parameters of a function is the length of their list. -/
def Even (st : SymbolTable) (id : SymId) : Prop := (st.get id).count = Int64.ofNat (st.get id).members.length

lemma even_iff : st.Even id ↔ (st.get id).count = Int64.ofNat (st.memberTypes id).length := by
  rw [Even, memberTypes, List.length_map]

lemma lookup_param (orderly : st.Orderly) (inside : st.function = some id) (mem : p ∈ (st.get id).members) :
    st.lookup (st.get p).name = some p := by
  have first : st.findIn (st.get id).members (st.get p).name = some p := by
    cases found : st.findIn (st.get id).members (st.get p).name with
    | none => exact absurd rfl (name_ne_of_findIn found mem)
    | some other =>
      obtain ⟨mem', name⟩ := mem_of_findIn found
      exact congrArg some (List.inj_on_of_nodup_map (orderly.inner id) mem' mem name)
  rw [lookup, findLocal, inside]
  simp only [first, Option.some_or]

end SymbolTable

namespace Parse

variable {name : Text} {t : CType} {ctype : Option SymId} {types : List CType} {a b : SymbolTable} {id : SymId}
  {params : List SymId} {s s' : ParseState}

lemma Signs.even (h : Signs False name t ctype types a b id) (before : ∀ f, a.findGlobal name = some f → a.Even f) :
    b.Even id := by
  rw [SymbolTable.even_iff]
  cases h with
  | new fresh gains type definition own count => rw [own, count.resolve_left not_false]
  | again found gains fits own counted count =>
    rw [count]
    rcases own with same | same
    · rw [same]
      exact SymbolTable.even_iff.mp (before id found)
    · rw [same, counted.resolve_left not_false]

lemma Finishes.head (lt : id < s.table.symbols.size) (function : (s.table.get id).kind = .function)
    (h : Finishes id params s s') (quiet : ¬ s.Worded s') : (s'.table.get id).members = params ∧
      ∃ before exported c ps code,
        s'.out.lines.toList = before ++ .opening exported c (s'.table.get id).name ps :: code ∧
          ps.map (·.name) = params.map fun p => (s'.table.get p).name := by
  obtain ⟨-, members, -⟩ := h.gains lt function quiet
  refine ⟨members, ?_⟩
  obtain ⟨undefined, reads, written⟩ := h
  rename_i s1 info body out
  have get := get_left s1 (d := s1.definition info id body) out rfl
  obtain ⟨-, -, c, ps, code, lines, -, head⟩ := Emitter.function_lines written
  have names := head.names
  change ps.map _ = (s1.table.get id).members.map fun p => (s1.table.get p).name at names
  rw [get id] at members
  refine ⟨s1.out.lines.toList, (s1.table.get id).storage = .global, c, ps,
    code ++ [.ret ((s1.table.get id).type ≠ .void), .closing], ?_, ?_⟩
  · rw [get id]
    exact lines
  · rw [names, ← members]
    exact List.map_congr_left fun p _ => (congrArg Symbol.name (get p)).symm

end Parse

/-- The number of parameters of a function is that of its list, after every file and after every declaration of a
function, where `void` closes no list that has some and no word of storage class stands inside of the
declaration. A body makes the parameters that stand before it those of the function, and the head in the code
lists them. Inside of the function their names stand for them, but for those of constants. -/
theorem function_arities (n : Nat) :
    (∀ (file : Text) (tokens : List Token) (s : ParseState), Parse.file (Session.start { file } tokens) = .ok () s →
      ∃ u, survey (Session.start { file } tokens) = .ok u s ∧ (u.Plain →
        ¬ [TokenKind.comma, .voidKw, .rparen] <:+: tokens.map (·.kind) → ∀ f ∈ s.table.globals,
          (s.table.get f).kind = .function →
          (∀ d ∈ u.names, d.name = (s.table.get f).name → d.kind ≠ .array) → s.table.Even f)) ∧
    (∀ (name : Text) (t : CType) (ctype : Option SymId) (storage : StorageClass) (s s' : ParseState) (id : SymId),
      storage.isFileScope = true → s.table.Outside → (∀ f, s.table.findGlobal name = some f → s.table.Even f) →
      function (grammar n) name t ctype storage s = .ok id s' → ¬ s.Worded s' → ¬ s.Trails → s'.table.Even id) ∧
    (∀ (id : SymId) (params : List SymId) (info : Info) (name : Text) (s s' : ParseState),
      id < s.table.symbols.size → (s.table.get id).kind = .function →
      bodyIfAny (grammar n) id params info name s = .ok () s' → ¬ s.Worded s' →
      s' = s ∨ (s'.table.get id).members = params ∧ ∃ before exported c ps code,
        s'.out.lines.toList = before ++ .opening exported c (s'.table.get id).name ps :: code ∧
          ps.map (·.name) = params.map fun p => (s'.table.get p).name) ∧
    ∀ (s : ParseState) (id p : SymId), s.table.Orderly → s.table.function = some id →
      p ∈ (s.table.get id).members → s.table.findEnumVal (s.table.get p).name = none →
      resolve (s.table.get p).name s = .ok (.symbol p) s := by
  refine ⟨fun file tokens s run => ?_, fun name t ctype storage s s' id fileScope outside before run quiet full => ?_,
    fun id params info name s s' lt function run quiet => ?_, fun s id p orderly inside mem none => ?_⟩
  · obtain ⟨u, surveyed, -⟩ := shadows_file _ _ _ run
    obtain ⟨-, agrees⟩ := survey_agrees (s := Session.start { file } tokens) .empty .empty u s surveyed
    refine ⟨u, surveyed, fun plain full f mem function none => SymbolTable.even_iff.mpr ?_⟩
    have number := (agrees.told (not_not.mpr plain) f mem).filled function
    exact ((number.resolve_left full).resolve_left fun ⟨e, mem, name, array⟩ => none e mem name array).symm
  · obtain ⟨types, signs⟩ := function_signs (grammar_going n) fileScope (outside.lookup name) outside.params
      outside.orderly.known id s' run quiet
    rw [eq_false full] at signs
    exact signs.even before
  · exact (bodyIfAny_course (grammar_going n) id params info name () s' run).imp_right fun ends =>
      ends.head lt function quiet
  · have found := SymbolTable.lookup_param orderly inside mem
    unfold resolve
    change EStateM.bind Parse.table _ s = _
    rw [EStateM.bind, show Parse.table s = .ok s.table s from rfl]
    dsimp only
    rw [none, found]
    rfl

theorem function_arities_mixed :
    let source : Text :=
      "int f(int a, char *b); static int g(void) \x7b return 0; \x7d int f(int k, char *l) \x7b return k; \x7d"
    ∃ s, Parse.file (Session.start { file := "t.c" } (lex source "t.c").1) = .ok () s ∧
      ∀ f ∈ s.table.globals, (s.table.get f).kind = .function → s.table.Even f := by
  intro source
  obtain ⟨code, ok⟩ := exists_of_isSome (x := (Session.compile { file := "t.c" } source).1.outcome)
    (by decide +kernel)
  obtain ⟨tokens, s, lexed, run, -⟩ := Session.compile_eq_ok.mp ok
  have same : (lex source "t.c").1 = tokens := congrArg Prod.fst lexed
  obtain ⟨u, surveyed, even⟩ := (function_arities 0).1 "t.c" tokens s run
  have facts : (surveyOf "t.c" source).map (fun u => (decide u.Plain, u.names.map (·.kind))) =
      some (true, [.function, .function, .function]) := by decide +kernel
  rw [surveyOf, same, surveyed, Option.map_some, Option.some.injEq, Prod.mk.injEq, decide_eq_true_eq] at facts
  refine ⟨s, same ▸ run, fun f mem function => even facts.1 (same ▸ by decide +kernel) f mem function ?_⟩
  intro d mem _
  have kind := List.mem_map_of_mem (f := (·.kind)) mem
  rw [facts.2] at kind
  rw [show d.kind = .function by simpa using kind]
  exact Kind.noConfusion

/-- A `void` at the end of a list counts the list as empty. -/
theorem compile_counts_void :
    let source : Text := "int f(int a, void) \x7b return a; \x7d"
    let st := (Session.compile { file := "t.c" } source).2.table
    (Session.compile { file := "t.c" } source).1.outcome.toOption.isSome = true ∧
      st.globals.map (fun f => ((st.get f).count, (st.get f).members.length)) = [(0, 1)] := by
  decide +kernel

end SmallC
