import SmallC.Proofs.Labels
import SmallC.Proofs.Positions.Files

/-!
# What names stand for

A name in an expression stands for the parameter or local of that name if the function at hand has one, and
otherwise for what file scope has. A constant of an enumeration is the exception: it hides all else, also the
parameters and locals of its name.

So a source is read as by the rule that looks inside first, up to a name where a constant hides something. This
is said with a rule between the two that gives up there: as far as it goes, both others go with it.
-/

namespace SmallC

open Parse

variable {rule : Text → Parse Referent}

namespace Parse

def innermost (name : Text) : Parse Referent := do
  let st ← table
  match st.findIn st.scope name, st.findEnumVal name, st.findGlobal name with
  | some id, _, _ => return .symbol id
  | none, some id, _ => return .constant (st.get id).value
  | none, none, some id => return .symbol id
  | none, none, none => fail (.unknownName name)

def hides (st : SymbolTable) (name : Text) : Bool :=
  (st.findEnumVal name).isSome && (st.findIn st.scope name).isSome

/-- Gives up at a name where a constant hides a parameter or local. -/
def unhidden (name : Text) : Parse Referent := do
  if hides (← table) name then fail .exhausted else resolve name

variable {c : Comparison} {s : ParseState} {name : Text}

lemma mirrored_innermost (name : Text) : Mirrored c id (innermost name) (innermost name) := by
  refine mirrored_table.bind fun st => ?_
  dsimp only [id]
  split
  · exact mirrored_pure rfl
  · exact mirrored_pure rfl
  · exact mirrored_pure rfl
  · exact mirrored_fail

lemma innermost_eq_resolve (h : ¬ hides s.table name) : innermost name s = resolve name s := by
  unfold innermost resolve
  change EStateM.bind table _ s = EStateM.bind table _ s
  have known : table s = .ok s.table s := rfl
  rw [EStateM.bind, EStateM.bind, known]
  dsimp only
  rw [SymbolTable.lookup, SymbolTable.findLocal_eq]
  unfold hides at h
  cases inner : s.table.findIn s.table.scope name <;> cases constant : s.table.findEnumVal name
  · cases s.table.findGlobal name <;> rfl
  · rfl
  · rfl
  · simp [inner, constant] at h

lemma mirrored_unhidden (wider : c.wider)
    (usual : ∀ s : ParseState, ¬ hides s.table name → rule name s = resolve name s) :
    Mirrored c id (unhidden name) (rule name) := by
  have usually := (mirrored (c := c)).resolve name
  refine ⟨fun s => ends_table.mpr (ends_ite.mpr ⟨fun _ => ends_fail.mpr trivial, fun _ => usually.shrinks s⟩),
    fun s s' mirrors => ?_⟩
  have run : unhidden name s = (if hides s.table name then fail .exhausted else resolve name : Parse Referent) s := rfl
  by_cases hidden : hides s.table name
  · rw [run, if_pos hidden]
    exact .inl (.inl ⟨wider, rfl⟩)
  · rw [run, if_neg hidden, usual s' (mirrors.table ▸ hidden)]
    exact usually.mirrors s s' mirrors

end Parse

/-- The code of a source and its functions without places, where a rule says what names stand for. -/
def compileBy (rule : Text → Parse Referent) (source file : Text) : Option (Text × List Definition) :=
  match lex source file with
  | (_, some _) => none
  | (ts, none) =>
    match fileBy rule (Session.start { file } ts) with
    | .ok _ u => some (u.out.text, u.functions.toList.map Definition.unplaced)
    | .error .. => none

lemma compileBy_of_unhidden {source file : Text} {r : Text × List Definition}
    (usual : ∀ name, ∀ s : ParseState, ¬ hides s.table name → rule name s = resolve name s)
    (self : ∀ (c : Comparison) name, Parse.Mirrored c id (rule name) (rule name))
    (h : compileBy unhidden source file = some r) : compileBy rule source file = some r := by
  unfold compileBy at h ⊢
  split at h
  · cases h
  · rename_i ts lexed
    -- both readings are set beside one of the tokens without places, by the second rule
    have begins := Session.start_mirrors { file } { file } rfl rfl ts
    have wider : Comparison.Mirrors { wider := True } (Session.start { file } ts) _ :=
      ⟨begins.rest, begins.bound.imp_right fun none => none.1.elim, begins.table, begins.out, begins.functions,
        begins.levels⟩
    have first := (mirrored_fileBy fun _ name => mirrored_unhidden trivial (usual name)).mirrors _ _ wider
    have second := (mirrored_fileBy fun _ name => self _ name).mirrors _ _ begins
    split at h
    · rename_i u run
      rw [run] at first
      obtain ⟨t, common, mirrors⟩ := first (.inl rfl)
      cases run' : fileBy rule (Session.start { file } ts) with
      | ok a v =>
        rw [run'] at second
        obtain ⟨t', same, mirrors'⟩ := second (.inl rfl)
        cases common.symm.trans same
        have functions : v.functions.map Definition.unplaced = u.functions.map Definition.unplaced := by
          simpa using mirrors'.functions.symm.trans mirrors.functions
        have out : v.out = u.out := mirrors'.out.symm.trans mirrors.out
        simpa [← Array.toList_map, functions, out] using h
      | error d v =>
        rw [run'] at second
        obtain excused | ⟨d', t', fails, -⟩ := second
        · exact absurd excused Comparison.not_excuses
        · cases common.symm.trans fails
    · cases h

/-- A name stands for the parameter or local of that name where there is one, and for what file scope has only
otherwise, unless a constant of an enumeration has that name too. A source without diagnostic is translated as by
this rule, to the same trees and the same code, or a name in it is met that stands for a constant and for a
parameter or local. What counts is the scope in the tables, which a function inside of another one takes away. -/
theorem compile_resolves {file source code : Text} (accepted : (compile source file).outcome = .ok code) :
    compileBy unhidden source file = none ∨
      compileBy innermost source file =
        some (code, (compile source file).functions.map Definition.unplaced) := by
  obtain ⟨ts, u, lexed, run, rfl⟩ := Session.compile_eq_ok.mp accepted
  have usual : compileBy resolve source file =
      some (u.out.text, (compile source file).functions.map Definition.unplaced) := by
    unfold compileBy
    rw [lexed]
    dsimp only
    change fileBy resolve _ = _ at run
    rw [run, compile, (Session.compile_of_file lexed run).2.1]
  cases read : compileBy unhidden source file with
  | none => exact .inl rfl
  | some r =>
    have same := compileBy_of_unhidden (fun _ _ _ => rfl) (fun _ => mirrored.resolve) read
    rw [usual] at same
    rw [same]
    exact .inr (compileBy_of_unhidden (fun _ _ => innermost_eq_resolve) (fun _ => mirrored_innermost) read)

theorem compile_resolves_shadowed :
    let source : Text := "enum e \x7b five = 5 \x7d; int x; int f(int x) \x7b int y; y = five; return x + y; \x7d
      int g() \x7b return x; \x7d"
    ∃ code, (compile source "t.c").outcome = .ok code ∧ compileBy innermost source "t.c" =
      some (code, (compile source "t.c").functions.map Definition.unplaced) := by
  intro source
  obtain ⟨code, ok⟩ := exists_of_isSome (x := (compile source "t.c").outcome) (by decide +kernel)
  have visible : (compileBy unhidden source "t.c").isSome = true := by decide +kernel
  exact ⟨code, ok, (compile_resolves ok).resolve_left (Option.isSome_iff_ne_none.mp visible)⟩

/-- A constant hides the parameter of its name. -/
theorem compile_returns_constant :
    let source : Text := "enum e \x7b x = 5 \x7d; int f(int x) \x7b return x; \x7d"
    let code (value : Text) : Text := "export function w $f(w %x, ) \x7b\n@L2\n  %.t1 =w copy " ++ value ++
      "\n  %.ret =w copy %.t1\n  jmp @L1\n@L1\n  ret %.ret\n\x7d\n"
    (compile source "t.c").outcome.toOption = some (code "5") ∧
      (compileBy innermost source "t.c").map (·.1) = some (code "%x") := by
  decide +kernel

end SmallC
