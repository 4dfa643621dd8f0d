import SmallC.Proofs.Parse.Statement

/-!
# Reading files

Every part of the grammar keeps what is asked of it, at every depth. So a file that is compiled
without a diagnostic leaves a sound state behind: its lines are those of its functions and data.
-/

namespace SmallC

open ParseState Parse

variable {source : Text} {g : Grammar}

lemma Grammar.empty_sound : (Grammar.empty Parse.resolve).Sound where
  expression hs := ⟨rfl, hs.breaks _⟩
  unaryExpression hs := ⟨rfl, hs.breaks _⟩
  typeSpec hs := ⟨rfl, hs.breaks _⟩
  declaration _ _ _ hs _ _ := ⟨rfl, hs.breaks _⟩
  statement hs := ⟨rfl, hs.breaks _⟩
  block hs := ⟨rfl, hs.breaks _⟩
  resolve := resolve_sound

lemma Grammar.deeper_sound (hg : g.Sound) : g.deeper.Sound where
  expression hs := (silent.expression (Grammar.has hg) _ hs).given (expression_ends hg hs)
  unaryExpression hs := (silent.unaryExpression (Grammar.has hg) _ hs).given (unaryExpression_ends hg hs)
  typeSpec hs := (typeSpec_sound hg hs).mono fun _ _ h => h.1
  declaration _ _ _ hs notLocal inner :=
    (declaration_sound hg hs).mono fun _ _ h => h.1.quiet notLocal inner
  statement hs := statement_sound hg hs
  block hs := block_sound hg hs
  resolve := hg.resolve

theorem grammar_sound {depth : Nat} : (grammar depth).Sound := by
  induction depth with
  | zero => exact Grammar.empty_sound
  | succ depth ih => exact Grammar.deeper_sound ih

namespace Parse

variable {s : ParseState}

lemma declarations_sound (hg : g.Sound) (hs : s.Sound) :
    Runs (declarations g) s (fun _ s' => Declares .global s s') Breaks := by
  refine Runs.iterate (fun _ s' => Declares .global s s') ((Quiet.refl hs).declares _)
    (fun _ _ l => l.sound.breaks _) ?_
  rintro - s1 l
  simp only [nextDeclaration, runs_isAt, runs_ite, runs_pure]
  refine ⟨fun _ => l, fun _ => ?_⟩
  refine (declaration_sound hg l.sound).bind ?_
  rintro r s2 ⟨d, -⟩
  have l := l.trans d
  rw [runs_skip]
  split
  · exact l.trans ((Quiet.advanced l.sound).declares _)
  · exact l

theorem file_sound (hs : s.Sound) : Runs file s (fun _ s' => Declares .global s s') Breaks := by
  rw [file, fileBy, runs_get]
  exact declarations_sound grammar_sound hs

end Parse

lemma Session.start_sound (file : Text) (tokens : List Token) :
    (Session.start { file } tokens).Sound := by
  have none : ∀ f, ¬ f < (Session.start { file } tokens).table.symbols.size :=
    fun f => Nat.not_lt_zero f
  constructor
  case table =>
    constructor
    case function =>
      intro f hf
      cases hf
    case known =>
      intro f hf
      cases hf
    case locals | params =>
      intro f hf
      cases hf
    case globals =>
      intro f hf
      cases hf
    case defined => exact fun f hf => absurd hf (none f)
    case fit => exact fun f hf => absurd hf (none f)
  case positive => exact Int.le_refl 0
  case ends => exact fun f hf => absurd hf.1 (none f)
  case apart => exact fun f _ hf => absurd hf.1 (none f)
  case placed => exact fun f hf => absurd hf.1 (none f)
  case finished => simp [Session.start]
  case labels => simp [Session.start]
  case nodup => exact List.nodup_nil
  case layout => exact .nil

/-- The state that a source is left in if there is no diagnostic. -/
theorem compile_leads {file code : Text} (h : (Session.compile { file } source).1.outcome = .ok code) :
    ∃ s : ParseState, Declares .global (Session.start { file } (lex source file).1) s ∧
      (Session.compile { file } source).1.functions = s.functions.toList ∧
      (Session.compile { file } source).2.out = s.out ∧ code = Ir.render s.out.lines.toList := by
  obtain ⟨tokens, s, lexed, run, rfl⟩ := Session.compile_eq_ok.mp h
  obtain ⟨-, functions, session⟩ := Session.compile_of_file lexed run
  refine ⟨s, ?_, functions, congrArg Session.out session, rfl⟩
  rw [show (lex source file).1 = tokens from congrArg Prod.fst lexed]
  exact (file_sound (Session.start_sound file tokens)).ends () s run

/-- Every function whose body has been read has its shape, whether or not the rest is as it should be. -/
theorem compile_shaped {file : Text} : ∀ d ∈ (Session.compile { file } source).1.functions, d.Shaped := by
  intro d hd
  rcases lexed : lex source file with ⟨tokens, fault | diagnostic⟩
  · have runs := file_sound (Session.start_sound file tokens)
    cases run : Parse.file (Session.start { file } tokens) with
    | ok _ s =>
      rw [(Session.compile_of_file lexed run).2.1, Array.mem_toList_iff] at hd
      exact (runs.ends () s run).sound.breaks .exhausted d hd
    | error _ s =>
      rw [(Session.compile_of_error lexed run).2, Array.mem_toList_iff] at hd
      exact (runs.error run).2 d hd
  · simp [Session.compile, lexed] at hd

/-- Where no word of storage class stands, functions stand side by side: each refers to nothing but
its own variables and those of file scope, and no two of its variables share a name. -/
theorem functions_closed {file : Text} {s : ParseState}
    (leads : Declares .global (Session.start { file } (lex source file).1) s)
    (clean : ∀ t ∈ (lex source file).1, t.kind ≠ .staticKw ∧ t.kind ≠ .externKw) :
    ∀ d ∈ s.functions.toList, d.Closed ∧ d.Unshared := by
  intro d hd
  rw [Array.mem_toList_iff] at hd
  have outer : (Session.start { file } (lex source file).1).Outer := by
    refine ⟨rfl, rfl, ?_⟩
    exact List.nodup_nil
  constructor
  · rcases leads.inside clean d hd with old | ⟨-, closed⟩
    · exact absurd old (Array.not_mem_empty d)
    · exact closed
  · rcases leads.homes rfl clean outer d hd with old | unshared
    · exact absurd old (Array.not_mem_empty d)
    · exact unshared

end SmallC
