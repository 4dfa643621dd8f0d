import SmallC.Proofs.Labels
import SmallC.Proofs.Positions.Files
import SmallC.Proofs.Progress.Grammar
import SmallC.Proofs.Token.Segments

/-!
# Sources in pieces

A source may be compiled in pieces, one after another in a session, or at once with a line break between them.
Where the first piece ends with a semicolon and hides nothing, both come to the same: no declaration looks past
the last semicolon, since what it takes ends with another token.
-/

namespace SmallC

open Parse

variable {plain : Prop} {s t u s' : ParseState} {more : List Token} {last : Token}
variable {α β : Type} {n : Nat}
variable {step : α → Parse (α ⊕ β)} {a : α} (g : Grammar)

/-- A semicolon stands before the end, and nothing ends earlier. -/
def Closes (ts : List Token) : Prop :=
  ∃ (before : List Token) (stop last : Token), ts = before ++ [stop, last] ∧ stop.kind = .semicolon ∧
    last.kind = .eof ∧ ∀ t ∈ before, t.kind ≠ .eof

lemma Closes.after (h : Closes s.rest) (took : s.Took plain .whole t) : Closes t.rest := by
  obtain ⟨before, stop, last, rest, kind, eof, inner⟩ := h
  obtain ⟨ts, split, -, -, solid⟩ := took.tokens
  have notSolid {u : Token} (mem : u ∈ [stop, last]) : u.kind.isSolid = false := by
    rcases List.mem_pair.mp mem with rfl | rfl
    · rw [kind]
      rfl
    · rw [eof]
      rfl
  rcases List.append_eq_append_iff.mp (rest.symm.trans split) with ⟨taken, whole, ends⟩ | ⟨left, rfl, ends⟩
  · rcases List.eq_nil_or_concat taken with rfl | ⟨taken, u, rfl⟩
    · exact ⟨[], stop, last, ends.symm, kind, eof, nofun⟩
    · have isSolid := solid rfl u (by simp [whole])
      have mem : u ∈ [stop, last] := by simp [ends]
      rw [notSolid mem] at isSolid
      cases isSolid
  · exact ⟨left, stop, last, ends, kind, eof, fun t mem => inner t (List.mem_append_right _ mem)⟩

lemma Closes.front (h : Closes s.rest) : s.front.kind ≠ .eof := by
  obtain ⟨before, stop, last, rest, kind, -, inner⟩ := h
  rw [ParseState.front, rest]
  cases before with
  | nil =>
    change stop.kind ≠ .eof
    rw [kind]
    decide
  | cons t before => exact inner t List.mem_cons_self

/-- The second reading has come to the tokens that the first one does not have. -/
structure Rejoins (more : List Token) (s s' : ParseState) : Prop where
  ends : s.front.kind = .eof
  rest : s'.rest = more
  table : s'.table = s.table
  out : s'.out = s.out

/-- The comparison with a reading that has `more` after the last semicolon. -/
def onwardWith (more : List Token) : Comparison := { wider := True, onward := some more }

lemma skip_rejoins (closes : Closes s.rest) (mirrors : (onwardWith more).Mirrors s s') :
    ∃ t t', skip .semicolon s = .ok () t ∧ skip .semicolon s' = .ok () t' ∧
      (Closes t.rest ∧ (onwardWith more).Mirrors t t' ∨ Rejoins more t t') := by
  have kinds : s'.front.kind = s.front.kind := by rw [mirrors.front, Token.unplaced]
  rw [skip_eq, skip_eq, kinds]
  refine ⟨_, _, rfl, rfl, ?_⟩
  split
  · obtain ⟨before, stop, last, rest, kind, eof, inner⟩ := closes
    cases before with
    | nil =>
      obtain ⟨before', stop', last', rest', -, ahead⟩ := mirrors.rest
      obtain rfl : before' = [] := by
        have := congrArg List.length (rest.symm.trans rest')
        simpa using this
      refine .inr ⟨?_, ?_, mirrors.table, mirrors.out⟩
      · rw [ParseState.front, ParseState.advanced, rest]
        exact eof
      · rw [ParseState.advanced, ahead]
        rfl
    | cons t before =>
      have left : s.advanced.rest = before ++ [stop, last] := by
        rw [ParseState.advanced, rest]
        rfl
      refine .inl ⟨⟨before, stop, last, left, kind, eof, fun t mem => inner t (List.mem_cons_of_mem _ mem)⟩, ?_⟩
      exact mirrors.advanced (.inr (by simp [left]))
  · exact .inl ⟨closes, mirrors⟩

lemma nextDeclaration_eq (more : s.front.kind ≠ .eof) : nextDeclaration g () s = (do
      let _ ← declaration g .global .semicolon .eof
      skip .semicolon
      return .inl () : Parse (Unit ⊕ Unit)) s := by
  change (if decide (s.front.kind = .eof) = true then _ else _ : Parse (Unit ⊕ Unit)) s = _
  rw [if_neg (by simp [more])]

lemma nextDeclaration_end (ends : s.front.kind = .eof) : nextDeclaration g () s = .ok (.inr ()) s := by
  change (if decide (s.front.kind = .eof) = true then _ else _ : Parse (Unit ⊕ Unit)) s = _
  rw [if_pos (decide_eq_true ends)]
  rfl

lemma nextDeclaration_rejoins {g g' : Grammar} {r : Unit ⊕ Unit} (hg : g.Takes plain n)
    (hg' : g.Mirrored (onwardWith more) g') (fits : s.Fits plain (n + 1)) (closes : Closes s.rest)
    (mirrors : (onwardWith more).Mirrors s s') (run : nextDeclaration g () s = .ok r t) :
    r = .inl () ∧ ∃ t', nextDeclaration g' () s' = .ok (.inl ()) t' ∧
      (Closes t.rest ∧ (onwardWith more).Mirrors t t' ∨ Rejoins more t t') := by
  have kinds : s'.front.kind = s.front.kind := by rw [mirrors.front, Token.unplaced]
  rw [nextDeclaration_eq g closes.front] at run
  rw [nextDeclaration_eq g' (kinds ▸ closes.front)]
  obtain ⟨d, s1, first, run⟩ := bind_eq_ok.mp run
  obtain ⟨_, s2, second, run⟩ := bind_eq_ok.mp run
  obtain ⟨rfl, rfl⟩ := pure_eq_ok.mp run
  have whole : s.Took plain .whole s1 := by
    have taken : Parse.Takes plain (n + 1) .idle (fun _ => True) (declaration g .global .semicolon .eof) fun _ => .whole :=
      takes_declaration hg (fun _ => by decide) _ _
    exact (taken s s fits (.refl fits.table) trivial).ends _ _ first
  have closes1 := closes.after whole
  have two : 2 ≤ s1.rest.length := by
    obtain ⟨before, stop, last, rest, -⟩ := closes1
    simp [rest]
  have same := (mirrored_declaration hg' .global .semicolon .eof).mirrors s s' mirrors
  rw [first] at same
  obtain ⟨s1', first', mirrors1⟩ := same (.inr two)
  obtain ⟨s2, s2', skipped, skipped', rejoins⟩ := skip_rejoins closes1 mirrors1
  cases second.symm.trans skipped
  refine ⟨rfl, s2', ?_, rejoins⟩
  exact bind_eq_ok.mpr ⟨_, s1', first', bind_eq_ok.mpr ⟨(), s2', skipped', rfl⟩⟩

lemma iterateUpTo_inl {b : α} (run : step a s = .ok (.inl b) t) (bound : Nat) :
    iterateUpTo step (bound + 1) a s = iterateUpTo step bound b t := by
  change EStateM.bind (step a) _ s = _
  rw [EStateM.bind, run]

lemma iterateUpTo_inr {b : β} (run : step a s = .ok (.inr b) t) (bound : Nat) :
    iterateUpTo step (bound + 1) a s = .ok b t := by
  change EStateM.bind (step a) _ s = _
  rw [EStateM.bind, run]
  rfl

lemma declarations_rejoin {n' m m' : Nat} (deeper : n ≤ n') (fits : s.Fits plain (n + 1))
    (fits' : s'.Fits False (n' + 1)) (closes : Closes s.rest)
    (mirrors : (onwardWith more).Mirrors s s') (enough : s'.rest.length < m')
    (run : iterateUpTo (nextDeclaration (grammar n)) m () s = .ok () u) :
    ∃ k u', iterateUpTo (nextDeclaration (grammar n')) m' () s' =
        iterateUpTo (nextDeclaration (grammar n')) k () u' ∧
      more.length < k ∧ u'.Fits False (n' + 1) ∧ Rejoins more u u' := by
  induction m generalizing s s' m' with
  | zero => cases run
  | succ m ih =>
    obtain ⟨m', rfl⟩ := Nat.exists_eq_succ_of_ne_zero (Nat.ne_of_gt (Nat.zero_lt_of_lt enough))
    obtain ⟨r, t, first, -⟩ := bind_eq_ok.mp run
    obtain ⟨rfl, t', first', rejoins⟩ := nextDeclaration_rejoins (grammar_takes n)
      (grammar_mirrored (.inr ⟨trivial, deeper⟩)) fits closes mirrors first
    rw [iterateUpTo_inl first] at run
    rw [iterateUpTo_inl first']
    have took : s.Took plain .some t :=
      (takes_nextDeclaration (grammar_takes n) () s s fits (.refl fits.table) trivial).ends _ _ first
    have took' : s'.Took False .some t' :=
      (takes_nextDeclaration (grammar_takes n') () s' s' fits' (.refl fits'.table) trivial).ends _ _ first'
    have fewer : t'.rest.length < m' := Nat.lt_of_lt_of_le (took'.length_lt rfl) (Nat.le_of_lt_succ enough)
    rcases rejoins with ⟨closes, mirrors⟩ | rejoins
    · exact ih (took.fits fits) (took'.fits fits') closes mirrors fewer run
    · cases m with
      | zero => cases run
      | succ m =>
        rw [iterateUpTo_inr (nextDeclaration_end _ rejoins.ends)] at run
        cases run
        exact ⟨m', t', rfl, rejoins.rest ▸ fewer, took'.fits fits', rejoins⟩

lemma Parse.file_eq (s : ParseState) :
    Parse.file s = iterateUpTo (nextDeclaration (grammar s.bound)) s.bound () s := rfl

lemma file_rejoins (fits : s.Fits plain (s.bound + 1)) (fits' : s'.Fits False (s'.bound + 1))
    (deeper : s.bound ≤ s'.bound) (closes : Closes s.rest) (mirrors : (onwardWith more).Mirrors s s')
    (run : Parse.file s = .ok () u) :
    ∃ k u', Parse.file s' = iterateUpTo (nextDeclaration (grammar s'.bound)) k () u' ∧ more.length < k ∧
      u'.Fits False (s'.bound + 1) ∧ Rejoins more u u' := by
  rw [Parse.file_eq] at run ⊢
  exact declarations_rejoin deeper fits fits' closes mirrors fits'.bound run

/-! ## The second piece -/

lemma SymbolTable.Plain.purgeStatics_eq {st : SymbolTable} (h : st.Plain) : st.purgeStatics = st := by
  have all : st.globals.filter (fun id => (st.get id).storage ≠ .static) = st.globals :=
    List.filter_eq_self.mpr fun id _ => decide_eq_true (h id)
  rw [SymbolTable.purgeStatics, all]

/-- Readings that are set beside each other end well together, with the same code, if no bound ends the
first one. -/
lemma Parse.Mirrored.ok_iff {c : Comparison} {f : α → β} {x : Parse α} {y : Parse β}
    (h : Mirrored c f x y) (none : c.onward = none) (mirrors : c.Mirrors s s')
    (bounded : ∀ d t, x s = .error d t → d.fault ≠ .exhausted) (out : Emitter) :
    (∃ a t, x s = .ok a t ∧ t.out = out) ↔ ∃ b t, y s' = .ok b t ∧ t.out = out := by
  have both := h.mirrors s s' mirrors
  cases run : x s with
  | ok a t =>
    rw [run] at both
    obtain ⟨t', run', mirrors'⟩ := both (.inl none)
    rw [run']
    constructor
    · rintro ⟨_, _, same, rfl⟩
      cases same
      exact ⟨_, _, rfl, mirrors'.out⟩
    · rintro ⟨_, _, same, rfl⟩
      cases same
      exact ⟨_, _, rfl, mirrors'.out.symm⟩
  | error d t =>
    rw [run] at both
    rcases both with (⟨-, exhausted⟩ | onward) | ⟨d', t', run', -⟩
    · exact absurd exhausted (bounded d t run)
    · exact absurd none onward
    · rw [run']
      constructor
      · rintro ⟨_, _, same, -⟩
        cases same
      · rintro ⟨_, _, same, -⟩
        cases same

def lastKind (ts : List Token) : Option TokenKind := ts.dropLast.getLast?.map (·.kind)

lemma exists_of_lastKind {before : List Token} {kind : TokenKind} (h : lastKind (before ++ [last]) = some kind) :
    ∃ front stop, before = front ++ [stop] ∧ stop.kind = kind := by
  rw [lastKind, List.dropLast_concat] at h
  obtain ⟨stop, is, rfl⟩ := Option.map_eq_some_iff.mp h
  obtain ⟨front, rfl⟩ := List.getLast?_eq_some_iff.mp is
  exact ⟨front, stop, rfl, rfl⟩

namespace Session

variable {bs : List Token} {stop : Token}

lemma file_ne_exhausted (s : Session) (ts : List Token) {d : Diagnostic}
    (ended : Parse.file (s.start ts) = .error d t) : d.fault ≠ .exhausted :=
  ((s.runs_file False ts nofun nofun).error ended).2.1

lemma start_onward {file : Text} {front : List Token} (kind : stop.kind = .semicolon) (some : more ≠ []) :
    (onwardWith more).Mirrors (start { file } (front ++ [stop] ++ [last]))
      (start { file } ((front ++ [stop]).map Token.unplaced ++ more)) where
  rest := ⟨front, stop, last, by simp [start], kind, by simp [start]⟩
  bound := by
    have := List.length_pos_iff.mpr some
    refine .inr ⟨trivial, ?_⟩
    simp only [start, List.length_append, List.length_map, List.length_singleton]
    omega
  table := rfl
  out := rfl
  functions := by simp [start, onwardWith]
  levels _ := ⟨rfl, rfl⟩

lemma start_rejoins {s : Session} {k : Nat} {u' : ParseState} (rejoins : Rejoins (bs.map Token.unplaced) u u')
    (fits : u'.Fits False (n + 1)) (table : s.table = u.table) (out : s.out = u.out) (rounds : bs.length < k)
    (depth : bs.length < n) (out' : Emitter) : (∃ a t, Parse.file (s.start bs) = .ok a t ∧ t.out = out') ↔
      ∃ a t, iterateUpTo (nextDeclaration (grammar n)) k () u' = .ok a t ∧ t.out = out' := by
  let c : Comparison := { wider := True, before := u'.functions, levels := False }
  have mirrors : c.Mirrors (s.start bs) u' := by
    refine ⟨rejoins.rest, .inr ⟨trivial, ?_⟩, ?_, ?_, ?_, nofun⟩
    · have bound := fits.bound
      rw [rejoins.rest, List.length_map] at bound
      exact bound
    · exact rejoins.table.trans table.symm
    · exact rejoins.out.trans out.symm
    · simp [start, c]
  have both : Parse.Mirrored c id (iterateUpTo (nextDeclaration (grammar (s.start bs).bound)) (s.start bs).bound ())
      (iterateUpTo (nextDeclaration (grammar n)) k ()) :=
    .iterateUpTo (mirrored_nextDeclaration (grammar_mirrored (.inr ⟨trivial, depth⟩))) (.inr ⟨trivial, rounds⟩) ()
  rw [Parse.file_eq]
  exact both.ok_iff rfl mirrors (fun d t ended => s.file_ne_exhausted bs ((Parse.file_eq _).trans ended)) out'

lemma file_pieces {file : Text} {front after : List Token} (kind : stop.kind = .semicolon)
    (eof : last.kind = .eof) (inner : ∀ t ∈ front ++ [stop], t.kind ≠ .eof) (some : bs ≠ [])
    (alike : after.map Token.content = bs.map Token.content)
    (words : ∀ t ∈ front ++ [stop] ++ [last], t.kind ≠ .staticKw)
    (run : Parse.file (start { file } (front ++ [stop] ++ [last])) = .ok () u) (out : Emitter) :
    (∃ a t, Parse.file (start { file, table := u.table.purgeStatics, out := u.out } bs) = .ok a t ∧ t.out = out) ↔
      ∃ a t, Parse.file (start { file } (front ++ [stop] ++ after)) = .ok a t ∧ t.out = out := by
  let ts := front ++ [stop] ++ [last]
  let all := (front ++ [stop]).map Token.unplaced ++ bs.map Token.unplaced
  have shown : (front ++ [stop] ++ after).map Token.unplaced = all := by
    have same := congrArg (List.map fun c => ({ kind := c.1, lexeme := c.2.1, value := c.2.2 } : Token)) alike
    rw [List.map_map, List.map_map] at same
    exact (List.map_append).trans (congrArg (_ ++ ·) same)
  have longer : ts.length ≤ all.length := by
    have := List.length_pos_iff.mpr some
    simp only [ts, all, List.length_append, List.length_map, List.length_singleton]
    omega
  -- the first piece leaves nothing that the second one does not see
  have fresh : SymbolTable.Plain {} := fun _ => nofun
  have plain : u.table.Plain :=
    ((runs_file True { file } ts (fun _ => words) fun _ => fresh).ends _ _ run).table trivial
  have closes : Closes (start { file } ts).rest :=
    ⟨front, stop, last, List.append_assoc _ _ _, kind, eof, fun t mem => inner t (List.mem_append_left _ mem)⟩
  obtain ⟨k, u', rest, rounds, fits, rejoins⟩ := file_rejoins
    (start_fits True { file } ts (fun _ => words) fun _ => fresh)
    (start_fits False { file } all nofun nofun) (Nat.succ_le_succ longer) closes
    (start_onward kind (by simpa using some)) run
  have same := mirrored_file.ok_iff rfl (start_mirrors { file } { file } rfl rfl (front ++ [stop] ++ after))
    (fun d t ended => file_ne_exhausted _ _ ended) out
  rw [same, shown, rest]
  refine start_rejoins rejoins fits plain.purgeStatics_eq rfl (by simpa using rounds) ?_ out
  simp only [all, start, List.length_append, List.length_map]
  omega

end Session

lemma lex_ne_nil {file source : Text} {ts : List Token} (h : lex source file = (ts, none)) : ts ≠ [] := by
  obtain ⟨before, last, -, rfl, -⟩ := lex_line h []
  exact List.append_ne_nil_of_right_ne_nil _ (List.cons_ne_nil _ _)

/-- A source may be compiled in pieces. Where the first piece is without diagnostic, ends with a semicolon
and has no word `static`, compiling the second piece in the same session succeeds exactly if compiling both
at once does, with a line break between them, and the code is the same. -/
theorem compile_pieces {file a code : Text} (accepted : (Session.compile { file } a).1.outcome = .ok code)
    (closed : lastKind (lex a file).1 = some .semicolon) (words : ∀ t ∈ (lex a file).1, t.kind ≠ .staticKw)
    (b text : Text) :
    (Session.compile (Session.compile { file } a).2 b).1.outcome = .ok text ↔
      (Session.compile { file } (a ++ 10 :: b)).1.outcome = .ok text := by
  obtain ⟨ts, u, lexed, run, -⟩ := Session.compile_eq_ok.mp accepted
  obtain ⟨before, last, after, rfl, eof, inner, whole, alike, ends⟩ := lex_line lexed b
  rw [lexed] at closed words
  obtain ⟨front, stop, rfl, kind⟩ := exists_of_lastKind closed
  rw [(Session.compile_of_file lexed run).2.2, Session.compile_eq_ok, Session.compile_eq_ok]
  constructor
  · rintro ⟨bs, t, lexed', run', rfl⟩
    change lex b file = _ at lexed'
    rw [lexed'] at alike ends
    obtain ⟨_, t', run2, out⟩ := (Session.file_pieces kind eof inner (lex_ne_nil lexed') alike words run _).mp
      ⟨(), t, run', rfl⟩
    exact ⟨_, t', Prod.ext whole (ends.mpr rfl), run2, by rw [out]⟩
  · rintro ⟨all, t, lexed', run', rfl⟩
    change lex (a ++ 10 :: b) file = _ at lexed'
    rw [lexed'] at whole ends
    obtain rfl : all = front ++ [stop] ++ after := whole
    have lexedB : lex b file = ((lex b file).1, none) := Prod.ext rfl (ends.mp rfl)
    obtain ⟨_, t', run2, out⟩ := (Session.file_pieces kind eof inner (lex_ne_nil lexedB) alike words run _).mpr
      ⟨(), t, run', rfl⟩
    exact ⟨_, t', lexedB, run2, by rw [out]⟩

theorem compile_pieces_declared :
    let a : Text := "extern int x; int f(int n);"
    let b : Text := "int x = 3; static int y; int f(int n) \x7b char *s; s = \"a\"; return x + y + n; \x7d"
    lastKind (lex a "t.c").1 = some .semicolon ∧ (∀ t ∈ (lex a "t.c").1, t.kind ≠ .staticKw) ∧
      ∃ text, (Session.compile (Session.compile { file := "t.c" } a).2 b).1.outcome = .ok text ∧
        (Session.compile { file := "t.c" } (a ++ 10 :: b)).1.outcome = .ok text := by
  intro a b
  have closed : lastKind (lex a "t.c").1 = some .semicolon := by decide +kernel
  have words : ∀ t ∈ (lex a "t.c").1, t.kind ≠ .staticKw := by decide +kernel
  obtain ⟨code, ok⟩ := exists_of_isSome (x := (Session.compile { file := "t.c" } a).1.outcome) (by decide +kernel)
  obtain ⟨text, pieces⟩ := exists_of_isSome
    (x := (Session.compile (Session.compile { file := "t.c" } a).2 b).1.outcome) (by decide +kernel)
  exact ⟨closed, words, text, pieces, (compile_pieces ok closed words b text).mp pieces⟩

end SmallC
