import SmallC.Proofs.LineMarker
import SmallC.Token.Lexer

/-!
# Where tokens stand

A token has the line and the file of the place where it begins, and the place follows from the
characters passed on the way to it. Only a line with a mark sets another place, and on such a line no
token but the end of the source stands. So the tokens of the line after a marker stand on the line that
the marker tells, and in its file if the marker was read whole.
-/

namespace SmallC

variable {cs : List Char} {p : Place}

namespace Place

lemma afterAll_append (p : Place) (cs ds : List Char) :
    p.afterAll (cs ++ ds) = (p.afterAll cs).afterAll ds :=
  List.foldl_append

lemma file_afterAll (p : Place) (cs : List Char) : (p.afterAll cs).file = p.file := by
  induction cs generalizing p with
  | nil => rfl
  | cons c cs ih =>
    have one : (p.after c).file = p.file := by
      unfold after
      split <;> rfl
    exact (ih (p.after c)).trans one

lemma line_afterAll (p : Place) (line : '\n' ∉ cs) : (p.afterAll cs).line = p.line := by
  induction cs generalizing p with
  | nil => rfl
  | cons c cs ih =>
    rw [List.mem_cons, not_or] at line
    have one : (p.after c).line = p.line := by rw [after, if_neg (Ne.symm line.1)]
    exact (ih (p.after c) line.2).trans one

/-- The characters that may stand on a line before a mark. -/
def isMargin (c : Char) : Bool := c = ' ' || c = '\t'

lemma isMargin_of_fresh (line : '\n' ∉ cs) (fresh : (p.afterAll cs).fresh = true) :
    p.fresh = true ∧ ∀ c ∈ cs, isMargin c = true := by
  induction cs generalizing p with
  | nil => exact ⟨fresh, fun _ h => absurd h List.not_mem_nil⟩
  | cons c cs ih =>
    rw [List.mem_cons, not_or] at line
    obtain ⟨one, rest⟩ := ih line.2 fresh
    rw [after, if_neg (Ne.symm line.1), Bool.and_eq_true] at one
    exact ⟨one.1, List.forall_mem_cons.mpr ⟨one.2, rest⟩⟩

end Place

namespace Cursor

variable {c c' c₁ c₂ c₃ next start : Cursor} {rest s₁ s₂ : List Char} {a : Char} {t : Token}

/-! ## Moving forward -/

/-- `c'` stands past the characters `seen`. -/
structure Passes (c : Cursor) (seen : List Char) (c' : Cursor) : Prop where
  rest : c.rest = seen ++ c'.rest
  place : c'.place = c.place.afterAll seen

lemma Passes.refl (c : Cursor) : c.Passes [] c := ⟨rfl, rfl⟩

lemma Passes.trans (first : c₁.Passes s₁ c₂) (second : c₂.Passes s₂ c₃) : c₁.Passes (s₁ ++ s₂) c₃ where
  rest := by rw [first.rest, second.rest, List.append_assoc]
  place := by rw [second.place, first.place, Place.afterAll_append]

lemma passes_cons (h : c.rest = a :: rest) : c.Passes [a] ⟨c.place.after a, rest⟩ := ⟨h, rfl⟩

lemma exists_passes_advance (c : Cursor) : ∃ seen, c.Passes seen c.advance := by
  unfold advance
  split
  · exact ⟨[], .refl c⟩
  · rename_i h
    exact ⟨_, passes_cons h⟩

lemma exists_passes_skip (n : Nat) (c : Cursor) : ∃ seen, c.Passes seen (c.skip n) := by
  induction n generalizing c with
  | zero => exact ⟨[], .refl c⟩
  | succ n ih =>
    obtain ⟨s₁, one⟩ := exists_passes_advance c
    obtain ⟨s₂, rest⟩ := ih c.advance
    exact ⟨s₁ ++ s₂, one.trans rest⟩

lemma passes_skipWhile {p : Char → Bool} : c.Passes (c.rest.takeWhile p) (c.skipWhile p) :=
  ⟨List.takeWhile_append_dropWhile.symm, rfl⟩

lemma exists_passes_commentEnd (h : commentEnd p cs = .ok c) : ∃ seen, Passes ⟨p, cs⟩ seen c := by
  fun_induction commentEnd p cs with
  | case1 p rest =>
    cases h
    exact ⟨['*', '/'], rfl, rfl⟩
  | case2 p a rest _ ih =>
    obtain ⟨seen, passes⟩ := ih h
    exact ⟨[a] ++ seen, (passes_cons rfl).trans passes⟩
  | case3 => cases h

lemma exists_passes_escape {v : Int32} (h : escape c = .ok (v, next)) : ∃ seen, c.Passes seen next := by
  unfold escape at h
  simp only at h
  split at h
  case h_8 =>
    cases h
    obtain ⟨seen, one⟩ := exists_passes_advance c
    exact ⟨_, one.trans passes_skipWhile⟩
  case h_9 =>
    split_ifs at h
    · cases h
      exact exists_passes_advance c
    · cases h
      exact exists_passes_skip _ c
    · cases h
  case h_10 => cases h
  all_goals
    cases h
    exact exists_passes_advance c

lemma exists_passes_stringBody {done : List Char} (h : stringBody c done = .ok (cs, c')) :
    ∃ seen, c.Passes seen c' := by
  fun_induction stringBody c done with
  | case1 => cases h
  | case2 c done rest hr =>
    cases h
    exact ⟨_, passes_cons hr⟩
  | case3 => cases h
  | case4 => cases h
  | case5 c done rest code next hr _ _ he ih =>
    obtain ⟨s₁, escaped⟩ := exists_passes_escape he
    obtain ⟨s₂, body⟩ := ih h
    exact ⟨_, (passes_cons hr).trans (escaped.trans body)⟩
  | case6 c done a rest hr _ _ _ ih =>
    obtain ⟨seen, body⟩ := ih h
    exact ⟨_, (passes_cons hr).trans body⟩

/-- A token `t` that ends before `next` has the place where it begins. -/
structure Scanned (c : Cursor) (t : Token) (next : Cursor) : Prop where
  line : t.line = c.place.line
  file : t.file = c.place.file
  passes : ∃ seen, c.Passes seen next

lemma scanned_token (passes : ∃ seen, c.Passes seen next) {kind : TokenKind} {lexeme : Text} {value : Int64} :
    c.Scanned (next.token kind lexeme c.place.line value) next where
  line := rfl
  file := by
    obtain ⟨seen, passes⟩ := passes
    exact (congrArg Place.file passes.place).trans (Place.file_afterAll _ _)
  passes := passes

lemma scanned_number (h : c.number = .ok (t, c')) : c.Scanned t c' := by
  unfold number at h
  simp only at h
  split at h
  · cases h
  · cases h
    obtain ⟨s, digits⟩ := exists_passes_skip (numberChars c.rest).length c
    exact scanned_token ⟨_, digits.trans passes_skipWhile⟩

lemma scanned_stringLiteral (h : c.stringLiteral = .ok (t, c')) : c.Scanned t c' := by
  unfold stringLiteral at h
  split at h
  · cases h
  · rename_i body
    cases h
    obtain ⟨s₁, mark⟩ := exists_passes_advance c
    obtain ⟨s₂, body⟩ := exists_passes_stringBody body
    exact scanned_token ⟨_, mark.trans body⟩

lemma scanned_charLiteral (h : c.charLiteral = .ok (t, c')) : c.Scanned t c' := by
  unfold charLiteral at h
  simp only at h
  split at h
  · cases h
  split at h
  · cases h
  rename_i code next content
  have inner : ∃ seen, c.advance.Passes seen next := by
    split at content
    · obtain ⟨s₁, mark⟩ := exists_passes_advance c.advance
      obtain ⟨s₂, code⟩ := exists_passes_escape content
      exact ⟨_, mark.trans code⟩
    · cases content
      exact exists_passes_advance c.advance
  split at h
  · cases h
  cases h
  obtain ⟨s₁, mark⟩ := exists_passes_advance c
  obtain ⟨s₂, inner⟩ := inner
  obtain ⟨s₃, close⟩ := exists_passes_advance next
  exact scanned_token ⟨_, (mark.trans inner).trans close⟩

lemma scanned_operator (h : c.operator a = .ok (t, c')) : c.Scanned t c' := by
  unfold operator at h
  split at h
  · cases h
  · cases h
    exact scanned_token (exists_passes_skip _ c)

lemma scanned_scan (h : c.scan = .ok (t, c')) : c.Scanned t c' := by
  unfold scan at h
  split at h
  · cases h
    exact scanned_token ⟨[], .refl c⟩
  split_ifs at h
  · cases h
    exact scanned_token ⟨_, passes_skipWhile⟩
  · exact scanned_number h
  · exact scanned_stringLiteral h
  · exact scanned_charLiteral h
  · exact scanned_operator h

lemma eof_of_rest_nil (h : c.scan = .ok (t, c')) (last : c.rest = []) : t.kind = .eof := by
  rw [scan, last] at h
  cases h
  rfl

/-! ## The place of a token -/

/-- A line with a mark begins after the blanks of a margin, and reaches to the end of `seen`. -/
def Marked (p : Place) (seen : List Char) : Prop :=
  ∃ blanks line, seen = blanks ++ '#' :: line ∧ (p.afterAll blanks).fresh = true

/-- `c'` stands past `seen`, and on its line unless the source ends in a line with a mark. -/
def Arrives (c : Cursor) (seen : List Char) (c' : Cursor) : Prop := c.rest = seen ++ c'.rest ∧
    ('\n' ∉ seen → c'.place = c.place.afterAll seen ∨ c'.rest = [] ∧ Marked c.place seen)

lemma Passes.arrives {seen : List Char} (passes : c.Passes seen c') : c.Arrives seen c' :=
  ⟨passes.rest, fun _ => .inl passes.place⟩

lemma Passes.trans_arrives (first : c₁.Passes s₁ c₂) (second : c₂.Arrives s₂ c₃) :
    c₁.Arrives (s₁ ++ s₂) c₃ := by
  refine ⟨by rw [first.rest, second.1, List.append_assoc], fun line => ?_⟩
  rw [List.mem_append, not_or] at line
  rcases second.2 line.2 with place | ⟨last, blanks, mark, split, fresh⟩
  · exact .inl (by rw [place, first.place, Place.afterAll_append])
  · refine .inr ⟨last, s₁ ++ blanks, mark, by rw [split, List.append_assoc], ?_⟩
    rw [Place.afterAll_append, ← first.place]
    exact fresh

lemma skipTrivia_nil (h : c.rest = []) : c.skipTrivia = .ok c := by
  unfold skipTrivia
  split <;> simp_all

lemma lineEnd_rest (c : Cursor) :
    (∃ line, c.rest = line ++ '\n' :: c.lineEnd.rest) ∨ c.lineEnd.rest = [] := by
  have rest : c.lineEnd.rest = (c.rest.dropWhile notNewline).tail := by
    unfold lineEnd
    simp only
    split <;> exact advance_rest _
  have whole := List.takeWhile_append_dropWhile (p := notNewline) (l := c.rest)
  cases after : c.rest.dropWhile notNewline with
  | nil => exact .inr (by rw [rest, after, List.tail_nil])
  | cons a l =>
    have newline : a = '\n' := by
      have := List.head?_dropWhile_not notNewline c.rest
      rw [after, List.head?_cons] at this
      simpa [notNewline] using this
    refine .inl ⟨c.rest.takeWhile notNewline, ?_⟩
    rw [rest, after, List.tail_cons, ← newline, ← after, whole]

lemma exists_arrives_skipTrivia (h : c.skipTrivia = .ok c') : ∃ seen, c.Arrives seen c' := by
  fun_induction skipTrivia c with
  | case1 =>
    cases h
    exact ⟨[], (Passes.refl _).arrives⟩
  | case2 c _ hr ih =>
    obtain ⟨seen, rest⟩ := ih h
    exact ⟨_, passes_skipWhile.trans_arrives rest⟩
  | case3 c rest hr opened next hc ih =>
    obtain ⟨s₁, comment⟩ := exists_passes_commentEnd hc
    obtain ⟨s₂, arrives⟩ := ih h
    have two : c.Passes ['/', '*'] ⟨opened, rest⟩ := ⟨hr, rfl⟩
    exact ⟨_, (two.trans comment).trans_arrives arrives⟩
  | case4 => cases h
  | case5 c a rest _ _ hr _ ih =>
    obtain ⟨seen, arrives⟩ := ih h
    exact ⟨_, (passes_cons hr).trans_arrives arrives⟩
  | case6 c a rest _ _ hr _ hm ih =>
    rcases lineEnd_rest c with ⟨line, passed⟩ | last
    · obtain ⟨seen, split, -⟩ := ih h
      refine ⟨line ++ '\n' :: seen, by rw [passed, split]; simp, fun none => absurd ?_ none⟩
      simp
    · rw [skipTrivia_nil last] at h
      cases h
      refine ⟨c.rest, by rw [last, List.append_nil], fun _ => .inr ⟨last, [], rest, ?_, hm.2⟩⟩
      rw [hr, hm.1, List.nil_append]
  | case7 =>
    cases h
    exact ⟨[], (Passes.refl _).arrives⟩

/-- The token `t` is met at `start`, where the trivia before it ends. -/
inductive Meets : Cursor → Token → Cursor → Prop
  | first {c start next : Cursor} {t : Token} (here : c.skipTrivia = .ok start)
      (scanned : start.scan = .ok (t, next)) : Meets c t start
  | later {c next start : Cursor} {u t : Token} (before : c.next = .ok (u, next))
      (more : u.kind ≠ .eof) (met : Meets next t start) : Meets c t start

lemma next_eq_ok (h : c.next = .ok (t, c')) :
    ∃ start, c.skipTrivia = .ok start ∧ start.scan = .ok (t, c') := by
  unfold next at h
  split at h
  · cases h
  · rename_i start here
    exact ⟨start, here, h⟩

/-- The tokens of a source are those that are met. -/
theorem mem_tokens_iff : t ∈ c.tokens.1 ↔ ∃ start, c.Meets t start := by
  constructor
  · intro mem
    fun_induction tokens c with
    | case1 c d h => cases mem
    | case2 c u rest h _ =>
      obtain rfl := List.mem_singleton.mp mem
      obtain ⟨start, here, scanned⟩ := next_eq_ok h
      exact ⟨start, .first here scanned⟩
    | case3 c u rest h more ts d hts ih =>
      rcases List.mem_cons.mp mem with rfl | mem
      · obtain ⟨start, here, scanned⟩ := next_eq_ok h
        exact ⟨start, .first here scanned⟩
      · obtain ⟨start, met⟩ := ih (by rw [hts]; exact mem)
        exact ⟨start, .later h more met⟩
  · rintro ⟨start, met⟩
    induction met with
    | @first c start next t here scanned =>
      have step : c.next = .ok (t, next) := by rw [Cursor.next, here]; exact scanned
      unfold tokens
      split
      · rename_i h
        rw [step] at h
        cases h
      · rename_i h
        rw [step] at h
        cases h
        split <;> simp
    | @later c next start u t before more met ih =>
      unfold tokens
      split
      · rename_i h
        rw [before] at h
        cases h
      · rename_i h
        rw [before] at h
        cases h
        rw [dif_neg more]
        exact List.mem_cons_of_mem _ ih

/-- What is passed on the way to a token tells its place, unless the source ends in a line with a
mark. -/
lemma Meets.place (met : c.Meets t start) :
    ∃ passed, c.rest = passed ++ start.rest ∧ ('\n' ∉ passed →
      start.place = c.place.afterAll passed ∨ t.kind = .eof ∧ Marked c.place passed) := by
  induction met with
  | first here scanned =>
    obtain ⟨seen, rest, place⟩ := exists_arrives_skipTrivia here
    refine ⟨seen, rest, fun line => (place line).imp_right ?_⟩
    rintro ⟨last, marked⟩
    exact ⟨eof_of_rest_nil scanned last, marked⟩
  | @later c next start u t before more met ih =>
    obtain ⟨begins, here, scanned⟩ := next_eq_ok before
    obtain ⟨s₁, rest, place⟩ := exists_arrives_skipTrivia here
    obtain ⟨s₂, token⟩ := (scanned_scan scanned).passes
    obtain ⟨s₃, follow, later⟩ := ih
    refine ⟨s₁ ++ (s₂ ++ s₃), by rw [rest, token.rest, follow]; simp, fun line => ?_⟩
    rw [List.mem_append, List.mem_append, not_or, not_or] at line
    -- a line with a mark would have ended the source before the token `u`
    rcases place line.1 with place | ⟨last, -⟩
    swap
    · exact absurd (eof_of_rest_nil scanned last) more
    have passes : c.Passes (s₁ ++ s₂) next := Passes.trans ⟨rest, place⟩ token
    rcases later line.2.2 with later | ⟨eof, blanks, mark, split, fresh⟩
    · exact .inl (by rw [later, passes.place, ← Place.afterAll_append, List.append_assoc])
    · refine .inr ⟨eof, s₁ ++ s₂ ++ blanks, mark, by rw [split]; simp, ?_⟩
      rw [Place.afterAll_append, ← passes.place]
      exact fresh

lemma Meets.scanned (met : c.Meets t start) : t.line = start.place.line ∧ t.file = start.place.file := by
  induction met with
  | first here scanned => exact ⟨(scanned_scan scanned).line, (scanned_scan scanned).file⟩
  | later _ _ _ ih => exact ih

/-! ## After a marker -/

open Text (ofString)

lemma Meets.of_skipTrivia_eq (same : c.skipTrivia = c'.skipTrivia) (met : c.Meets t start) :
    c'.Meets t start := by
  cases met with
  | first here scanned => exact .first (same ▸ here) scanned
  | later before more met => exact .later (by rw [← before, Cursor.next, Cursor.next, same]) more met

lemma skipTrivia_mark (fresh : c.place.fresh = true) (h : c.rest = '#' :: rest) :
    c.skipTrivia = c.lineEnd.skipTrivia := by
  have blank : Text.isBlank '#' = false := by decide
  rw [skipTrivia]
  split <;> simp_all

lemma lineEnd_render {n : Nat} {file : Text} {body : List Char} (written : LineMarker.Written n file body)
    (hn : n < 2 ^ 63) (here : c.rest = '#' :: (body ++ '\n' :: rest)) :
    c.lineEnd = ⟨⟨Int64.ofNat n, if ' ' ∈ Text.chars file then c.place.file else file, true⟩, rest⟩ := by
  have line : ∀ a ∈ '#' :: body, notNewline a = true := by
    intro a mem
    rw [notNewline, decide_eq_true_eq]
    rintro rfl
    rcases List.mem_cons.mp mem with h | h
    · cases h
    · exact written.line h
  have whole : c.rest = ('#' :: body) ++ '\n' :: rest := here
  have taken : c.rest.takeWhile notNewline = '#' :: body := by
    rw [whole, List.takeWhile_append_of_pos line, List.takeWhile_cons_of_neg (by decide),
      List.append_nil]
  have left : c.rest.dropWhile notNewline = '\n' :: rest := by
    rw [whole, List.dropWhile_append_of_pos line, List.dropWhile_cons_of_neg (by decide)]
  rw [lineEnd]
  simp only [skipWhile, taken, left, advance, List.drop_succ_cons, List.drop_zero, written.read hn,
    Place.marked, Place.after, if_true, Place.file_afterAll]
  split <;> rfl

/-- The tokens on the line after a marker that was written stand on the line and in the file that it
tells. But the marker is cut at white space: one for a file with a blank in its name tells the line
only. -/
theorem tokens_after_marker {c start : Cursor} {n : Nat} {file : Text} {rest passed : List Char}
    {t : Token} (fresh : c.place.fresh = true)
    (here : c.rest = Text.chars (LineMarker.render n file) ++ rest) (hn : n < 2 ^ 63)
    (met : c.Meets t start) (split : rest = passed ++ start.rest) (line : '\n' ∉ passed)
    (content : t.kind ≠ .eof ∨ (rest.dropWhile Place.isMargin).head? ≠ some '#') :
    t.line = Int64.ofNat n ∧
      t.file = if ' ' ∈ Text.chars file then c.place.file else file := by
  obtain ⟨body, written⟩ := LineMarker.exists_written n file
  have begins : c.rest = '#' :: (body ++ '\n' :: rest) := by
    rw [here, written.render, Text.chars_ofChars]
    simp
  have after := lineEnd_render written hn begins
  have met := met.of_skipTrivia_eq (skipTrivia_mark fresh begins)
  obtain ⟨passed', split', place⟩ := met.place
  obtain ⟨lineEq, fileEq⟩ := met.scanned
  rw [after] at split' place
  obtain rfl : passed = passed' := List.append_cancel_right (split.symm.trans split')
  rcases place line with place | ⟨eof, blanks, mark, rfl, freshly⟩
  · rw [lineEq, fileEq, place, Place.line_afterAll _ line, Place.file_afterAll]
    exact ⟨rfl, rfl⟩
  · -- the end of the source, on a line with a mark
    rcases content with content | content
    · exact absurd eof content
    · rw [List.mem_append, not_or] at line
      have margin := (Place.isMargin_of_fresh line.1 freshly).2
      refine absurd ?_ content
      rw [split, List.append_assoc, List.dropWhile_append_of_pos margin, List.cons_append,
        List.dropWhile_cons_of_neg (by decide), List.head?_cons]

/-- The second token of the line after a marker for a file with a quote, a backslash and a tab in its
name. -/
theorem tokens_after_marker_quote :
    let file := ofString "d\\a\"\t.c"
    let c : Cursor := ⟨{ file := ofString "t.c" },
      Text.chars (LineMarker.render 7 file) ++ [' ', 'x', ' ', 'y', '\n']⟩
    ∃ t ∈ c.tokens.1, t.lexeme = ofString "y" ∧ t.line = 7 ∧ t.file = file := by
  intro file c
  have first : c.next = .ok (⟨.identifier, ofString "x", 0, 7, file⟩,
      ⟨⟨7, file, false⟩, [' ', 'y', '\n']⟩) := by
    decide +kernel
  have here : skipTrivia ⟨⟨7, file, false⟩, [' ', 'y', '\n']⟩ = .ok ⟨⟨7, file, false⟩, ['y', '\n']⟩ := by
    decide +kernel
  have scanned : scan ⟨⟨7, file, false⟩, ['y', '\n']⟩ =
      .ok (⟨.identifier, ofString "y", 0, 7, file⟩, ⟨⟨7, file, false⟩, ['\n']⟩) := by
    decide +kernel
  have met : c.Meets ⟨.identifier, ofString "y", 0, 7, file⟩ ⟨⟨7, file, false⟩, ['y', '\n']⟩ :=
    .later first (by decide) (.first here scanned)
  obtain ⟨line, name⟩ := @tokens_after_marker c _ 7 file [' ', 'x', ' ', 'y', '\n'] [' ', 'x', ' '] _
    rfl rfl (by decide) met rfl (by decide) (.inl (by decide))
  exact ⟨_, mem_tokens_iff.mpr ⟨_, met⟩, rfl, line, name.trans (if_neg (by decide +kernel))⟩

/-- A token after a marker for a file with a blank in its name stands in another file. -/
theorem lex_loses_file :
    ∃ t ∈ (lex (LineMarker.render 5 (ofString "a b.c") ++ ofString "x") (ofString "t.c")).1,
      t.kind = .identifier ∧ t.line = 5 ∧ t.file ≠ ofString "a b.c" := by
  decide +kernel

end Cursor
end SmallC
