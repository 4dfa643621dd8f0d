import SmallC.Proofs.Token.Places

/-!
# Tokens with white space after them

No token but a literal in quotes has white space in it, and such a literal ends with a quote. So what is read
as a token is read as one in any other place, and with white space after it.
-/

namespace SmallC

namespace Text

variable {b c : Char} {kind : TokenKind}

lemma not_inRanges {table : Array (Nat × Nat)} (outside : ∀ r ∈ table, ∀ n ∈ wideBlanks, n < r.1 ∨ r.2 < n)
    (blank : isBlank c = true) (wide : ¬ c.toNat < 128) : inRanges table c = false := by
  refine Bool.eq_false_iff.mpr fun found => ?_
  obtain ⟨r, mem, low, high⟩ := exists_range_of_search found
  have := outside r mem c.toNat (mem_wideBlanks blank wide)
  omega

def narrowBlanks : List Char := ['\t', '\n', '\x0b', '\x0c', '\r', ' ']

lemma mem_narrowBlanks (blank : isBlank c = true) (ascii : c.toNat < 128) : c ∈ narrowBlanks := by
  have self : Char.ofNat c.toNat = c := Char.ofNat_toNat c
  simp only [isBlank, Bool.or_eq_true, Bool.and_eq_true, decide_eq_true_eq] at blank
  have : c.toNat ∈ [9, 10, 11, 12, 13, 32] := by
    simp only [List.mem_cons, List.not_mem_nil]
    omega
  rw [← self]
  exact List.mem_map_of_mem (f := Char.ofNat) this

/-- No white space satisfies `p`. -/
def Solid (p : Char → Bool) : Prop := ∀ a, isBlank a = true → p a = false

lemma solid_of (ascii : narrowBlanks.any p = false)
    (wide : ∀ a, isBlank a = true → ¬ a.toNat < 128 → p a = false) : Solid p := fun a blank =>
  if h : a.toNat < 128 then Bool.eq_false_iff.mpr (List.any_eq_false.mp ascii a (mem_narrowBlanks blank h))
  else wide a blank h

lemma solid_isLetter : Solid isLetter := solid_of (by decide) fun a blank wide => by
    rw [isLetter, if_neg wide]
    refine not_inRanges (fun r mem n hn => ?_) blank wide
    simp only [letterRanges, Array.mem_append] at mem
    rcases mem with ((((mem | mem) | mem) | mem) | mem) | mem
    all_goals exact outside_of_missesBlanks (by decide +kernel) mem hn

lemma solid_isDigit : Solid isDigit := solid_of (by decide) fun a blank wide => by
    rw [isDigit, if_neg wide]
    exact not_inRanges (fun r mem n hn => outside_of_missesBlanks (by decide +kernel) mem hn) blank wide

/-- Nothing, or white space and more. -/
def Breaks (tail : List Char) : Prop := ∀ a ∈ tail.head?, isBlank a = true

variable {p : Char → Bool} {tail cs rest : List Char}

lemma takeWhile_breaks (solid : Solid p) (breaks : Breaks tail) (cs : List Char) :
    (cs ++ tail).takeWhile p = cs.takeWhile p := by
  induction cs with
  | nil =>
    cases tail with
    | nil => rfl
    | cons b tail => exact List.takeWhile_cons_of_neg (by simp [solid b (breaks b rfl)])
  | cons a cs ih => simp only [List.cons_append, List.takeWhile_cons, ih]

lemma dropWhile_breaks (solid : Solid p) (breaks : Breaks tail) (cs : List Char) :
    (cs ++ tail).dropWhile p = cs.dropWhile p ++ tail := by
  have whole := List.takeWhile_append_dropWhile (p := p) (l := cs ++ tail)
  rw [takeWhile_breaks solid breaks] at whole
  refine List.append_cancel_left (whole.trans ?_)
  rw [← List.append_assoc, List.takeWhile_append_dropWhile]

lemma begins_breaks {a : Char} (solid : isBlank a = false) (breaks : Breaks tail) (h : cs ++ tail = a :: rest) :
    ∃ rest', cs = a :: rest' ∧ rest' ++ tail = rest := by
  cases cs with
  | nil =>
    obtain rfl : tail = a :: rest := h
    exact absurd (breaks a rfl) (by simp [solid])
  | cons x cs =>
    obtain ⟨rfl, after⟩ := List.cons.inj h
    exact ⟨cs, rfl, after⟩

end Text

def Token.content (t : Token) : TokenKind × Text × Int64 := (t.kind, t.lexeme, t.value)

namespace Cursor
open Text (Solid Breaks solid_of takeWhile_breaks dropWhile_breaks begins_breaks)

variable {a : Char} {p : Char → Bool} {done : List Char}

lemma solid_isWordChar : Solid isWordChar := by
  intro a blank
  have line : a ≠ '_' := by
    rintro rfl
    cases blank
  simp [isWordChar, Text.solid_isLetter a blank, Text.solid_isDigit a blank, line]

lemma solid_of_le (top : ∀ a, p a = true → a ≤ '\x7f') (ascii : Text.narrowBlanks.any p = false) :
    Solid p :=
  solid_of ascii fun a _ wide => Bool.eq_false_iff.mpr fun h =>
    wide (Nat.lt_succ_of_le (top a h : a.toNat ≤ 127))

lemma solid_isSuffixChar : Solid isSuffixChar := by
  refine solid_of_le (fun a h => ?_) (by decide)
  simp only [isSuffixChar, Bool.or_eq_true, decide_eq_true_eq] at h
  rcases h with ((rfl | rfl) | rfl) | rfl <;> decide

lemma solid_isOctal : Solid isOctal := by
  refine solid_of_le (fun a h => ?_) (by decide)
  simp only [isOctal, Bool.and_eq_true, decide_eq_true_eq] at h
  exact Char.le_trans h.2 (by decide)

lemma solid_isHexChar : Solid isHexChar := by
  have letters : Solid fun a => ('a' ≤ a && a ≤ 'f') || ('A' ≤ a && a ≤ 'F') := by
    refine solid_of_le (fun a h => ?_) (by decide)
    simp only [Bool.or_eq_true, Bool.and_eq_true, decide_eq_true_eq] at h
    rcases h with h | h <;> exact Char.le_trans h.2 (by decide)
  intro a blank
  rw [isHexChar, Bool.or_assoc, Text.solid_isDigit a blank, Bool.false_or]
  exact letters a blank

/-! ## One token -/

/-- `d` has the rest of `c`, and `tail` after it. -/
def Extends (tail : List Char) (c d : Cursor) : Prop := d.rest = c.rest ++ tail

variable {tail cs : List Char} {c c' d : Cursor} {t : Token}

namespace Extends

lemma advance (some : c.rest ≠ []) (h : Extends tail c d) : Extends tail c.advance d.advance := by
  rw [Extends, advance_rest, advance_rest, show d.rest = c.rest ++ tail from h]
  exact List.tail_append_of_ne_nil some

lemma skip {n : Nat} (le : n ≤ c.rest.length) (h : Extends tail c d) : Extends tail (c.skip n) (d.skip n) := by
  rw [Extends, skip_rest, skip_rest, show d.rest = c.rest ++ tail from h]
  exact List.drop_append_of_le_length le

lemma skipWhile (solid : Solid p) (breaks : Breaks tail) (h : Extends tail c d) :
    Extends tail (c.skipWhile p) (d.skipWhile p) := by
  show d.rest.dropWhile p = c.rest.dropWhile p ++ tail
  rw [show d.rest = c.rest ++ tail from h, dropWhile_breaks solid breaks]

lemma peek (some : c.rest ≠ []) (h : Extends tail c d) : d.peek = c.peek := by
  rw [Cursor.peek, Cursor.peek, show d.rest = c.rest ++ tail from h]
  cases hr : c.rest with
  | nil => exact absurd hr some
  | cons a rest => rfl

end Extends

/-- What is read in one place is read in the other one, up to what `f` leaves out, and `tail` is left. -/
def Repeats {α β : Type} (f : α → β) (tail : List Char) (x y : Except Diagnostic (α × Cursor)) : Prop :=
  ∀ a c', x = .ok (a, c') → ∃ b d', y = .ok (b, d') ∧ f b = f a ∧ Extends tail c' d'

lemma word_repeats (breaks : Breaks tail) (h : Extends tail c d) :
    Repeats Token.content tail (.ok c.word) (.ok d.word) := by
  rintro a c' ⟨⟩
  refine ⟨d.word.1, d.word.2, rfl, ?_, h.skipWhile solid_isWordChar breaks⟩
  simp only [word, Token.content, token, show d.rest = c.rest ++ tail from h,
    takeWhile_breaks solid_isWordChar breaks]

lemma numberChars_breaks (breaks : Breaks tail) (cs : List Char) : numberChars (cs ++ tail) = numberChars cs := by
  have more := @takeWhile_breaks _ tail solid_isHexChar breaks
  fun_cases numberChars cs with
  | case1 rest => exact congrArg (fun ds => '0' :: 'x' :: ds) (more rest)
  | case2 rest => exact congrArg (fun ds => '0' :: 'X' :: ds) (more rest)
  | case3 cs small large =>
    rw [numberChars]
    · exact more cs
    · intro rest begins
      obtain ⟨_, rfl, second⟩ := begins_breaks (by decide) breaks begins
      obtain ⟨_, rfl, -⟩ := begins_breaks (by decide) breaks second
      exact small _ rfl
    · intro rest begins
      obtain ⟨_, rfl, second⟩ := begins_breaks (by decide) breaks begins
      obtain ⟨_, rfl, -⟩ := begins_breaks (by decide) breaks second
      exact large _ rfl

lemma numberChars_length_le (cs : List Char) : (numberChars cs).length ≤ cs.length := by
  fun_cases numberChars cs with
  | case1 rest => exact Nat.succ_le_succ (Nat.succ_le_succ (List.takeWhile_prefix _).length_le)
  | case2 rest => exact Nat.succ_le_succ (Nat.succ_le_succ (List.takeWhile_prefix _).length_le)
  | case3 => exact (List.takeWhile_prefix _).length_le

lemma number_repeats (breaks : Breaks tail) (h : Extends tail c d) :
    Repeats Token.content tail c.number d.number := by
  intro t c' ok
  unfold number at ok ⊢
  rw [show d.rest = c.rest ++ tail from h, numberChars_breaks breaks]
  simp only at ok ⊢
  split at ok
  · cases ok
  · cases ok
    exact ⟨_, _, rfl, rfl, (h.skip (numberChars_length_le _)).skipWhile solid_isSuffixChar breaks⟩

lemma takeWhile_take_breaks (solid : Solid p) (breaks : Breaks tail) (n : Nat) (cs : List Char) :
    ((cs ++ tail).take n).takeWhile p = (cs.take n).takeWhile p := by
  rw [List.take_append]
  refine takeWhile_breaks solid ?_ _
  intro a mem
  cases tail with
  | nil => simp at mem
  | cons b tail =>
    cases hn : n - cs.length with
    | zero => simp [hn] at mem
    | succ m =>
      rw [hn, List.take_succ_cons, List.head?_cons] at mem
      exact breaks a mem

lemma escape_repeats (breaks : Breaks tail) (h : Extends tail c d) : Repeats id tail c.escape d.escape := by
  intro v c' ok
  obtain ⟨p, rest⟩ := c
  cases rest with
  | nil => cases ok
  | cons a rest =>
    have here : d.rest = a :: (rest ++ tail) := h
    have next : Extends tail ⟨p.after a, rest⟩ d.advance := h.advance (List.cons_ne_nil _ _)
    unfold escape at ok ⊢
    simp only [here] at ok ⊢
    split at ok
    case h_8 same =>
      obtain ⟨rfl, rfl⟩ := List.cons.inj same
      cases ok
      exact ⟨_, _, rfl, congrArg (List.foldl _ _) (takeWhile_breaks solid_isHexChar breaks _),
        next.skipWhile solid_isHexChar breaks⟩
    case h_9 same =>
      obtain ⟨rfl, rfl⟩ := List.cons.inj same
      split
      case h_9 same' =>
        obtain ⟨rfl, rfl⟩ := List.cons.inj same'
        split_ifs at ok ⊢
        · cases ok
          exact ⟨_, _, rfl, rfl, next⟩
        · cases ok
          rw [takeWhile_take_breaks solid_isOctal breaks]
          refine ⟨_, _, rfl, rfl, h.skip ?_⟩
          exact Nat.succ_le_succ (Nat.le_trans (List.takeWhile_prefix _).length_le (List.length_take_le' _ _))
        · cases ok
      case h_10 same' => cases same'
      all_goals
        rename_i same'
        obtain ⟨rfl, -⟩ := List.cons.inj same'
        contradiction
    case h_10 same => cases same
    all_goals
      rename_i same
      obtain ⟨rfl, rfl⟩ := List.cons.inj same
      cases ok
      exact ⟨_, _, rfl, rfl, next⟩

lemma stringBody_cons {rest : List Char} (h : c.rest = a :: rest) : c.stringBody done =
      if a = '"' then .ok (done.reverse, ⟨c.place.after a, rest⟩)
      else if a = '\n' then c.fail .unterminatedString
      else if a = '\\' then
        match escape ⟨c.place.after a, rest⟩ with
        | .error d => .error d
        | .ok (code, next) => next.stringBody (charOfCode code :: done)
      else stringBody ⟨c.place.after a, rest⟩ (a :: done) := by
  rw [stringBody]
  split
  · rename_i hr
    cases h.symm.trans hr
  · rename_i hr
    obtain ⟨rfl, rfl⟩ := List.cons.inj (h.symm.trans hr)
    refine if_congr Iff.rfl rfl (if_congr Iff.rfl rfl (if_congr Iff.rfl ?_ rfl))
    split
    · rename_i failed
      rw [failed]
    · rename_i escaped
      rw [escaped]

lemma scan_quote {rest : List Char} (h : c.rest = '"' :: rest) : c.scan = c.stringLiteral := by
  rw [scan]
  simp only [h, show (Text.isLetter '"' || '"' = '_') = false by decide,
    show Text.isDigit '"' = false by decide, Bool.false_eq_true, if_false, if_true]

lemma stringBody_repeats (breaks : Breaks tail) (h : Extends tail c d) :
    Repeats id tail (c.stringBody done) (d.stringBody done) := by
  intro chars c' ok
  have here {c d : Cursor} {a : Char} {rest : List Char} (h : Extends tail c d) (hr : c.rest = a :: rest) :
      d.rest = a :: (rest ++ tail) := by
    rw [show d.rest = c.rest ++ tail from h, hr]
    rfl
  fun_induction stringBody c done generalizing d with
  | case1 => cases ok
  | case2 c done rest hr =>
    cases ok
    rw [stringBody_cons (here h hr), if_pos rfl]
    exact ⟨_, _, rfl, rfl, rfl⟩
  | case3 => cases ok
  | case4 => cases ok
  | case5 c done rest code next hr quote line escaped ih =>
    obtain ⟨_, next', escaped', rfl, more⟩ :=
      escape_repeats (c := ⟨c.place.after '\\', rest⟩) (d := ⟨d.place.after '\\', rest ++ tail⟩) breaks rfl
        _ _ escaped
    rw [stringBody_cons (here h hr), if_neg quote, if_neg line, if_pos rfl, escaped']
    exact ih more ok
  | case6 c done a rest hr quote line plain ih =>
    rw [stringBody_cons (here h hr), if_neg quote, if_neg line, if_neg plain]
    exact ih rfl ok

lemma stringLiteral_repeats (breaks : Breaks tail) (some : c.rest ≠ []) (h : Extends tail c d) :
    Repeats Token.content tail c.stringLiteral d.stringLiteral := by
  intro t c' ok
  unfold stringLiteral at ok ⊢
  split at ok
  · cases ok
  · rename_i body
    cases ok
    obtain ⟨_, d', body', rfl, more⟩ := stringBody_repeats breaks (h.advance some) _ _ body
    rw [body']
    exact ⟨_, _, rfl, rfl, more⟩

lemma rest_ne_nil_of_peek (h : c.peek = a) (some : a ≠ '\x00') : c.rest ≠ [] := by
  intro none
  rw [peek, none] at h
  exact some h.symm

lemma charLiteral_repeats (breaks : Breaks tail) (some : c.rest ≠ []) (h : Extends tail c d) :
    Repeats Token.content tail c.charLiteral d.charLiteral := by
  intro t c' ok
  unfold charLiteral at ok ⊢
  simp only at ok ⊢
  split at ok
  · cases ok
  rename_i full
  split at ok
  · cases ok
  rename_i code next read
  split at ok
  · cases ok
  rename_i close
  cases ok
  have closed : next.rest ≠ [] := rest_ne_nil_of_peek (by simpa using close) (by decide)
  have first : c.advance.rest ≠ [] := by
    intro none
    split at read
    · rename_i mark
      exact rest_ne_nil_of_peek mark (by decide) none
    · cases read
      rw [advance_rest, none] at closed
      exact closed rfl
  have inner := h.advance some
  have content : Repeats id tail (if c.advance.peek = '\\' then escape c.advance.advance
        else .ok (Int32.ofNat c.advance.peek.toNat, c.advance.advance))
      (if c.advance.peek = '\\' then escape d.advance.advance
        else .ok (Int32.ofNat c.advance.peek.toNat, d.advance.advance)) := by
    split
    · exact escape_repeats breaks (inner.advance first)
    · rintro _ _ ⟨⟩
      exact ⟨_, _, rfl, rfl, inner.advance first⟩
  obtain ⟨_, next', read', rfl, more⟩ := content _ _ read
  rw [inner.peek first, if_neg full, read']
  simp only [more.peek closed, if_neg close, id]
  exact ⟨_, _, rfl, rfl, more.advance closed⟩

lemma symbolOfTwo_of_isBlank (a : Char) (blank : Text.isBlank b = true) : symbolOfTwo a b = none := by
  unfold symbolOfTwo
  split
  all_goals first
    | rfl
    | cases blank

lemma symbolOf_breaks (breaks : Breaks tail) (some : cs ≠ []) : symbolOf (cs ++ tail) = symbolOf cs := by
  rcases cs with _ | ⟨a, _ | ⟨b, cs⟩⟩
  · exact absurd rfl some
  · cases tail with
    | nil => rfl
    | cons b tail => exact congrArg (Option.or · _) (symbolOfTwo_of_isBlank a (breaks b rfl))
  · rfl

lemma length_of_symbolOfOne (h : symbolOfOne a = some kind) : kind.spelling.length = 1 := by
  unfold symbolOfOne at h
  split at h <;> cases h <;> decide

lemma length_of_symbolOfTwo (h : symbolOfTwo a b = some kind) : kind.spelling.length = 2 := by
  unfold symbolOfTwo at h
  split at h <;> cases h <;> decide

lemma length_spelling_le (h : symbolOf cs = some kind) : kind.spelling.length ≤ cs.length := by
  rcases cs with _ | ⟨a, _ | ⟨b, cs⟩⟩
  · cases h
  · exact Nat.le_of_eq (length_of_symbolOfOne h)
  · have short : kind.spelling.length ≤ 2 := by
      rcases Option.or_eq_some_iff.mp h with two | ⟨-, one⟩
      · exact Nat.le_of_eq (length_of_symbolOfTwo two)
      · rw [length_of_symbolOfOne one]
        decide
    exact Nat.le_trans short (Nat.le_add_left 2 cs.length)

lemma operator_repeats (breaks : Breaks tail) (some : c.rest ≠ []) (h : Extends tail c d) :
    Repeats Token.content tail (c.operator a) (d.operator a) := by
  intro t c' ok
  unfold operator at ok ⊢
  rw [show d.rest = c.rest ++ tail from h, symbolOf_breaks breaks some]
  split at ok
  · cases ok
  · rename_i kind here
    cases ok
    exact ⟨_, _, rfl, rfl, h.skip (length_spelling_le here)⟩

lemma scan_repeats (breaks : Breaks tail) (some : c.rest ≠ []) (h : Extends tail c d) :
    Repeats Token.content tail c.scan d.scan := by
  cases hr : c.rest with
  | nil => exact absurd hr some
  | cons a rest =>
    have here : d.rest = a :: (rest ++ tail) := by
      rw [show d.rest = c.rest ++ tail from h, hr]
      rfl
    unfold scan
    rw [hr, here]
    simp only
    split_ifs
    · exact word_repeats breaks h
    · exact number_repeats breaks h
    · exact stringLiteral_repeats breaks some h
    · exact charLiteral_repeats breaks some h
    · exact operator_repeats breaks some h

/-- A token that is read is read in any place, and with white space after it. -/
theorem scan_elsewhere {p : Place} (some : cs ≠ []) (h : scan ⟨p, cs⟩ = .ok (t, c')) :
    ∃ text, cs = text ++ c'.rest ∧ ∀ (q : Place) (tail : List Char), Breaks tail →
      scan ⟨q, cs ++ tail⟩ =
        .ok ({ t with line := q.line, file := q.file }, ⟨q.afterAll text, c'.rest ++ tail⟩) := by
  obtain ⟨text, passes⟩ := (scanned_scan h).passes
  have split : cs = text ++ c'.rest := passes.rest
  refine ⟨text, split, fun q tail breaks => ?_⟩
  obtain ⟨u, d', ok, same, more⟩ :=
    scan_repeats (c := ⟨p, cs⟩) (d := ⟨q, cs ++ tail⟩) breaks some rfl _ _ h
  obtain ⟨line, file, text', passes'⟩ := scanned_scan ok
  have rest : d'.rest = c'.rest ++ tail := more
  have split' : cs ++ tail = text' ++ d'.rest := passes'.rest
  obtain rfl : text' = text := by
    rw [rest, split, List.append_assoc] at split'
    exact (List.append_cancel_right split').symm
  obtain ⟨kind, lexeme, value, line', file'⟩ := u
  simp only [Token.content, Prod.mk.injEq] at same
  obtain ⟨place, rest'⟩ := d'
  cases passes'.place
  obtain rfl : line' = q.line := line
  obtain rfl : file' = q.file := file
  obtain ⟨rfl, rfl, rfl⟩ := same
  obtain rfl : rest' = c'.rest ++ tail := rest
  exact ok

lemma symbolOf_first {rest : List Char} {kind : TokenKind} (h : symbolOf (a :: rest) = some kind) :
    Text.isBlank a = false ∧ a ≠ '#' := by
  have one {kind : TokenKind} (h : symbolOfOne a = some kind) : Text.isBlank a = false ∧ a ≠ '#' := by
    unfold symbolOfOne at h
    split at h <;> cases h <;> decide
  rcases rest with _ | ⟨b, rest⟩
  · exact one h
  · rcases Option.or_eq_some_iff.mp h with two | ⟨-, single⟩
    · unfold symbolOfTwo at two
      split at two <;> cases two <;> decide
    · exact one single

lemma scan_first {p : Place} {rest : List Char} (h : scan ⟨p, a :: rest⟩ = .ok (t, c')) :
    Text.isBlank a = false ∧ a ≠ '#' := by
  have of_solid {p : Char → Bool} (solid : Solid p) (ha : p a = true) : Text.isBlank a = false :=
    Bool.eq_false_iff.mpr fun blank => by simp [solid a blank] at ha
  unfold scan at h
  simp only at h
  split_ifs at h with letter digit quote quote'
  · have word : isWordChar a = true := by
      rcases Bool.or_eq_true _ _ |>.mp letter with ha | ha <;> simp [isWordChar, ha]
    refine ⟨of_solid solid_isWordChar word, ?_⟩
    rintro rfl
    exact absurd letter (by decide)
  · refine ⟨of_solid Text.solid_isDigit digit, ?_⟩
    rintro rfl
    exact absurd digit (by decide)
  · obtain rfl := quote
    decide
  · obtain rfl := quote'
    decide
  · unfold operator at h
    split at h
    · cases h
    · rename_i kind here
      exact symbolOf_first here

lemma ofWord_ne_eof {word : Text} : TokenKind.ofWord word ≠ .eof := by
  unfold TokenKind.ofWord
  cases found : TokenKind.keywords.find? fun k => k.name = word with
  | none => decide
  | some k =>
    have keyword : ∀ k ∈ TokenKind.keywords, k ≠ .eof := by decide
    exact keyword k (List.mem_of_find?_eq_some found)

lemma symbolOf_ne_eof (h : symbolOf cs = some kind) : kind ≠ .eof := by
  have one {a : Char} (h : symbolOfOne a = some kind) : kind ≠ .eof := by
    rintro rfl
    cases length_of_symbolOfOne h
  rcases cs with _ | ⟨a, _ | ⟨b, cs⟩⟩
  · cases h
  · exact one h
  · rcases Option.or_eq_some_iff.mp h with two | ⟨-, single⟩
    · rintro rfl
      cases length_of_symbolOfTwo two
    · exact one single

lemma kind_ne_eof (some : c.rest ≠ []) (h : c.scan = .ok (t, c')) : t.kind ≠ .eof := by
  cases hr : c.rest with
  | nil => exact absurd hr some
  | cons a rest =>
    unfold scan at h
    rw [hr] at h
    simp only at h
    split_ifs at h
    · cases h
      exact ofWord_ne_eof
    · unfold number at h
      simp only at h
      split at h <;> cases h
      exact TokenKind.noConfusion
    · unfold stringLiteral at h
      split at h <;> cases h
      exact TokenKind.noConfusion
    · unfold charLiteral at h
      simp only at h
      split at h
      · cases h
      split at h
      · cases h
      split at h <;> cases h
      exact TokenKind.noConfusion
    · unfold operator at h
      split at h
      · cases h
      · rename_i kind here
        cases h
        exact symbolOf_ne_eof here

end Cursor
end SmallC
