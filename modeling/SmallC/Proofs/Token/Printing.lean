import SmallC.Proofs.Token.Segments

/-!
# Tokens that are written and read again

Any tokens can be written with separators between them that begin with white space, and reading gives them
back. Each token is read alone from what is written for it, and so also before a separator.
-/

namespace SmallC

variable {a : Char}

namespace Text

lemma isDigit_of_ascii (h : a.isDigit = true) : isDigit a = true := by
  have last : a.toNat ≤ 57 := by
    simp only [Char.isDigit, Bool.and_eq_true, decide_eq_true_eq] at h
    exact h.2
  rw [isDigit, if_pos (by omega), h]

lemma digitsValue?_toDigits (n : Nat) : digitsValue? 10 0 (Nat.toDigits 10 n) = some n ∧
    ∃ d ds, Nat.toDigits 10 n = Nat.digitChar d :: ds ∧ d < 10 ∧ (d = 0 → ds = []) := by
  have digit : ∀ d < 10, hexValue? (Nat.digitChar d) = some d := by decide
  induction n using Nat.strongRecOn with
  | ind n ih =>
    by_cases small : n < 10
    · rw [Nat.toDigits_of_lt_base small]
      exact ⟨by simp [digitsValue?, digit n small, small], n, [], rfl, small, fun _ => rfl⟩
    · have last : n % 10 < 10 := Nat.mod_lt n (by decide)
      obtain ⟨value, d, ds, split, low, zero⟩ := ih (n / 10) (by omega)
      rw [Nat.toDigits_of_base_le (by decide) (Nat.le_of_not_lt small)]
      constructor
      · rw [digitsValue?_append, value, Option.bind_some, digitsValue?, digit _ last]
        simp only [if_pos last, digitsValue?, Option.some.injEq]
        omega
      · refine ⟨d, ds ++ [Nat.digitChar (n % 10)], by rw [split, List.cons_append], low, ?_⟩
        rintro rfl
        rw [split, zero rfl] at value
        have : (0 : Nat) = n / 10 := Option.some.inj value
        omega

lemma literalValue?_toDigits {n : Nat} (small : n < 2 ^ 63) :
    literalValue? (Nat.toDigits 10 n) = some (Int64.ofNat n) := by
  have magnitude : literalMagnitude? (Nat.toDigits 10 n) = some n := by
    obtain ⟨value, d, ds, split, low, zero⟩ := digitsValue?_toDigits n
    have first : ∀ d < 10, d ≠ 0 → Nat.digitChar d ≠ '0' := by decide
    rw [split] at value ⊢
    by_cases hd : d = 0
    · obtain rfl := hd
      obtain rfl := zero rfl
      exact value
    · rw [literalMagnitude?]
      · exact value
      all_goals
        intros
        exact first d low hd (List.cons.inj ‹_›).1
  rw [literalValue?, magnitude]
  exact if_pos small

end Text

def Text.inString : Char → List Char
  | '\\' => ['\\', '\\']
  | '"' => ['\\', '"']
  | '\n' => ['\\', 'n']
  | a => [a]

/-- What can be written as a token. -/
inductive Word where
  /-- A keyword, an operator or a delimiter. -/
  | fixed (kind : TokenKind) (spelled : kind ∉ [.eof, .integer, .string, .identifier])
  | name (a : Char) (cs : List Char) (first : (Text.isLetter a || a = '_') = true)
      (more : ∀ c ∈ cs, Cursor.isWordChar c = true)
      (free : ∀ k ∈ TokenKind.keywords, k.name ≠ Text.ofChars (a :: cs))
  | number (n : Nat) (small : n < 2 ^ 63)
  | string (cs : List Char)

namespace Word

def text : Word → List Char
  | .fixed kind _ => kind.spelling.toList
  | .name a cs .. => a :: cs
  | .number n _ => Nat.toDigits 10 n
  | .string cs => '"' :: (cs.flatMap Text.inString ++ ['"'])

def content : Word → TokenKind × Text × Int64
  | .fixed kind _ => (kind, kind.name, 0)
  | .name a cs .. => (.identifier, Text.ofChars (a :: cs), 0)
  | .number n _ => (.integer, Text.ofChars (Nat.toDigits 10 n), Int64.ofNat n)
  | .string cs => (.string, Text.ofChars cs, 0)

end Word

inductive Gap where
  | blank (a : Char) (white : Text.isBlank a = true)
  | comment (body : List Char) (first : ¬ ['*', '/'] <:+: body)
  | note (body : List Char) (line : '\n' ∉ body)

def Gap.segments : Gap → List Segment
  | .blank a _ => [.blank a]
  | .comment body _ => [.comment body]
  | .note body _ => [.note body, .blank '\n']

/-- What begins with white space and may stand between tokens. -/
structure Separator where
  first : Char
  white : Text.isBlank first = true
  more : List Gap

def Separator.segments (s : Separator) : List Segment := .blank s.first :: s.more.flatMap Gap.segments

def Word.segment (w : Word) : Segment := .token w.text w.content.1 w.content.2.1 w.content.2.2

/-- Words in a row, each but the last one with its separator behind it. -/
def Word.row : List (Word × Separator) → List Segment
  | [] => []
  | [(w, _)] => [w.segment]
  | (w, s) :: ws => w.segment :: (s.segments ++ row ws)

def Word.print (ws : List (Word × Separator)) : Text := Text.ofChars (Segment.texts (row ws))

namespace Cursor

variable {p : Place} {cs : List Char}

/-- All of the rest is read, as a token with this content. -/
def Yields (c : Cursor) (content : TokenKind × Text × Int64) : Prop :=
  ∃ t c', c.scan = .ok (t, c') ∧ t.content = content ∧ c'.rest = []

lemma yields_fixed {kind : TokenKind} (spelled : kind ∉ [.eof, .integer, .string, .identifier]) :
    Yields ⟨{ file := [] }, kind.spelling.toList⟩ (kind, kind.name, 0) := by
  have all : ∀ kind ∈ TokenKind.all, kind ∉ [.eof, .integer, .string, .identifier] →
      (scan ⟨{ file := [] }, kind.spelling.toList⟩).toOption.map (fun x => (x.1.content, x.2.rest)) =
        some ((kind, kind.name, 0), []) := by decide +kernel
  have read := all kind (by cases kind <;> decide) spelled
  obtain ⟨⟨t, c'⟩, ok, same⟩ := Option.map_eq_some_iff.mp read
  obtain ⟨content, rest⟩ := Prod.mk.inj same
  refine ⟨t, c', ?_, content, rest⟩
  cases h : scan ⟨{ file := [] }, kind.spelling.toList⟩ with
  | error d => rw [h] at ok; cases ok
  | ok x => rw [h] at ok; cases ok; rfl

lemma yields_name (first : (Text.isLetter a || a = '_') = true) (more : ∀ c ∈ cs, isWordChar c = true)
    (free : ∀ k ∈ TokenKind.keywords, k.name ≠ Text.ofChars (a :: cs)) :
    Yields ⟨p, a :: cs⟩ (.identifier, Text.ofChars (a :: cs), 0) := by
  have all : ∀ c ∈ a :: cs, isWordChar c = true := by
    refine List.forall_mem_cons.mpr ⟨?_, more⟩
    rcases Bool.or_eq_true _ _ |>.mp first with ha | ha <;> simp [isWordChar, ha]
  have kind : TokenKind.ofWord (Text.ofChars (a :: cs)) = .identifier := by
    rw [TokenKind.ofWord, List.find?_eq_none.mpr]
    · rfl
    · intro k hk
      simpa using free k hk
  refine ⟨_, _, if_pos first, ?_, List.dropWhile_eq_nil_iff.mpr all⟩
  simp only [Token.content, token, List.takeWhile_eq_self_iff.mpr all, kind]

lemma numberChars_digits {ds : List Char} (digits : ∀ c ∈ ds, c.isDigit = true) : numberChars ds = ds := by
  fun_cases numberChars ds with
  | case1 rest => exact absurd (digits 'x' (by simp)) (by decide)
  | case2 rest => exact absurd (digits 'X' (by simp)) (by decide)
  | case3 ds =>
    exact List.takeWhile_eq_self_iff.mpr fun c hc =>
      isHexChar_of_isDigit (Text.isDigit_of_ascii (digits c hc))

lemma yields_number {n : Nat} (small : n < 2 ^ 63) :
    Yields ⟨p, Nat.toDigits 10 n⟩ (.integer, Text.ofChars (Nat.toDigits 10 n), Int64.ofNat n) := by
  have digits : ∀ c ∈ Nat.toDigits 10 n, c.isDigit = true := fun c =>
    Nat.isDigit_of_mem_toDigits (by decide) (by decide)
  obtain ⟨-, d, ds, split, low, -⟩ := Text.digitsValue?_toDigits n
  have first : ∀ d < 10, (Text.isLetter (Nat.digitChar d) || Nat.digitChar d = '_') = false ∧
      Text.isDigit (Nat.digitChar d) = true := by decide
  have step : scan ⟨p, Nat.toDigits 10 n⟩ = number ⟨p, Nat.toDigits 10 n⟩ := by
    rw [split, scan]
    simp only [(first d low).1, (first d low).2, Bool.false_eq_true, if_false, if_true]
  rw [Yields, step, number]
  simp only [numberChars_digits digits, Text.literalValue?_toDigits small]
  refine ⟨_, _, rfl, rfl, ?_⟩
  show List.dropWhile _ (skip _ _).rest = []
  rw [skip_rest, List.drop_length]
  rfl

lemma stringBody_inString (p : Place) (cs done : List Char) :
    ∃ q, stringBody ⟨p, cs.flatMap Text.inString ++ ['"']⟩ done = .ok (done.reverse ++ cs, ⟨q, []⟩) := by
  induction cs generalizing p done with
  | nil =>
    refine ⟨p.after '"', ?_⟩
    rw [stringBody_cons rfl, if_pos rfl, List.append_nil]
  | cons a cs ih =>
    -- each character is read as itself, and the rest behind it
    have later (q : Place) : ∃ q', stringBody ⟨q, cs.flatMap Text.inString ++ ['"']⟩ (a :: done) =
        .ok (done.reverse ++ a :: cs, ⟨q', []⟩) := by
      simpa using ih q (a :: done)
    rw [List.flatMap_cons, List.append_assoc]
    fun_cases Text.inString a with
    | case4 a backslash quote line =>
      obtain ⟨q, read⟩ := later (p.after a)
      refine ⟨q, ?_⟩
      rw [List.singleton_append, stringBody_cons rfl, if_neg quote, if_neg line, if_neg backslash, read]
    | _ =>
      obtain ⟨q, read⟩ := later _
      refine ⟨q, ?_⟩
      rw [List.cons_append, stringBody_cons rfl, if_neg (by decide), if_neg (by decide), if_pos rfl]
      exact read

lemma yields_string : Yields ⟨p, '"' :: (cs.flatMap Text.inString ++ ['"'])⟩ (.string, Text.ofChars cs, 0) := by
  obtain ⟨q, read⟩ := stringBody_inString (p.after '"') cs []
  rw [Yields, scan_quote rfl, stringLiteral]
  simp only [advance, read]
  exact ⟨_, _, rfl, rfl, rfl⟩

lemma Yields.code {cs : List Char} {content : TokenKind × Text × Int64} (h : Yields ⟨p, cs⟩ content)
    (r : List Char) : cs ≠ '/' :: '/' :: r ∧ cs ≠ '/' :: '*' :: r := by
  obtain ⟨t, c', ok, -, none⟩ := h
  constructor
  all_goals
    rintro rfl
    cases ok
    cases none

end Cursor

namespace Word
open Cursor

lemma yields (w : Word) : ∃ p, Yields ⟨p, w.text⟩ w.content := by
  cases w with
  | fixed kind spelled => exact ⟨_, yields_fixed spelled⟩
  | name a cs first more free => exact ⟨{ file := [] }, yields_name first more free⟩
  | number n small => exact ⟨{ file := [] }, yields_number small⟩
  | string cs => exact ⟨{ file := [] }, yields_string⟩

lemma fits (w : Word) (p : Place) {tail : List Char} (breaks : Text.Breaks tail) :
    w.segment.Fits p tail := by
  obtain ⟨q, whole⟩ := w.yields
  have code := whole.code
  obtain ⟨t, c', ok, same, none⟩ := whole
  have some : w.text ≠ [] := by
    intro empty
    rw [empty] at ok
    cases ok
    have kind := congrArg Prod.fst same
    cases w with
    | fixed _ spelled =>
      cases kind
      exact spelled (by decide)
    | _ => cases kind
  have alone : w.segment.Fits p [] := by
    refine .token some (fun r => by simpa using code r) fun q => ?_
    obtain ⟨text, split, read⟩ := scan_elsewhere some ok
    rw [none, List.append_nil] at split
    have := read q [] nofun
    rw [none, ← split, List.append_nil] at this
    rw [List.append_nil, this, ← same]
    rfl
  exact alone.before breaks

lemma fit_gaps {gaps : List Gap} {ss : List Segment} (fit : ∀ p, Segment.Fit p ss []) (p : Place) :
    Segment.Fit p (gaps.flatMap Gap.segments ++ ss) [] := by
  induction gaps generalizing p with
  | nil => exact fit p
  | cons gap gaps ih =>
    rw [List.flatMap_cons, List.append_assoc]
    cases gap with
    | blank a white => exact ⟨.blank white, ih _⟩
    | comment body first => exact ⟨.comment first, ih _⟩
    | note body line => exact ⟨.note line fun a mem => (Option.mem_some.mp mem).symm, .blank (by decide), ih _⟩

lemma fit_row (ws : List (Word × Separator)) (p : Place) : Segment.Fit p (row ws) [] := by
  fun_induction row ws generalizing p with
  | case1 => trivial
  | case2 w s => exact ⟨w.fits p nofun, trivial⟩
  | case3 w s ws more ih =>
    refine ⟨w.fits p fun a mem => ?_, .blank s.white, fit_gaps ih _⟩
    obtain rfl := Option.mem_some.mp mem
    exact s.white

lemma tokensAt_gaps (gaps : List Gap) (ss : List Segment) (p : Place) :
    ∃ q, Segment.tokensAt p (gaps.flatMap Gap.segments ++ ss) = Segment.tokensAt q ss := by
  induction gaps generalizing p with
  | nil => exact ⟨p, rfl⟩
  | cons gap gaps ih =>
    rw [List.flatMap_cons, List.append_assoc]
    cases gap with
    | note body line => exact ih ((p.past (.note body)).past (.blank '\n'))
    | blank a white => exact ih (p.past (.blank a))
    | comment body first => exact ih (p.past (.comment body))

lemma content_row (ws : List (Word × Separator)) (p : Place) :
    (Segment.tokensAt p (row ws)).map Token.content = ws.map fun w => w.1.content := by
  fun_induction row ws generalizing p with
  | case1 => rfl
  | case2 w s => rfl
  | case3 w s ws more ih =>
    obtain ⟨q, same⟩ := tokensAt_gaps s.more (row ws) ((p.past w.segment).past (.blank s.first))
    have rest : Segment.tokensAt (p.past w.segment) (s.segments ++ row ws) = Segment.tokensAt q (row ws) := same
    rw [Segment.tokensAt, rest, List.map_append, ih q]
    rfl

end Word

/-- Reading undoes writing: whatever tokens are written, with whatever separators, those are read, and the end
behind them. -/
theorem lex_print (ws : List (Word × Separator)) (file : Text) :
    ∃ ts, lex (Word.print ws) file = (ts, none) ∧
      ts.map Token.content = ws.map (fun w => w.1.content) ++ [(.eof, [], 0)] := by
  have read := (Word.fit_row ws { file }).tokens
  rw [Cursor.tokens_nil, List.append_nil] at read
  refine ⟨_, (congrArg (fun cs => Cursor.tokens ⟨{ file }, cs⟩) (Text.chars_ofChars _)).trans read, ?_⟩
  rw [List.map_append, Word.content_row]
  rfl

example : Word.print [(.string ['a', '\n'], ⟨'\n', by decide, [.note ['!'] (by decide)]⟩),
    (.number 10 (by decide), ⟨' ', by decide, []⟩)] = "\"a\\n\"\n//!\n10" := by decide

end SmallC
