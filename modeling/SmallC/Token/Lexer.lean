import SmallC.Fault
import SmallC.LineMarker
import SmallC.Text.Digit
import SmallC.Text.Letter

/-!
# From characters to tokens

A cursor is what is left of the source with the place where it begins. Scanning one token either
fails with a diagnostic at the place reached, or gives the token and a shorter rest, so reading
all tokens ends. The end of the source reads as the character NUL.

Comments, white space and lines that begin with `#` stand between tokens; of the latter, line
markers set the place of the next line.
-/

namespace SmallC

/-- A position, and whether only blanks and tabs precede it on its line. -/
structure Place where
  line : Int64 := 1
  file : Text
  fresh : Bool := true
  deriving DecidableEq, Repr

structure Cursor where
  place : Place
  rest : List Char
  deriving DecidableEq, Repr

def Place.after (p : Place) (c : Char) : Place :=
  if c = '\n' then { p with line := p.line + 1, fresh := true }
  else { p with fresh := p.fresh && (c = ' ' || c = '\t') }

def Place.afterAll (p : Place) (cs : List Char) : Place := cs.foldl Place.after p

def Place.marked (p : Place) (m : LineMarker) : Place :=
  { p with line := m.line, file := m.file.getD p.file }

namespace Cursor

def peek (c : Cursor) : Char := c.rest.headD '\x00'

def advance (c : Cursor) : Cursor :=
  match c.rest with
  | [] => c
  | a :: rest => ⟨c.place.after a, rest⟩

def skip : Nat → Cursor → Cursor
  | 0, c => c
  | n + 1, c => skip n c.advance

/-- Moves past the characters that satisfy `p`. -/
def skipWhile (p : Char → Bool) (c : Cursor) : Cursor :=
  ⟨c.place.afterAll (c.rest.takeWhile p), c.rest.dropWhile p⟩

def fail {α : Type} (c : Cursor) (fault : Fault) : Except Diagnostic α :=
  .error { fault, line := c.place.line, file := c.place.file }

def token (c : Cursor) (kind : TokenKind) (lexeme : Text) (line : Int64)
    (value : Int64 := 0) : Token :=
  { kind, lexeme, value, line, file := c.place.file }

/-! ## Between tokens -/

/-- Past the end of a block comment, or where the source ends. -/
def commentEnd : Place → List Char → Except Place Cursor
  | p, '*' :: '/' :: rest => .ok ⟨(p.after '*').after '/', rest⟩
  | p, a :: rest => commentEnd (p.after a) rest
  | p, [] => .error p

def notNewline (a : Char) : Bool := a ≠ '\n'

/-- Past a line that begins with `#`, which may be a line marker. -/
def lineEnd (c : Cursor) : Cursor :=
  let next := (c.skipWhile notNewline).advance
  match LineMarker.read? ((c.rest.takeWhile notNewline).drop 1) with
  | none => next
  | some m => ⟨next.place.marked m, next.rest⟩

theorem advance_rest (c : Cursor) : c.advance.rest = c.rest.tail := by
  unfold advance
  split <;> simp_all

theorem skipWhile_rest_le (p : Char → Bool) (c : Cursor) :
    (c.skipWhile p).rest.length ≤ c.rest.length := by
  show (c.rest.dropWhile p).length ≤ c.rest.length
  exact (List.dropWhile_suffix p).length_le

theorem skipWhile_rest_lt {p : Char → Bool} {c : Cursor} {a : Char} {rest : List Char}
    (h : c.rest = a :: rest) (ha : p a = true) :
    (c.skipWhile p).rest.length < c.rest.length := by
  show (c.rest.dropWhile p).length < c.rest.length
  have := (List.dropWhile_suffix (l := rest) p).length_le
  rw [h, List.dropWhile_cons_of_pos ha, List.length_cons]
  omega

theorem commentEnd_rest_le {p : Place} {cs : List Char} {c : Cursor}
    (h : commentEnd p cs = .ok c) : c.rest.length ≤ cs.length := by
  fun_induction commentEnd p cs with
  | case1 p rest => cases h; simp; omega
  | case2 p a rest _ ih => have := ih h; simp; omega
  | case3 => cases h

theorem lineEnd_rest_lt {c : Cursor} {a : Char} {rest : List Char} (h : c.rest = a :: rest)
    (ha : notNewline a = true) : c.lineEnd.rest.length < c.rest.length := by
  have key : (c.skipWhile notNewline).advance.rest.length < c.rest.length := by
    have := skipWhile_rest_lt h ha
    rw [advance_rest, List.length_tail]
    omega
  unfold lineEnd
  simp only
  split <;> exact key

/-- The next place where a token or the end of the source stands. -/
def skipTrivia (c : Cursor) : Except Diagnostic Cursor :=
  match _h : c.rest with
  | [] => .ok c
  | '/' :: '/' :: _ => skipTrivia (c.skipWhile notNewline)
  | '/' :: '*' :: rest =>
    let opened := (c.place.after '/').after '*'
    match _hc : commentEnd opened rest with
    | .ok next => skipTrivia next
    | .error p => fail ⟨p, []⟩ (.unterminatedComment opened.line)
  | a :: rest =>
    if Text.isBlank a then skipTrivia ⟨c.place.after a, rest⟩
    else if _hm : a = '#' ∧ c.place.fresh = true then skipTrivia c.lineEnd
    else .ok c
termination_by c.rest.length
decreasing_by
  · exact skipWhile_rest_lt _h (by decide)
  · have := commentEnd_rest_le _hc
    rw [_h, List.length_cons, List.length_cons]
    omega
  · simp [_h]
  · exact lineEnd_rest_lt _h (by rw [_hm.1]; decide)

/-! ## Words and numbers -/

def isWordChar (c : Char) : Bool := Text.isLetter c || Text.isDigit c || c = '_'

def isHexChar (c : Char) : Bool :=
  Text.isDigit c || ('a' ≤ c && c ≤ 'f') || ('A' ≤ c && c ≤ 'F')

def isSuffixChar (c : Char) : Bool := c = 'l' || c = 'L' || c = 'u' || c = 'U'

def word (c : Cursor) : Token × Cursor :=
  let next := c.skipWhile isWordChar
  let lexeme := Text.ofChars (c.rest.takeWhile isWordChar)
  (next.token (TokenKind.ofWord lexeme) lexeme c.place.line, next)

/-- The characters of an integer literal: an optional `0x`, then digits and letters up to `f`. -/
def numberChars : List Char → List Char
  | '0' :: 'x' :: rest => '0' :: 'x' :: rest.takeWhile isHexChar
  | '0' :: 'X' :: rest => '0' :: 'X' :: rest.takeWhile isHexChar
  | cs => cs.takeWhile isHexChar

def number (c : Cursor) : Except Diagnostic (Token × Cursor) :=
  let digits := numberChars c.rest
  let next := c.skip digits.length
  let lexeme := Text.ofChars digits
  match Text.literalValue? digits with
  | none => next.fail (.badInteger lexeme)
  | some value =>
    let last := next.skipWhile isSuffixChar
    .ok (last.token .integer lexeme c.place.line value, last)

/-! ## Characters and strings -/

def hexValue (c : Char) : Int32 := Int32.ofNat ((Text.hexValue? c).getD 0)

def isOctal (c : Char) : Bool := '0' ≤ c && c ≤ '7'

/-- The code after a backslash; codes are 32-bit words and wrap. -/
def escape (c : Cursor) : Except Diagnostic (Int32 × Cursor) :=
  let next := c.advance
  match c.rest with
  | 'a' :: _ => .ok (7, next)
  | 'b' :: _ => .ok (8, next)
  | 'f' :: _ => .ok (12, next)
  | 'n' :: _ => .ok (10, next)
  | 'r' :: _ => .ok (13, next)
  | 't' :: _ => .ok (9, next)
  | 'v' :: _ => .ok (11, next)
  | 'x' :: rest =>
    let value := (rest.takeWhile isHexChar).foldl (fun v d => v * 16 + hexValue d) 0
    .ok (value, next.skipWhile isHexChar)
  | a :: rest =>
    if a = '\\' || a = '\x27' || a = '"' then .ok (Int32.ofNat a.toNat, next)
    else if isOctal a then
      let digits := a :: (rest.take 2).takeWhile isOctal
      .ok (digits.foldl (fun v d => v * 8 + hexValue d) 0, c.skip digits.length)
    else next.fail (.unknownEscape a)
  | [] => next.fail (.unknownEscape '\x00')

/-- A code as a character; one that no character has becomes the replacement character. -/
def charOfCode (code : Int32) : Char :=
  if h : 0 ≤ code.toInt ∧ code.toInt.toNat.isValidChar then
    Char.ofNatAux code.toInt.toNat h.2
  else Text.replacement

theorem skip_rest (n : Nat) (c : Cursor) : (skip n c).rest = c.rest.drop n := by
  induction n generalizing c with
  | zero => simp [skip]
  | succ n ih => simp [skip, ih, advance_rest, List.drop_tail]

theorem escape_rest_lt {c next : Cursor} {v : Int32} (h : escape c = .ok (v, next)) :
    next.rest.length < c.rest.length := by
  have one : c.rest ≠ [] → c.advance.rest.length < c.rest.length := by
    intro hne
    rw [advance_rest]
    cases hr : c.rest with
    | nil => exact absurd hr hne
    | cons a r => simp
  unfold escape at h
  simp only at h
  split at h
  case h_8 r hr =>
    cases h
    have := one (by simp [hr])
    have := skipWhile_rest_le isHexChar c.advance
    omega
  case h_9 a r _ _ _ _ _ _ _ _ hr =>
    split at h
    · cases h
      exact one (by simp [hr])
    · split at h
      · cases h
        rw [skip_rest, hr]
        simp only [List.length_cons, List.drop_succ_cons, List.length_drop]
        omega
      · cases h
  case h_10 => cases h
  all_goals
    rename_i hr
    cases h
    exact one (by simp [hr])

/-- The characters of a string literal up to its closing quote, which is passed. -/
def stringBody (c : Cursor) (done : List Char) : Except Diagnostic (List Char × Cursor) :=
  match _h : c.rest with
  | [] => c.fail .unterminatedString
  | a :: rest =>
    if a = '"' then .ok (done.reverse, ⟨c.place.after a, rest⟩)
    else if a = '\n' then c.fail .unterminatedString
    else if a = '\\' then
      match _he : escape ⟨c.place.after a, rest⟩ with
      | .error d => .error d
      | .ok (code, next) => stringBody next (charOfCode code :: done)
    else stringBody ⟨c.place.after a, rest⟩ (a :: done)
termination_by c.rest.length
decreasing_by
  · have := escape_rest_lt _he
    simp_all
    omega
  · simp [_h]

def stringLiteral (c : Cursor) : Except Diagnostic (Token × Cursor) :=
  match stringBody c.advance [] with
  | .error d => .error d
  | .ok (chars, next) => .ok (next.token .string (Text.ofChars chars) c.place.line, next)

/-- A character literal is an integer with the code of its character. -/
def charLiteral (c : Cursor) : Except Diagnostic (Token × Cursor) :=
  let first := c.advance
  if first.peek = '\x27' then first.fail .emptyCharacter
  else
    let content : Except Diagnostic (Int32 × Cursor) :=
      if first.peek = '\\' then escape first.advance
      else .ok (Int32.ofNat first.peek.toNat, first.advance)
    match content with
    | .error d => .error d
    | .ok (code, next) =>
      if next.peek ≠ '\x27' then next.fail .unterminatedCharacter
      else
        let last := next.advance
        .ok (last.token .integer (Text.ofInt code.toInt) c.place.line
          (Int64.ofInt code.toInt), last)

/-! ## Operators and the whole -/

def symbolOfTwo : Char → Char → Option TokenKind
  | '+', '+' => some .plusPlus
  | '+', '=' => some .plusAssign
  | '-', '-' => some .minusMinus
  | '-', '>' => some .arrow
  | '-', '=' => some .minusAssign
  | '*', '=' => some .starAssign
  | '/', '=' => some .slashAssign
  | '%', '=' => some .percentAssign
  | '&', '&' => some .andLogical
  | '|', '|' => some .orLogical
  | '!', '=' => some .notEquals
  | '=', '=' => some .equals
  | '<', '<' => some .shiftLeft
  | '<', '=' => some .lessEq
  | '>', '>' => some .shiftRight
  | '>', '=' => some .greaterEq
  | _, _ => none

def symbolOfOne : Char → Option TokenKind
  | '\x7b' => some .lbrace
  | '\x7d' => some .rbrace
  | '(' => some .lparen
  | ')' => some .rparen
  | '[' => some .lbracket
  | ']' => some .rbracket
  | '.' => some .dot
  | ';' => some .semicolon
  | ',' => some .comma
  | ':' => some .colon
  | '?' => some .question
  | '~' => some .tilde
  | '^' => some .caret
  | '+' => some .plus
  | '-' => some .minus
  | '*' => some .star
  | '/' => some .slash
  | '%' => some .percent
  | '&' => some .amp
  | '|' => some .pipe
  | '!' => some .bang
  | '=' => some .assign
  | '<' => some .less
  | '>' => some .greater
  | _ => none

/-- The longest operator or delimiter that begins the rest. -/
def symbolOf : List Char → Option TokenKind
  | a :: b :: _ => (symbolOfTwo a b).or (symbolOfOne a)
  | [a] => symbolOfOne a
  | [] => none

def operator (c : Cursor) (a : Char) : Except Diagnostic (Token × Cursor) :=
  match symbolOf c.rest with
  | none => c.advance.fail (.unrecognised a)
  | some kind =>
    let next := c.skip kind.spelling.length
    .ok (next.token kind kind.name c.place.line, next)

/-- The token at the beginning of the rest, which is no trivia. -/
def scan (c : Cursor) : Except Diagnostic (Token × Cursor) :=
  match c.rest with
  | [] => .ok (c.token .eof [] c.place.line, c)
  | a :: _ =>
    if Text.isLetter a || a = '_' then .ok c.word
    else if Text.isDigit a then c.number
    else if a = '"' then c.stringLiteral
    else if a = '\x27' then c.charLiteral
    else c.operator a

def next (c : Cursor) : Except Diagnostic (Token × Cursor) :=
  match c.skipTrivia with
  | .error d => .error d
  | .ok start => start.scan

theorem skipTrivia_rest_le {c c' : Cursor} (h : c.skipTrivia = .ok c') :
    c'.rest.length ≤ c.rest.length := by
  fun_induction skipTrivia c with
  | case1 c hr => cases h; simp [hr]
  | case2 c _ hr ih =>
    have := ih h
    have := skipWhile_rest_le notNewline c
    omega
  | case3 c rest hr _ next hc ih =>
    have := ih h
    have := commentEnd_rest_le hc
    rw [hr, List.length_cons, List.length_cons]
    omega
  | case4 => cases h
  | case5 c a rest _ _ hr _ ih =>
    have := ih h
    simp_all
    omega
  | case6 c a rest _ _ hr _ hm ih =>
    have := ih h
    have := lineEnd_rest_lt hr (by rw [hm.1]; decide)
    omega
  | case7 => cases h; exact Nat.le_refl _

theorem advance_rest_lt {c : Cursor} (h : c.rest ≠ []) : c.advance.rest.length < c.rest.length := by
  rw [advance_rest]
  cases hr : c.rest with
  | nil => exact absurd hr h
  | cons a r => simp

theorem stringBody_rest_lt {c c' : Cursor} {done cs : List Char}
    (h : stringBody c done = .ok (cs, c')) : c'.rest.length < c.rest.length := by
  fun_induction stringBody c done with
  | case1 => cases h
  | case2 c done rest hr => cases h; simp [hr]
  | case3 => cases h
  | case4 => cases h
  | case5 c done rest hr _ _ code next he ih =>
    have := ih h
    have := escape_rest_lt he
    simp_all
    omega
  | case6 c done a rest hr _ _ _ ih =>
    have := ih h
    simp_all
    omega

theorem spelling_length_pos (kind : TokenKind) : 0 < kind.spelling.length := by
  cases kind <;> decide

theorem skip_rest_lt {n : Nat} {c : Cursor} (hn : 0 < n) (h : c.rest ≠ []) :
    (c.skip n).rest.length < c.rest.length := by
  rw [skip_rest, List.length_drop]
  have := List.length_pos_iff.2 h
  omega

theorem isHexChar_of_isDigit {a : Char} (h : Text.isDigit a = true) : isHexChar a = true := by
  simp [isHexChar, h]

theorem numberChars_length_pos {a : Char} {rest : List Char} (h : Text.isDigit a = true) :
    0 < (numberChars (a :: rest)).length := by
  unfold numberChars
  split
  · simp
  · simp
  · simp [isHexChar_of_isDigit h]

theorem number_rest_lt {c c' : Cursor} {t : Token} {a : Char} {rest : List Char}
    (hr : c.rest = a :: rest) (ha : Text.isDigit a = true) (h : c.number = .ok (t, c')) :
    c'.rest.length < c.rest.length := by
  unfold number at h
  simp only at h
  split at h
  · cases h
  · cases h
    have hpos : 0 < (numberChars c.rest).length := by rw [hr]; exact numberChars_length_pos ha
    have := skip_rest_lt hpos (by simp [hr] : c.rest ≠ [])
    have := skipWhile_rest_le isSuffixChar (c.skip (numberChars c.rest).length)
    omega

theorem stringLiteral_rest_lt {c c' : Cursor} {t : Token} (hr : c.rest ≠ [])
    (h : c.stringLiteral = .ok (t, c')) : c'.rest.length < c.rest.length := by
  unfold stringLiteral at h
  split at h
  · cases h
  · rename_i hb
    cases h
    have := stringBody_rest_lt hb
    have := advance_rest_lt hr
    omega

theorem charLiteral_rest_lt {c c' : Cursor} {t : Token} (hr : c.rest ≠ [])
    (h : c.charLiteral = .ok (t, c')) : c'.rest.length < c.rest.length := by
  have hadv : ∀ d : Cursor, d.advance.rest.length ≤ d.rest.length := by
    intro d
    rw [advance_rest, List.length_tail]
    omega
  have h1 := advance_rest_lt hr
  unfold charLiteral at h
  simp only at h
  split at h
  · cases h
  · split at h
    · cases h
    · rename_i code next he
      have hnext : next.rest.length ≤ c.advance.rest.length := by
        split at he
        · have := escape_rest_lt he
          have := hadv c.advance
          omega
        · cases he
          exact hadv _
      split at h
      · cases h
      · cases h
        have := hadv next
        omega

theorem operator_rest_lt {c c' : Cursor} {t : Token} {a : Char} (hr : c.rest ≠ [])
    (h : c.operator a = .ok (t, c')) : c'.rest.length < c.rest.length := by
  unfold operator at h
  split at h
  · cases h
  · cases h
    exact skip_rest_lt (spelling_length_pos _) hr

theorem word_rest_lt {c : Cursor} {a : Char} {rest : List Char} (hr : c.rest = a :: rest)
    (ha : isWordChar a = true) : c.word.2.rest.length < c.rest.length :=
  skipWhile_rest_lt hr ha

/-- A token other than the end of the source uses up some of it. -/
theorem scan_rest_lt {c c' : Cursor} {t : Token} (h : c.scan = .ok (t, c')) :
    c'.rest.length < c.rest.length ∨ t.kind = .eof ∧ c' = c := by
  unfold scan at h
  split at h
  · cases h
    exact .inr ⟨rfl, rfl⟩
  · rename_i a rest hr
    have hne : c.rest ≠ [] := by simp [hr]
    left
    split at h
    · rename_i ha
      cases h
      refine word_rest_lt hr ?_
      rcases Bool.or_eq_true _ _ |>.mp ha with ha | ha <;> simp [isWordChar, ha]
    · split at h
      · exact number_rest_lt hr (by assumption) h
      · split at h
        · exact stringLiteral_rest_lt hne h
        · split at h
          · exact charLiteral_rest_lt hne h
          · exact operator_rest_lt hne h

theorem next_rest_lt {c c' : Cursor} {t : Token} (h : c.next = .ok (t, c'))
    (ht : t.kind ≠ .eof) : c'.rest.length < c.rest.length := by
  unfold next at h
  split at h
  · cases h
  · rename_i start hs
    have := skipTrivia_rest_le hs
    rcases scan_rest_lt h with hlt | ⟨he, _⟩
    · omega
    · exact absurd he ht

/-- All tokens of the rest, the end of the source included, or those before a diagnostic. -/
def tokens (c : Cursor) : List Token × Option Diagnostic :=
  match _h : c.next with
  | .error d => ([], some d)
  | .ok (t, rest) =>
    if _ht : t.kind = .eof then ([t], none)
    else
      let (ts, d) := rest.tokens
      (t :: ts, d)
termination_by c.rest.length
decreasing_by exact next_rest_lt _h _ht

end Cursor

/-- The tokens of a source. `file` names it until a line marker names another file. -/
def lex (source file : Text) : List Token × Option Diagnostic :=
  Cursor.tokens ⟨{ file }, Text.chars source⟩

end SmallC
