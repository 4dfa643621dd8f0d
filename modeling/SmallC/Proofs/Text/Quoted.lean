import SmallC.Proofs.Text.Glyphs
import SmallC.Text.Blank
import SmallC.Text.Quoted

/-!
# Reading what was quoted

Every text is read back from its quoted form. The quoted form holds no newline, and white space only
where the text has blanks: all other white space is written as an escape.
-/

namespace SmallC.Text

open String (utf8EncodeChar)

variable {letter : Char} {n : Nat} {table : Array (Nat × Nat)} {r : Nat × Nat}

/-! ## Digits -/

def hexChar (d : Nat) : Char := Char.ofNat (if d < 10 then 48 + d else 87 + d)

variable {c : Char} {d : Nat}

lemma hexValue?_hexChar (h : d < 16) : hexValue? (hexChar d) = some d := by
  have all : ∀ d < 16, hexValue? (hexChar d) = some d := by decide
  exact all d h

def hexChars : (width n : Nat) → List Char
  | 0, _ => []
  | width + 1, n => hexChars width (n / 16) ++ [hexChar (n % 16)]

lemma encode_hexChar (h : d < 16) :
    utf8EncodeChar (hexChar d) = [UInt8.ofNat (if d < 10 then 48 + d else 87 + d)] := by
  have all : ∀ d < 16, utf8EncodeChar (hexChar d) =
      [UInt8.ofNat (if d < 10 then 48 + d else 87 + d)] := by decide
  exact all d h

lemma hexDigits_eq (width n : Nat) : hexDigits width n = ofChars (hexChars width n) := by
  induction width generalizing n with
  | zero => rfl
  | succ width ih =>
    rw [hexDigits, hexChars, ofChars, List.flatMap_append, List.flatMap_singleton,
      encode_hexChar (Nat.mod_lt n (by decide)), ih]
    rfl

lemma hexByte_eq (b : UInt8) : hexByte b = ofChars (hexChars 2 b.toNat) := by
  have := b.toNat_lt
  rw [← hexDigits_eq]
  simp only [hexDigits, hexByte, List.nil_append, List.singleton_append]
  rw [Nat.mod_eq_of_lt (show b.toNat / 16 < 16 by omega)]

lemma digitsValue?_append (base acc : Nat) (cs ds : List Char) :
    digitsValue? base acc (cs ++ ds) = (digitsValue? base acc cs).bind (digitsValue? base · ds) := by
  induction cs generalizing acc with
  | nil => rfl
  | cons c cs ih =>
    simp only [List.cons_append, digitsValue?]
    cases hexValue? c with
    | none => rfl
    | some d =>
      by_cases small : d < base
      · simp only [if_pos small, ih]
      · simp only [if_neg small, Option.bind_none]

lemma digitsValue?_hexChars (width n : Nat) :
    digitsValue? 16 0 (hexChars width n) = some (n % 16 ^ width) := by
  induction width generalizing n with
  | zero => simp [hexChars, digitsValue?, Nat.mod_one]
  | succ width ih =>
    have digit := Nat.mod_lt n (show 16 > 0 by decide)
    rw [hexChars, digitsValue?_append, ih, Option.bind_some, digitsValue?, hexValue?_hexChar digit]
    simp only [if_pos digit, digitsValue?, Option.some.injEq]
    rw [Nat.pow_succ', Nat.mod_mul]
    omega

lemma mem_hexChars {width : Nat} (h : c ∈ hexChars width n) : ∃ d < 16, c = hexChar d := by
  induction width generalizing n with
  | zero => cases h
  | succ width ih =>
    rcases List.mem_append.mp h with h | h
    · exact ih h
    · exact ⟨n % 16, Nat.mod_lt n (by decide), List.mem_singleton.mp h⟩

/-! ## Glyphs in quotes -/

def escaped (mark : Char) : Glyph → List Char
  | .char c =>
    if c = mark || c = '\\' then ['\\', c]
    else if isPrintable c then [c]
    else match controlLetter? c with
      | some letter => ['\\', letter]
      | none =>
        if c.toNat < 128 then '\\' :: 'x' :: hexChars 2 c.toNat
        else if c.toNat < 0x10000 then '\\' :: 'u' :: hexChars 4 c.toNat
        else '\\' :: 'U' :: hexChars 8 c.toNat
  | .stray b => '\\' :: 'x' :: hexChars 2 b.toNat

lemma ofChars_append (cs ds : List Char) : ofChars (cs ++ ds) = ofChars cs ++ ofChars ds :=
  List.flatMap_append

lemma quoteGlyph_eq (mark : Char) (g : Glyph) : quoteGlyph mark g = ofChars (escaped mark g) := by
  have escape (letter : Char) (digits : List Char) :
      ofChars ['\\', letter] ++ ofChars digits = ofChars ('\\' :: letter :: digits) :=
    (ofChars_append _ _).symm
  have hx : ofString "\\x" = ofChars ['\\', 'x'] := by decide
  have hu : ofString "\\u" = ofChars ['\\', 'u'] := by decide
  have hU : ofString "\\U" = ofChars ['\\', 'U'] := by decide
  cases g with
  | stray b => rw [quoteGlyph, escaped, hexByte_eq, hx, escape]
  | char c =>
    simp only [quoteGlyph, quoteChar, escaped, hx, hu, hU, hexDigits_eq, escape]
    split_ifs
    · rfl
    · rfl
    all_goals cases controlLetter? c <;> rfl

lemma quoted_eq (t : Text) :
    quoted t = ofChars (['"'] ++ (glyphs t).flatMap (escaped '"') ++ ['"']) := by
  have body (gs : List Glyph) : gs.flatMap (quoteGlyph '"') = ofChars (gs.flatMap (escaped '"')) := by
    induction gs with
    | nil => rfl
    | cons g gs ih => rw [List.flatMap_cons, List.flatMap_cons, ofChars_append, quoteGlyph_eq, ih]
  rw [quoted, body, ofChars_append, ofChars_append]

section
variable (n : Nat) (r : List Char)

lemma quotedBody?_x : quotedBody? '"' ('\\' :: 'x' :: hexChars 2 n ++ r) =
    (quotedBody? '"' r).map ([UInt8.ofNat (n % 256)] :: ·) := by
  have value : byteValue? 16 (hexChars 2 n) = some [UInt8.ofNat (n % 256)] := by
    simp only [byteValue?, digitsValue?_hexChars, show (16 : Nat) ^ 2 = 256 from rfl,
      if_pos (Nat.mod_lt n (show 256 > 0 by decide))]
  simp only [hexChars, List.nil_append, List.cons_append] at value ⊢
  rw [quotedBody?, value]
  rfl

lemma quotedBody?_codePoint {k : Nat} (is : letter = 'u' ∧ k = 4 ∨ letter = 'U' ∧ k = 8)
    (h : (n % 16 ^ k).isValidChar) : quotedBody? '"' ('\\' :: letter :: hexChars k n ++ r) =
      (quotedBody? '"' r).map (ofChars [Char.ofNat (n % 16 ^ k)] :: ·) := by
  have value : codePoint? (hexChars k n) = some (ofChars [Char.ofNat (n % 16 ^ k)]) := by
    simp only [codePoint?, digitsValue?_hexChars, if_pos h]
  rcases is with ⟨rfl, rfl⟩ | ⟨rfl, rfl⟩
  all_goals
    simp only [hexChars, List.nil_append, List.cons_append] at value ⊢
    rw [quotedBody?, value]
    rfl

end

lemma quotedBody?_control (h : controlLetter? c = some letter) (r : List Char) :
    quotedBody? '"' ('\\' :: letter :: r) = (quotedBody? '"' r).map (utf8EncodeChar c :: ·) := by
  have self : Char.ofNat c.toNat = c := Char.ofNat_toNat c
  unfold controlLetter? at h
  split at h <;> cases h <;> rename_i value <;> rw [value] at self <;> rw [quotedBody?, ← self] <;> rfl

lemma quotedBody?_mark (r : List Char) :
    quotedBody? '"' ('\\' :: '"' :: r) = (quotedBody? '"' r).map (ofChars ['"'] :: ·) := by
  rcases r with _ | ⟨d, _ | ⟨e, r⟩⟩ <;> simp [quotedBody?]

lemma quotedBody?_escaped (g : Glyph) (r : List Char) :
    quotedBody? '"' (escaped '"' g ++ r) = (quotedBody? '"' r).map (g.bytes :: ·) := by
  cases g with
  | stray b =>
    rw [escaped, quotedBody?_x, Nat.mod_eq_of_lt b.toNat_lt, UInt8.ofNat_toNat]
    rfl
  | char c =>
    have valid : c.toNat < 0xD800 ∨ 0xDFFF < c.toNat ∧ c.toNat < 0x110000 := c.valid
    have self : Char.ofNat c.toNat = c := Char.ofNat_toNat c
    have single : ofChars [c] = utf8EncodeChar c := List.append_nil _
    rw [escaped, Glyph.bytes]
    by_cases mark : c = '"'
    · subst mark
      rw [← single]
      exact quotedBody?_mark r
    by_cases slash : c = '\\'
    · subst slash
      rw [← single]
      rfl
    simp only [mark, slash, decide_false, Bool.or_self, Bool.false_eq_true, if_false]
    by_cases printable : isPrintable c = true
    · have newline : c ≠ '\n' := by
        rintro rfl
        exact absurd printable (by decide)
      rw [if_pos printable, ← single]
      exact quotedBody?_plain mark slash newline r
    rw [if_neg printable]
    cases control : controlLetter? c with
    | some letter => exact quotedBody?_control control r
    | none =>
      simp only
      split_ifs with ascii short
      · rw [quotedBody?_x, Nat.mod_eq_of_lt (by omega), encode_ascii ascii]
      · rw [quotedBody?_codePoint _ _ (.inl ⟨rfl, rfl⟩), Nat.mod_eq_of_lt (by omega), self, single]
        rw [Nat.mod_eq_of_lt (by omega)]
        exact c.valid
      · rw [quotedBody?_codePoint _ _ (.inr ⟨rfl, rfl⟩), Nat.mod_eq_of_lt (by omega), self, single]
        rw [Nat.mod_eq_of_lt (by omega)]
        exact c.valid

lemma quotedBody?_flatMap (gs : List Glyph) (r : List Char) :
    quotedBody? '"' (gs.flatMap (escaped '"') ++ r) =
      (quotedBody? '"' r).map (gs.map Glyph.bytes ++ ·) := by
  induction gs with
  | nil => simp
  | cons g gs ih =>
    rw [List.flatMap_cons, List.append_assoc, quotedBody?_escaped, ih, Option.map_map]
    rfl

/-- Every text is read back from its quoted form. -/
theorem unquoted?_quoted (t : Text) : unquoted? (chars (quoted t)) = some t := by
  rw [quoted_eq, chars_ofChars, List.append_assoc, List.singleton_append, unquoted?,
    quotedBody?_flatMap]
  have last : quotedBody? '"' ['"'] = some [] := rfl
  rw [last, Option.map_some, Option.map_some, List.append_nil, ← List.flatMap_def]
  exact congrArg some (ofGlyphs_glyphs t)

lemma unquoted?_cut (gs : List Glyph) : unquoted? ('"' :: gs.flatMap (escaped '"')) = none := by
  have := quotedBody?_flatMap gs []
  rw [List.append_nil] at this
  rw [unquoted?, this]
  rfl

/-! ## White space in quotes -/

lemma exists_range_of_search {fuel lo hi : Nat} (found : searchRanges table n fuel lo hi = true) :
    ∃ r ∈ table, r.1 ≤ n ∧ n ≤ r.2 := by
  induction fuel generalizing lo hi with
  | zero => cases found
  | succ fuel ih =>
    rw [searchRanges] at found
    split_ifs at found
    simp only at found
    split at found
    · cases found
    · rename_i first last at_
      split_ifs at found
      · exact ih found
      · exact ih found
      · exact ⟨(first, last), Array.mem_of_getElem? at_, by omega, by omega⟩

def wideBlanks : List Nat :=
  [0x85, 0xA0, 0x1680, 0x2000, 0x2001, 0x2002, 0x2003, 0x2004, 0x2005, 0x2006, 0x2007, 0x2008, 0x2009,
    0x200A, 0x2028, 0x2029, 0x202F, 0x205F, 0x3000]

lemma mem_wideBlanks (blank : isBlank c = true) (wide : ¬ c.toNat < 128) : c.toNat ∈ wideBlanks := by
  simp only [isBlank, Bool.or_eq_true, Bool.and_eq_true, decide_eq_true_eq] at blank
  simp only [wideBlanks, List.mem_cons, List.not_mem_nil]
  omega

/-- No range of a table holds white space, as a pass over the table shows. -/
def missesBlanks (table : Array (Nat × Nat)) : Bool :=
  table.toList.all fun r => wideBlanks.all fun n => n.blt r.1 || r.2.blt n

lemma outside_of_missesBlanks (h : missesBlanks table = true) (mem : r ∈ table) (hn : n ∈ wideBlanks) :
    n < r.1 ∨ r.2 < n := by
  have row := List.all_eq_true.mp h r (Array.mem_toList_iff.mpr mem)
  have := List.all_eq_true.mp row n hn
  rwa [Bool.or_eq_true, Nat.blt_eq, Nat.blt_eq] at this

lemma outside_printableRanges (mem : r ∈ printableRanges) (hn : n ∈ wideBlanks) : n < r.1 ∨ r.2 < n := by
  simp only [printableRanges, Array.mem_append] at mem
  rcases mem with (((((mem | mem) | mem) | mem) | mem) | mem) | mem
  all_goals exact outside_of_missesBlanks (by decide +kernel) mem hn

lemma eq_blank_of_isPrintable (blank : isBlank c = true) (printable : isPrintable c = true) :
    c = ' ' := by
  have self : Char.ofNat c.toNat = c := Char.ofNat_toNat c
  by_cases ascii : c.toNat < 128
  · rw [isPrintable, if_pos ascii] at printable
    simp only [isBlank, Bool.or_eq_true, Bool.and_eq_true, decide_eq_true_eq] at blank printable
    rw [← self, show c.toNat = 0x20 by omega]
  · rw [isPrintable, if_neg ascii] at printable
    obtain ⟨r, mem, low, high⟩ := exists_range_of_search printable
    have := outside_printableRanges mem (mem_wideBlanks blank ascii)
    omega

lemma not_isBlank_hexChar (h : d < 16) : ¬ isBlank (hexChar d) = true := by
  have all : ∀ d < 16, ¬ isBlank (hexChar d) = true := by decide
  exact all d h

lemma not_isBlank_controlLetter (h : controlLetter? c = some letter) : ¬ isBlank letter = true := by
  unfold controlLetter? at h
  split at h <;> cases h <;> decide

lemma not_isBlank_escape {letter : Char} {width n : Nat} (plain : ¬ isBlank letter = true)
    (mem : c ∈ '\\' :: letter :: hexChars width n) : ¬ isBlank c = true := by
  rcases List.mem_cons.mp mem with rfl | mem
  · decide
  rcases List.mem_cons.mp mem with rfl | mem
  · exact plain
  obtain ⟨d, hd, rfl⟩ := mem_hexChars mem
  exact not_isBlank_hexChar hd

lemma eq_blank_of_mem_escaped {g : Glyph} (mem : c ∈ escaped '"' g) (blank : isBlank c = true) :
    c = ' ' ∧ g = .char ' ' := by
  cases g with
  | stray b => exact absurd blank (not_isBlank_escape (by decide) mem)
  | char a =>
    rw [escaped] at mem
    by_cases special : (a = '"' || a = '\\') = true
    · rw [if_pos special] at mem
      have plain : ¬ isBlank a = true := by
        rcases Bool.or_eq_true _ _ ▸ special with h | h <;> obtain rfl := of_decide_eq_true h <;> decide
      exact absurd blank (@not_isBlank_escape _ _ 0 0 plain mem)
    rw [if_neg special] at mem
    by_cases printable : isPrintable a = true
    · rw [if_pos printable] at mem
      obtain rfl := List.mem_singleton.mp mem
      have := eq_blank_of_isPrintable blank printable
      exact ⟨this, congrArg _ this⟩
    rw [if_neg printable] at mem
    exfalso
    cases control : controlLetter? a with
    | some letter =>
      rw [control] at mem
      exact @not_isBlank_escape _ _ 0 0 (not_isBlank_controlLetter control) mem blank
    | none =>
      simp only [control] at mem
      split_ifs at mem
      all_goals exact not_isBlank_escape (by decide) mem blank

lemma newline_notMem_escaped (g : Glyph) : '\n' ∉ escaped '"' g := fun mem =>
  absurd (eq_blank_of_mem_escaped mem rfl).1 (by decide)

end SmallC.Text
