import Mathlib
import SmallC.Text

/-!
# Glyphs and characters

A text that was made from characters is read as these characters, whatever follows it, and the
glyphs of any text have its bytes. So nothing is lost between bytes, glyphs and characters but what
stray bytes were.
-/

namespace SmallC.Text

open String (utf8EncodeChar)

variable {tail : Text} (cs : List Char) (c : Char) (t : Text) {b a : UInt8}

/-! ## Sequences of bytes -/

section
variable {a b c d n : UInt8}

lemma not_lt_of_toNat_le (h : n.toNat ≤ a.toNat) : ¬ a < n :=
  fun lt => absurd (UInt8.lt_iff_toNat_lt.mp lt) (Nat.not_lt_of_le h)

lemma not_le_of_toNat_lt (h : n.toNat < a.toNat) : ¬ a ≤ n :=
  fun le => absurd (UInt8.le_iff_toNat_le.mp le) (Nat.not_le_of_lt h)

lemma firstGlyph_one (h : a.toNat < 128) (t : Text) :
    firstGlyph a t = (.char (Char.ofNat a.toNat), 0) := by
  have small : a < 0x80 := UInt8.lt_iff_toNat_lt.mpr h
  simp only [firstGlyph, if_pos small]

lemma firstGlyph_two (ha : 0xC2 ≤ a.toNat) (ha' : a.toNat ≤ 0xDF) (hb : isTail b = true) (t : Text) :
    firstGlyph a (b :: t) = (.char (Char.ofNat (a.toNat % 32 * 64 + b.toNat % 64)), 1) := by
  have large : ¬ a < 0x80 := not_lt_of_toNat_le (by simp; omega)
  have first : (0xC2 ≤ a && a ≤ 0xDF && isTail b) = true := by
    simp [UInt8.le_iff_toNat_le, hb, ha, ha']
  rcases t with _ | ⟨x, _ | ⟨y, t⟩⟩ <;> simp only [firstGlyph, if_neg large, if_pos first]

lemma firstGlyph_three (ha : 0xE0 ≤ a.toNat) (ha' : a.toNat ≤ 0xEF) (hb : mayFollow a b = true)
    (hc : isTail c = true) (t : Text) :
    firstGlyph a (b :: c :: t) =
      (.char (Char.ofNat (a.toNat % 16 * 4096 + b.toNat % 64 * 64 + c.toNat % 64)), 2) := by
  have large : ¬ a < 0x80 := not_lt_of_toNat_le (by simp; omega)
  have second : ¬ (0xC2 ≤ a && a ≤ 0xDF && isTail b) = true := by
    simp [not_le_of_toNat_lt (a := a) (n := 0xDF) (by simp; omega)]
  have third : (0xE0 ≤ a && a ≤ 0xEF && mayFollow a b && isTail c) = true := by
    simp [UInt8.le_iff_toNat_le, hb, hc, ha, ha']
  cases t <;> simp only [firstGlyph, if_neg large, if_neg second, if_pos third]

lemma firstGlyph_four (ha : 0xF0 ≤ a.toNat) (ha' : a.toNat ≤ 0xF4) (hb : mayFollow a b = true)
    (hc : isTail c = true) (hd : isTail d = true) (t : Text) :
    firstGlyph a (b :: c :: d :: t) = (.char (Char.ofNat
      (a.toNat % 8 * 262144 + b.toNat % 64 * 4096 + c.toNat % 64 * 64 + d.toNat % 64)), 3) := by
  have large : ¬ a < 0x80 := not_lt_of_toNat_le (by simp; omega)
  have second : ¬ (0xC2 ≤ a && a ≤ 0xDF && isTail b) = true := by
    simp [not_le_of_toNat_lt (a := a) (n := 0xDF) (by simp; omega)]
  have third : ¬ (0xE0 ≤ a && a ≤ 0xEF && mayFollow a b && isTail c) = true := by
    simp [not_le_of_toNat_lt (a := a) (n := 0xEF) (by simp; omega)]
  have fourth : (0xF0 ≤ a && a ≤ 0xF4 && mayFollow a b && isTail c && isTail d) = true := by
    simp [UInt8.le_iff_toNat_le, hb, hc, hd, ha, ha']
  simp only [firstGlyph, if_neg large, if_neg second, if_neg third, if_pos fourth]

lemma isTail_iff : isTail b = true ↔ 0x80 ≤ b.toNat ∧ b.toNat ≤ 0xBF := by
  simp [isTail, UInt8.le_iff_toNat_le]

lemma mayFollow_iff : mayFollow a b = true ↔ 0x80 ≤ b.toNat ∧ b.toNat ≤ 0xBF ∧
    (a.toNat = 0xE0 → 0xA0 ≤ b.toNat) ∧ (a.toNat = 0xED → b.toNat ≤ 0x9F) ∧
    (a.toNat = 0xF0 → 0x90 ≤ b.toNat) ∧ (a.toNat = 0xF4 → b.toNat ≤ 0x8F) := by
  have same (n : UInt8) : a = n ↔ a.toNat = n.toNat := UInt8.toNat_inj.symm
  unfold mayFollow
  simp only [same]
  split_ifs <;> simp [isTail_iff, UInt8.le_iff_toNat_le] at * <;> omega

end

/-! ## From characters and back -/

lemma toNat_ofNat_of_lt {n : Nat} (h : n < 256) : (UInt8.ofNat n).toNat = n :=
  UInt8.toNat_ofNat_of_lt' h

lemma isTail_ofNat (n : Nat) : isTail (UInt8.ofNat (n % 64 + 128)) = true := by
  rw [isTail_iff, toNat_ofNat_of_lt (by omega)]
  omega

lemma firstGlyph_encode : ∃ a tail, utf8EncodeChar c = a :: tail ∧
    ∀ t, firstGlyph a (tail ++ t) = (.char c, tail.length) := by
  have valid : c.toNat < 0xD800 ∨ 0xDFFF < c.toNat ∧ c.toNat < 0x110000 := c.valid
  have self : Char.ofNat c.toNat = c := Char.ofNat_toNat c
  have value : c.val.toNat = c.toNat := rfl
  unfold utf8EncodeChar
  rw [value]
  generalize c.toNat = v at valid self
  simp only
  split_ifs with one two three
  · refine ⟨_, _, rfl, fun t => ?_⟩
    have small : (UInt8.ofNat v).toNat = v := toNat_ofNat_of_lt (by omega)
    rw [List.nil_append, firstGlyph_one (by omega), small, self]
    rfl
  · refine ⟨_, _, rfl, fun t => ?_⟩
    have ha := toNat_ofNat_of_lt (n := v / 64 % 32 + 192) (by omega)
    have hb := toNat_ofNat_of_lt (n := v % 64 + 128) (by omega)
    rw [List.singleton_append, firstGlyph_two (by omega) (by omega) (isTail_ofNat v), ha, hb,
      show (v / 64 % 32 + 192) % 32 * 64 + (v % 64 + 128) % 64 = v by omega, self]
    rfl
  · refine ⟨_, _, rfl, fun t => ?_⟩
    have ha := toNat_ofNat_of_lt (n := v / 4096 % 16 + 224) (by omega)
    have hb := toNat_ofNat_of_lt (n := v / 64 % 64 + 128) (by omega)
    have hc := toNat_ofNat_of_lt (n := v % 64 + 128) (by omega)
    rw [List.cons_append, List.singleton_append,
      firstGlyph_three (by omega) (by omega) (mayFollow_iff.mpr (by omega)) (isTail_ofNat v),
      ha, hb, hc, show (v / 4096 % 16 + 224) % 16 * 4096 + (v / 64 % 64 + 128) % 64 * 64
        + (v % 64 + 128) % 64 = v by omega, self]
    rfl
  · refine ⟨_, _, rfl, fun t => ?_⟩
    have ha := toNat_ofNat_of_lt (n := v / 262144 % 8 + 240) (by omega)
    have hb := toNat_ofNat_of_lt (n := v / 4096 % 64 + 128) (by omega)
    have hc := toNat_ofNat_of_lt (n := v / 64 % 64 + 128) (by omega)
    have hd := toNat_ofNat_of_lt (n := v % 64 + 128) (by omega)
    rw [List.cons_append, List.cons_append, List.singleton_append,
      firstGlyph_four (by omega) (by omega) (mayFollow_iff.mpr (by omega)) (isTail_ofNat (v / 64))
        (isTail_ofNat v), ha, hb, hc, hd,
      show (v / 262144 % 8 + 240) % 8 * 262144 + (v / 4096 % 64 + 128) % 64 * 4096
        + (v / 64 % 64 + 128) % 64 * 64 + (v % 64 + 128) % 64 = v by omega, self]
    rfl

lemma glyphsFrom_append (l t : Text) : glyphsFrom l.length (l ++ t) = glyphs t := by
  induction l with
  | nil => rfl
  | cons a l ih => simpa [glyphsFrom] using ih

lemma glyphs_encode_append : glyphs (utf8EncodeChar c ++ t) = .char c :: glyphs t := by
  obtain ⟨a, tail, bytes, first⟩ := firstGlyph_encode c
  rw [bytes, List.cons_append, glyphs, glyphsFrom, first t]
  simp only [glyphsFrom_append]

lemma glyphs_ofChars_append : glyphs (ofChars cs ++ t) = cs.map .char ++ glyphs t := by
  induction cs with
  | nil => rfl
  | cons c cs ih =>
    rw [ofChars, List.flatMap_cons, List.append_assoc, glyphs_encode_append]
    exact congrArg _ ih

lemma chars_ofChars_append : chars (ofChars cs ++ t) = cs ++ chars t := by
  rw [chars, glyphs_ofChars_append, List.map_append, List.map_map]
  exact congrArg (· ++ _) (List.map_id'' (fun _ => rfl) cs)

@[simp] lemma chars_ofChars : chars (ofChars cs) = cs := by
  have := chars_ofChars_append cs []
  rwa [List.append_nil, show chars [] = [] from rfl, List.append_nil] at this

section
variable {a b c d : UInt8} {v : Nat}

lemma ofNat_eq (h : v = a.toNat) : UInt8.ofNat v = a := by
  rw [h]
  exact UInt8.ofNat_toNat

lemma val_ofNat (h : v.isValidChar) : (Char.ofNat v).val.toNat = v := by
  rw [Char.ofNat, dif_pos h]
  rfl

lemma encode_ascii {c : Char} (h : c.toNat < 128) : utf8EncodeChar c = [UInt8.ofNat c.toNat] :=
  if_pos (Nat.le_of_lt_succ h)

lemma encode_one (h : a.toNat < 128) : utf8EncodeChar (Char.ofNat a.toNat) = [a] := by
  simp only [utf8EncodeChar, val_ofNat (v := a.toNat) (.inl (by omega)),
    if_pos (show a.toNat ≤ 127 by omega)]
  rw [ofNat_eq rfl]

lemma encode_two (ha : 0xC2 ≤ a.toNat) (ha' : a.toNat ≤ 0xDF) (hb : isTail b = true) :
    utf8EncodeChar (Char.ofNat (a.toNat % 32 * 64 + b.toNat % 64)) = [a, b] := by
  rw [isTail_iff] at hb
  have value := val_ofNat (v := a.toNat % 32 * 64 + b.toNat % 64) (.inl (by omega))
  simp only [utf8EncodeChar, value]
  rw [if_neg (by omega), if_pos (by omega), ofNat_eq (a := a) (by omega), ofNat_eq (a := b) (by omega)]

lemma encode_three (ha : 0xE0 ≤ a.toNat) (ha' : a.toNat ≤ 0xEF) (hb : mayFollow a b = true)
    (hc : isTail c = true) :
    utf8EncodeChar (Char.ofNat (a.toNat % 16 * 4096 + b.toNat % 64 * 64 + c.toNat % 64)) =
      [a, b, c] := by
  rw [isTail_iff] at hc
  rw [mayFollow_iff] at hb
  have value := val_ofNat (v := a.toNat % 16 * 4096 + b.toNat % 64 * 64 + c.toNat % 64)
    (by unfold Nat.isValidChar; omega)
  simp only [utf8EncodeChar, value]
  rw [if_neg (by omega), if_neg (by omega), if_pos (by omega), ofNat_eq (a := a) (by omega),
    ofNat_eq (a := b) (by omega), ofNat_eq (a := c) (by omega)]

lemma encode_four (ha : 0xF0 ≤ a.toNat) (ha' : a.toNat ≤ 0xF4) (hb : mayFollow a b = true)
    (hc : isTail c = true) (hd : isTail d = true) :
    utf8EncodeChar (Char.ofNat
      (a.toNat % 8 * 262144 + b.toNat % 64 * 4096 + c.toNat % 64 * 64 + d.toNat % 64)) =
      [a, b, c, d] := by
  rw [isTail_iff] at hc hd
  rw [mayFollow_iff] at hb
  have value := val_ofNat
    (v := a.toNat % 8 * 262144 + b.toNat % 64 * 4096 + c.toNat % 64 * 64 + d.toNat % 64)
    (by unfold Nat.isValidChar; omega)
  simp only [utf8EncodeChar, value]
  rw [if_neg (by omega), if_neg (by omega), if_neg (by omega), ofNat_eq (a := a) (by omega),
    ofNat_eq (a := b) (by omega), ofNat_eq (a := c) (by omega), ofNat_eq (a := d) (by omega)]

end

lemma firstGlyph_cases (a : UInt8) (t : Text) : firstGlyph a t = (.stray a, 0) ∨
    ∃ c tail rest, t = tail ++ rest ∧ utf8EncodeChar c = a :: tail ∧
      firstGlyph a t = (.char c, tail.length) := by
  by_cases one : a.toNat < 128
  · exact .inr ⟨_, [], t, rfl, encode_one one, firstGlyph_one one t⟩
  have large : ¬ a < 0x80 := fun h => one (UInt8.lt_iff_toNat_lt.mp h)
  rcases t with _ | ⟨b, t⟩
  · left
    simp only [firstGlyph, if_neg large]
  by_cases two : 0xC2 ≤ a.toNat ∧ a.toNat ≤ 0xDF ∧ isTail b = true
  · exact .inr ⟨_, [b], t, rfl, encode_two two.1 two.2.1 two.2.2, firstGlyph_two two.1 two.2.1 two.2.2 t⟩
  have two : ¬ (0xC2 ≤ a && a ≤ 0xDF && isTail b) = true := by
    simpa [UInt8.le_iff_toNat_le, and_assoc] using two
  rcases t with _ | ⟨c, t⟩
  · left
    simp only [firstGlyph, if_neg large, if_neg two]
  by_cases three : 0xE0 ≤ a.toNat ∧ a.toNat ≤ 0xEF ∧ mayFollow a b = true ∧ isTail c = true
  · obtain ⟨ha, ha', hb, hc⟩ := three
    exact .inr ⟨_, [b, c], t, rfl, encode_three ha ha' hb hc, firstGlyph_three ha ha' hb hc t⟩
  have three : ¬ (0xE0 ≤ a && a ≤ 0xEF && mayFollow a b && isTail c) = true := by
    simpa [UInt8.le_iff_toNat_le, and_assoc] using three
  rcases t with _ | ⟨d, t⟩
  · left
    simp only [firstGlyph, if_neg large, if_neg two, if_neg three]
  by_cases four : 0xF0 ≤ a.toNat ∧ a.toNat ≤ 0xF4 ∧ mayFollow a b = true ∧ isTail c = true ∧
      isTail d = true
  · obtain ⟨ha, ha', hb, hc, hd⟩ := four
    exact .inr ⟨_, [b, c, d], t, rfl, encode_four ha ha' hb hc hd, firstGlyph_four ha ha' hb hc hd t⟩
  have four : ¬ (0xF0 ≤ a && a ≤ 0xF4 && mayFollow a b && isTail c && isTail d) = true := by
    simpa [UInt8.le_iff_toNat_le, and_assoc] using four
  left
  simp only [firstGlyph, if_neg large, if_neg two, if_neg three, if_neg four]

lemma glyphs_cases (a : UInt8) (t : Text) :
    ∃ g rest, a :: t = g.bytes ++ rest ∧ glyphs (a :: t) = g :: glyphs rest := by
  rcases firstGlyph_cases a t with first | ⟨c, tail, rest, rfl, bytes, first⟩
  · refine ⟨.stray a, t, rfl, ?_⟩
    rw [glyphs, glyphsFrom, first]
    rfl
  · refine ⟨.char c, rest, ?_, ?_⟩
    · rw [Glyph.bytes, bytes, List.cons_append]
    · rw [← List.cons_append, ← bytes, glyphs_encode_append]

lemma bytes_ne_nil (g : Glyph) : g.bytes ≠ [] := by
  cases g with
  | char c => exact String.utf8EncodeChar_ne_nil
  | stray b => exact List.cons_ne_nil b []

@[simp] lemma ofGlyphs_glyphs : ofGlyphs (glyphs t) = t := by
  induction len : t.length using Nat.strongRecOn generalizing t with
  | _ n ih =>
    rcases t with _ | ⟨a, t⟩
    · rfl
    obtain ⟨g, rest, split, first⟩ := glyphs_cases a t
    have shorter : rest.length < n := by
      have total := congrArg List.length split
      have some := List.length_pos_iff.mpr (bytes_ne_nil g)
      rw [List.length_append] at total
      omega
    rw [first, ofGlyphs, List.flatMap_cons, split]
    exact congrArg _ (ih _ shorter rest rfl)

/-! ## Lines -/

lemma isTail_of_encode {c : Char} (bytes : utf8EncodeChar c = a :: tail) (mem : b ∈ tail) :
    isTail b = true := by
  unfold utf8EncodeChar at bytes
  simp only at bytes
  split_ifs at bytes
  all_goals
    obtain ⟨-, rfl⟩ := List.cons.inj bytes
    simp only [List.mem_cons, List.not_mem_nil, or_false] at mem
  · subst mem
    exact isTail_ofNat _
  · rcases mem with rfl | rfl <;> exact isTail_ofNat _
  · rcases mem with rfl | rfl | rfl <;> exact isTail_ofNat _

lemma firstGlyph_of_encode {c : Char} (bytes : utf8EncodeChar c = a :: tail) (t : Text) :
    firstGlyph a (tail ++ t) = (.char c, tail.length) := by
  obtain ⟨a', tail', bytes', first⟩ := firstGlyph_encode c
  obtain ⟨rfl, rfl⟩ := List.cons.inj (bytes.symm.trans bytes')
  exact first t

lemma firstGlyph_ascii (hb : b.toNat < 128) (a : UInt8) (t rest : Text) :
    firstGlyph a (t ++ b :: rest) = firstGlyph a t := by
  rcases firstGlyph_cases a t with stray | ⟨c, tail, t, rfl, bytes, -⟩
  · rcases firstGlyph_cases a (t ++ b :: rest) with stray' | ⟨c, tail, after, split, bytes, -⟩
    · rw [stray, stray']
    · have inside : ∃ t', t = tail ++ t' := by
        rcases List.append_eq_append_iff.mp split with ⟨beyond, whole, begins⟩ | ⟨t', whole, -⟩
        · cases beyond with
          | nil => exact ⟨[], by rw [whole, List.append_nil, List.append_nil]⟩
          | cons _ beyond =>
            obtain ⟨rfl, -⟩ := List.cons.inj begins
            have tailed := isTail_iff.mp (isTail_of_encode (b := b) bytes (by simp [whole]))
            omega
        · exact ⟨t', whole⟩
      obtain ⟨t', rfl⟩ := inside
      rw [List.append_assoc, firstGlyph_of_encode bytes, firstGlyph_of_encode bytes]
  · rw [List.append_assoc, firstGlyph_of_encode bytes, firstGlyph_of_encode bytes]

/-- No character goes on in a byte of ASCII. -/
lemma glyphsFrom_ascii (hb : b.toNat < 128) {skip : Nat} {t : Text} (le : skip ≤ t.length) (rest : Text) :
    glyphsFrom skip (t ++ b :: rest) = glyphsFrom skip t ++ .char (.ofNat b.toNat) :: glyphs rest := by
  induction t generalizing skip with
  | nil =>
    obtain rfl := Nat.le_zero.mp le
    simp only [List.nil_append, glyphsFrom, firstGlyph_one hb]
    rfl
  | cons a t ih =>
    cases skip with
    | succ skip => exact ih (Nat.le_of_succ_le_succ le)
    | zero =>
      have within : (firstGlyph a t).2 ≤ t.length := by
        rcases firstGlyph_cases a t with stray | ⟨c, tail, t, rfl, -, first⟩
        · rw [stray]
          exact Nat.zero_le _
        · rw [first, List.length_append]
          exact Nat.le_add_right _ _
      rw [List.cons_append, glyphsFrom, firstGlyph_ascii hb, glyphsFrom]
      exact congrArg (List.cons _) (ih within)

lemma chars_line (rest : Text) : chars (t ++ 10 :: rest) = chars t ++ '\n' :: chars rest := by
  rw [chars, glyphs, glyphsFrom_ascii (by decide) (Nat.zero_le _), List.map_append]
  rfl

end SmallC.Text
