import SmallC.LineMarker
import SmallC.Proofs.Text.Quoted

/-!
# Reading line markers that were written

A marker that was written is read back with its line, and with its file unless a blank stands in the
name of the file: the line is cut at white space, and the quoted name is cut with it.
-/

namespace SmallC

namespace Text

/-! ## Stretches -/

section
variable {α : Type} {p : α → Bool}
variable {w : List α} {a b : α}

lemma stretches_cons_of_pos (ha : p a = true) (l : List α) :
    stretches p (a :: l) = stretches p l := by
  simp only [stretches, if_pos ha]

lemma stretches_cons_of_end (ha : p a = false) (hb : p b = true) (l : List α) :
    stretches p (a :: b :: l) = [a] :: stretches p (b :: l) := by
  cases found : stretches p (b :: l) with
  | nil =>
    unfold stretches
    rw [if_neg (by simp [ha]), found]
  | cons w ws =>
    unfold stretches
    rw [if_neg (by simp [ha]), found]
    exact if_pos hb

lemma stretches_cons_of_neg {l : List α} {ws : List (List α)} (ha : p a = false) (hb : p b = false)
    (hl : stretches p (b :: l) = w :: ws) : stretches p (a :: b :: l) = (a :: w) :: ws := by
  unfold stretches
  rw [if_neg (by simp [ha]), hl]
  exact if_neg (by simp [hb])

section
variable (rest : List α) (hne : w ≠ []) (hw : ∀ a ∈ w, p a = false)
include hne hw

lemma stretches_front (ends : ∀ a ∈ rest.head?, p a = true) :
    stretches p (w ++ rest) = w :: stretches p rest := by
  induction w with
  | nil => exact absurd rfl hne
  | cons a w ih =>
    have ha := hw a List.mem_cons_self
    cases w with
    | nil =>
      cases rest with
      | nil => simp [stretches, ha]
      | cons b l => exact stretches_cons_of_end ha (ends b rfl) l
    | cons a' w =>
      have rest := ih (List.cons_ne_nil _ _) fun x hx => hw x (List.mem_cons_of_mem a hx)
      exact stretches_cons_of_neg ha (hw a' (by simp)) rest

lemma stretches_append (hb : p b = true) (l : List α) :
    stretches p (w ++ b :: l) = w :: stretches p l := by
  rw [stretches_front _ hne hw (by simpa using hb), stretches_cons_of_pos hb]

lemma stretches_self : stretches p w = [w] := by
  simpa [stretches] using stretches_front [] hne hw (by simp)

end

lemma stretches_lead {lead rest : List α} (blank : ∀ a ∈ lead, p a = true) (hne : w ≠ [])
    (hw : ∀ a ∈ w, p a = false) (ends : ∀ a ∈ rest.head?, p a = true) :
    stretches p (lead ++ (w ++ rest)) = w :: stretches p rest := by
  induction lead with
  | nil => exact stretches_front _ hne hw ends
  | cons a lead ih =>
    obtain ⟨ha, blank⟩ := List.forall_mem_cons.mp blank
    rw [List.cons_append, stretches_cons_of_pos ha, ih blank]

lemma exists_of_stretches {l : List α} {ws : List (List α)} (h : stretches p l = w :: ws) :
    ∃ lead rest, l = lead ++ (w ++ rest) ∧ (∀ a ∈ lead, p a = true) ∧ w ≠ [] ∧ (∀ a ∈ w, p a = false) ∧
      (∀ a ∈ rest.head?, p a = true) ∧ ws = stretches p rest := by
  induction l with
  | nil => cases h
  | cons a l ih =>
    by_cases ha : p a = true
    · rw [stretches_cons_of_pos ha] at h
      obtain ⟨lead, rest, rfl, blank, more⟩ := ih h
      exact ⟨a :: lead, rest, rfl, List.forall_mem_cons.mpr ⟨ha, blank⟩, more⟩
    · let q : α → Bool := fun a => !p a
      have whole : a :: l = (a :: l).takeWhile q ++ (a :: l).dropWhile q := List.takeWhile_append_dropWhile.symm
      have hne : (a :: l).takeWhile q ≠ [] := by simp [q, ha]
      have hw : ∀ b ∈ (a :: l).takeWhile q, p b = false := fun b mem => by
        simpa [q] using List.all_eq_true.mp List.all_takeWhile b mem
      have ends : ∀ b ∈ ((a :: l).dropWhile q).head?, p b = true := fun b mem => by
        have := List.head?_dropWhile_not q (a :: l)
        rw [mem] at this
        simpa [q] using this
      have first := stretches_lead (List.forall_mem_nil _) hne hw ends
      rw [List.nil_append, ← whole, h] at first
      cases first
      exact ⟨[], _, whole, by simp, hne, hw, ends, rfl⟩

lemma stripBoth_cons (ha : p a = true) {first : α} (hfirst : p first = false) (hb : p b = false) :
    stripBoth p (a :: first :: (w ++ [b])) = first :: (w ++ [b]) := by
  rw [stripBoth, List.dropWhile_cons_of_pos ha, List.dropWhile_cons_of_neg (by simp [hfirst]),
    List.reverse_cons, List.reverse_append, List.reverse_singleton, List.singleton_append,
    List.cons_append, List.dropWhile_cons_of_neg (by simp [hb])]
  simp

end

/-! ## Decimal numbers -/

lemma digitByte_eq {d : Nat} (h : d < 10) : [digitByte d] = ofChars [hexChar d] := by
  have all : ∀ d < 10, [digitByte d] = ofChars [hexChar d] := by decide
  exact all d h

lemma decimalBefore_chars {fuel n : Nat} (h : n < fuel) (acc : Text) :
    ∃ ds, decimalBefore fuel n acc = ofChars ds ++ acc ∧ ds ≠ [] ∧
      (∀ c ∈ ds, ∃ d < 10, c = hexChar d) ∧ digitsValue? 10 0 ds = some n := by
  induction fuel generalizing n acc with
  | zero => omega
  | succ fuel ih =>
    rw [decimalBefore]
    by_cases small : n < 10
    · refine ⟨[hexChar n], ?_, List.cons_ne_nil _ _, ?_, ?_⟩
      · rw [if_pos small, ← digitByte_eq small]
        rfl
      · intro c hc
        exact ⟨n, small, List.mem_singleton.mp hc⟩
      · simp [digitsValue?, hexValue?_hexChar (show n < 16 by omega), small]
    · have last : n % 10 < 10 := Nat.mod_lt n (by decide)
      obtain ⟨ds, digits, -, all, value⟩ := ih (n := n / 10) (by omega) (digitByte (n % 10) :: acc)
      refine ⟨ds ++ [hexChar (n % 10)], ?_, by simp, ?_, ?_⟩
      · rw [if_neg small, digits, ofChars_append, ← digitByte_eq last, List.append_assoc,
          List.singleton_append]
      · intro c hc
        rcases List.mem_append.mp hc with hc | hc
        · exact all c hc
        · exact ⟨n % 10, last, List.mem_singleton.mp hc⟩
      · rw [digitsValue?_append, value, Option.bind_some, digitsValue?,
          hexValue?_hexChar (show n % 10 < 16 by omega)]
        simp only [if_pos last, digitsValue?, Option.some.injEq]
        omega

lemma ofNat_chars (n : Nat) : ∃ ds, ofNat n = ofChars ds ∧ ds ≠ [] ∧
    (∀ c ∈ ds, ∃ d < 10, c = hexChar d) ∧ digitsValue? 10 0 ds = some n := by
  obtain ⟨ds, digits, rest⟩ := decimalBefore_chars (Nat.lt_succ_self n) []
  exact ⟨ds, by rw [ofNat, digits, List.append_nil], rest⟩

lemma signedDecimal?_digits {ds : List Char} {n : Nat} (hne : ds ≠ [])
    (digits : ∀ c ∈ ds, ∃ d < 10, c = hexChar d) (value : digitsValue? 10 0 ds = some n)
    (hn : n < 2 ^ 63) : signedDecimal? ds = some (Int64.ofNat n) := by
  obtain ⟨c, cs, rfl⟩ := List.exists_cons_of_ne_nil hne
  obtain ⟨d, hd, rfl⟩ := digits c List.mem_cons_self
  have sign : ∀ d < 10, hexChar d ≠ '-' ∧ hexChar d ≠ '+' := by decide
  have small : n < 9223372036854775808 := hn
  simp [signedDecimal?, value, small, (sign d hd).1, (sign d hd).2]

end Text

namespace LineMarker
open Text

/-! ## The quoted name -/

/-- In a marker, `name` stands after the number and white space, up to white space or the end of the line. -/
def Names (text name : List Char) : Prop :=
  ∃ lead number gap rest, bare text = lead ++ (number ++ (gap ++ (name ++ rest))) ∧
    (∀ a ∈ lead, isBlank a = true) ∧ (∀ a ∈ number, isBlank a = false) ∧ (signedDecimal? number).isSome = true ∧
    gap ≠ [] ∧ (∀ a ∈ gap, isBlank a = true) ∧ ∀ a ∈ rest.head?, isBlank a = true

lemma read?_file {text : List Char} {file : Text} : (read? text).bind LineMarker.file = some file ↔
    ∃ name, Names text name ∧ unquoted? name = some file ∧ ∀ a ∈ name, isBlank a = false := by
  unfold read?
  constructor
  · intro h
    cases fields : stretches isBlank (bare text) with
    | nil => simp [fields] at h
    | cons number more =>
      simp only [fields] at h
      obtain ⟨lead, after, split, blank, -, solid, ends, rfl⟩ := exists_of_stretches fields
      cases value : signedDecimal? number with
      | none => simp [value] at h
      | some n =>
        rw [value] at h
        cases second : stretches isBlank after with
        | nil => simp [second] at h
        | cons name others =>
          obtain ⟨gap, rest, rfl, gaps, hne, solid', ends', -⟩ := exists_of_stretches second
          refine ⟨name, ⟨lead, number, gap, rest, split, blank, solid, by simp [value], ?_, gaps, ends'⟩,
            by simpa [second] using h, solid'⟩
          rintro rfl
          obtain ⟨a, name, rfl⟩ := List.exists_cons_of_ne_nil hne
          have := ends a rfl
          simp [solid' a List.mem_cons_self] at this
  · rintro ⟨name, ⟨lead, number, gap, rest, split, blank, solid, value, hne, gaps, ends⟩, quoted, whole⟩
    obtain ⟨n, value⟩ := Option.isSome_iff_exists.mp value
    have some : number ≠ [] := by
      rintro rfl
      cases value
    have some' : name ≠ [] := by
      rintro rfl
      cases quoted
    obtain ⟨b, gap, rfl⟩ := List.exists_cons_of_ne_nil hne
    rw [split, stretches_lead blank some solid fun a mem => gaps a (by
      obtain rfl := Option.mem_some.mp mem
      exact List.mem_cons_self), stretches_lead gaps some' whole ends]
    simp [value, quoted]

structure Written (n : Nat) (file : Text) (body : List Char) : Prop where
  render : render n file = ofChars ('#' :: (body ++ ['\n']))
  line : '\n' ∉ body
  read : n < 2 ^ 63 → read? body =
    some { line := Int64.ofNat n, file := if ' ' ∈ chars file then none else some file }

lemma blank_mem_chars {t : Text} : ' ' ∈ chars t ↔ Glyph.char ' ' ∈ glyphs t := by
  rw [chars, List.mem_map]
  constructor
  · rintro ⟨g, mem, blank⟩
    cases g with
    | char c =>
      obtain rfl : c = ' ' := blank
      exact mem
    | stray b => exact absurd blank (by decide : replacement ≠ ' ')
  · exact fun mem => ⟨_, mem, rfl⟩

lemma head?_stretches_quoted (file : Text) :
    (stretches isBlank (chars (quoted file))).head?.bind unquoted? =
      if ' ' ∈ chars file then none else some file := by
  have mark : isBlank '"' = false := by decide
  have plain {gs : List Glyph} (none : Glyph.char ' ' ∉ gs) :
      ∀ c ∈ gs.flatMap (escaped '"'), isBlank c = false := by
    intro c mem
    obtain ⟨g, hg, hc⟩ := List.mem_flatMap.mp mem
    exact Bool.eq_false_iff.mpr fun blank => none ((eq_blank_of_mem_escaped hc blank).2 ▸ hg)
  by_cases blank : ' ' ∈ chars file
  · obtain ⟨before, after, split, first⟩ := List.eq_append_cons_of_mem (blank_mem_chars.mp blank)
    have cut : chars (quoted file) = ('"' :: before.flatMap (escaped '"')) ++
        ' ' :: (after.flatMap (escaped '"') ++ ['"']) := by
      have one : escaped '"' (.char ' ') = [' '] := by decide
      rw [quoted_eq, chars_ofChars, split, List.flatMap_append, List.flatMap_cons, one]
      simp
    rw [if_pos blank, cut, stretches_append (List.cons_ne_nil _ _) _ (by decide), List.head?_cons,
      Option.bind_some, unquoted?_cut]
    exact List.forall_mem_cons.mpr ⟨mark, plain first⟩
  · have whole : stretches isBlank (chars (quoted file)) = [chars (quoted file)] := by
      refine stretches_self ?_ ?_
      · rw [quoted_eq, chars_ofChars]
        simp
      · rw [quoted_eq, chars_ofChars]
        intro c mem
        simp only [List.mem_append, List.mem_singleton] at mem
        rcases mem with (rfl | mem) | rfl
        · exact mark
        · exact plain (fun h => blank (blank_mem_chars.mpr h)) c mem
        · exact mark
    rw [if_neg blank, whole, List.head?_cons, Option.bind_some, unquoted?_quoted]

lemma exists_written (n : Nat) (file : Text) : ∃ body, Written n file body := by
  obtain ⟨ds, digits, hne, all, value⟩ := ofNat_chars n
  have digit : ∀ d < 10, isBlank (hexChar d) = false ∧ hexChar d ≠ '\n' ∧ hexChar d ≠ 'l' := by
    decide
  have inner : chars (quoted file) = '"' :: ((glyphs file).flatMap (escaped '"') ++ ['"']) := by
    rw [quoted_eq, chars_ofChars, List.append_assoc, List.singleton_append]
  refine ⟨' ' :: (ds ++ ' ' :: chars (quoted file)), ?_, ?_, ?_⟩
  · have mark : ofString "# " = ofChars ['#', ' '] := by decide
    have blank : ofString " " = ofChars [' '] := by decide
    have newline : ofString "\n" = ofChars ['\n'] := by decide
    rw [LineMarker.render, digits, mark, blank, newline, inner, quoted_eq]
    simp only [← ofChars_append]
    simp
  · simp only [inner, List.mem_cons, List.mem_append, not_or, List.mem_flatMap, not_exists, not_and]
    refine ⟨by decide, ?_, by decide, by decide, fun g _ => newline_notMem_escaped g, by decide, by simp⟩
    intro mem
    obtain ⟨d, hd, eq⟩ := all _ mem
    exact (digit d hd).2.1 eq.symm
  · intro hn
    obtain ⟨first, more, rfl⟩ := List.exists_cons_of_ne_nil hne
    obtain ⟨d, hd, eq⟩ := all first List.mem_cons_self
    have blank : ∀ c ∈ first :: more, isBlank c = false := by
      intro c mem
      obtain ⟨d, hd, rfl⟩ := all c mem
      exact (digit d hd).1
    have stripped : stripBoth isBlank (' ' :: (first :: more ++ ' ' :: chars (quoted file))) =
        first :: more ++ ' ' :: chars (quoted file) := by
      have := stripBoth_cons (p := isBlank) (a := ' ') (b := '"') (by decide)
        (w := more ++ ' ' :: '"' :: (glyphs file).flatMap (escaped '"'))
        (blank first List.mem_cons_self) (by decide)
      rw [inner]
      simpa using this
    have fields : stretches isBlank (first :: more ++ ' ' :: chars (quoted file)) =
        (first :: more) :: stretches isBlank (chars (quoted file)) :=
      stretches_append (List.cons_ne_nil _ _) blank (by decide) _
    have letter : first ≠ 'l' := eq ▸ (digit d hd).2.2
    rw [List.cons_append] at stripped fields
    simp [read?, bare, stripped, letter, fields, signedDecimal?_digits hne all value hn,
      head?_stretches_quoted]

end LineMarker
end SmallC
