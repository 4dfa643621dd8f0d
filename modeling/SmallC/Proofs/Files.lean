import Mathlib
import SmallC.Files

/-!
# Names of files

Two names are of one file if they have the same path. What making and removing a file does to the
others, and what becomes of the suffix of a name: a product has the suffix it was given, its path
has the suffix of its name, and a product of a product is a product of the file itself.
-/

namespace SmallC

namespace Files

variable {name other path : Text} {fs' : Files} {letter : Char}
variable {fs : Files}

/-- Both names are of the same file. -/
def Same (name other : Text) : Prop := pathOf name = pathOf other

instance (name other : Text) : Decidable (Same name other) :=
  inferInstanceAs (Decidable (pathOf name = pathOf other))

lemma Same.find? (h : Same name other) (fs : Files) : fs.find? name = fs.find? other := by
  rw [Files.find?, Files.find?, h]

lemma lookup_filter_ne (h : path ≠ other) (entries : List (Text × Text)) :
    (entries.filter fun e => e.1 ≠ other).lookup path = entries.lookup path := by
  induction entries with
  | nil => rfl
  | cons e rest ih =>
    obtain ⟨p, content⟩ := e
    by_cases at_other : p = other
    · have apart : (path == p) = false := by simpa [at_other] using h
      simp only [List.filter_cons, List.lookup_cons, at_other]
      simpa [← at_other, apart] using ih
    · simp only [List.filter_cons, List.lookup_cons, at_other, ne_eq, not_false_eq_true,
        decide_true, if_true, ih]

lemma lookup_filter_self (path : Text) (entries : List (Text × Text)) :
    (entries.filter fun e => e.1 ≠ path).lookup path = none := by
  rw [List.lookup_eq_none_iff]
  intro e he
  have apart : e.1 ≠ path := by simpa using (List.mem_filter.mp he).2
  simpa using apart.symm

lemma find?_put_of_not_same (h : ¬ Same other name) (content : Text) :
    (fs.put name content).find? other = fs.find? other := by
  have apart : (pathOf other == pathOf name) = false := by simpa [Same] using h
  rw [Files.find?, put, List.lookup_cons, apart]
  exact lookup_filter_ne h fs.entries

lemma find?_drop_of_not_same (h : ¬ Same other name) : (fs.drop name).find? other = fs.find? other :=
  lookup_filter_ne h fs.entries

lemma find?_drop_self (name : Text) : (fs.drop name).find? name = none :=
  lookup_filter_self (pathOf name) fs.entries

lemma write_eq_ok {content : Text} (h : fs.write name content = .ok fs') : fs' = fs.put name content := by
  unfold write at h
  split at h
  · cases h
  · split at h
    · cases h
    · exact (Except.ok.inj h).symm

lemma remove_eq_ok (h : fs.remove name = .ok fs') : fs' = fs.drop name := by
  unfold remove at h
  split at h
  · cases h
  · exact (Except.ok.inj h).symm

lemma remove_of_refused_nil (h : fs.refusedRemoval = []) (name : Text) :
    fs.remove name = .ok (fs.drop name) := by
  rw [remove, h]
  rfl

end Files

/-! ## Suffixes -/

namespace Path

/-- A text that can follow the last dot of a name. -/
def IsSuffix (t : Text) : Prop := t ≠ [] ∧ '.'.toUInt8 ∉ t ∧ slash ∉ t

variable {t : Text} {b : UInt8}

lemma takeWhile_ne_append (h : b ∉ t) (rest : Text) : (t ++ b :: rest).takeWhile (· ≠ b) = t := by
  have passes : ∀ a ∈ t, decide (a ≠ b) = true := by
    intro a ha
    simpa using fun e : a = b => h (e ▸ ha)
  rw [List.takeWhile_append_of_pos passes, List.takeWhile_cons_of_neg (by simp), List.append_nil]

lemma extension_append (h : IsSuffix t) (stem : Text) :
    extension (stem ++ '.'.toUInt8 :: t) = '.'.toUInt8 :: t := by
  obtain ⟨-, undotted, unslashed⟩ := h
  have passes : ∀ a ∈ t.reverse ++ ['.'.toUInt8], decide (a ≠ slash) = true := by
    intro a ha
    rcases List.mem_append.mp ha with ha | ha
    · simpa using fun e : a = slash => unslashed (e ▸ List.mem_reverse.mp ha)
    · rw [List.mem_singleton.mp ha]
      rfl
  have reversed : (stem ++ '.'.toUInt8 :: t).reverse
      = (t.reverse ++ ['.'.toUInt8]) ++ stem.reverse := by simp
  have last : (stem ++ '.'.toUInt8 :: t).reverse.takeWhile (· ≠ slash)
      = t.reverse ++ '.'.toUInt8 :: stem.reverse.takeWhile (· ≠ slash) := by
    rw [reversed, List.takeWhile_append_of_pos passes, List.append_assoc, List.singleton_append]
  unfold extension
  rw [last, if_pos (by simp), takeWhile_ne_append (by simpa using undotted), List.reverse_reverse]

lemma exists_of_extension (h : extension path ≠ []) :
    ∃ stem t, '.'.toUInt8 ∉ t ∧ slash ∉ t ∧ path = stem ++ '.'.toUInt8 :: t
      ∧ extension path = '.'.toUInt8 :: t := by
  generalize last_eq : path.reverse.takeWhile (· ≠ slash) = last
  have dotted : last.contains '.'.toUInt8 := by
    by_contra undotted
    exact h (by rw [extension, last_eq, if_neg undotted])
  obtain ⟨u, v, last_split, undotted⟩ := List.eq_append_cons_of_mem (List.contains_iff_mem.mp dotted)
  obtain ⟨w, path_split⟩ : ∃ w, path.reverse = last ++ w :=
    ⟨_, (last_eq ▸ List.takeWhile_append_dropWhile).symm⟩
  refine ⟨(v ++ w).reverse, u.reverse, by simpa using undotted, ?_, ?_, ?_⟩
  · intro mem
    have inside : slash ∈ last := by
      rw [last_split]
      exact List.mem_append_left _ (List.mem_reverse.mp mem)
    have := List.mem_takeWhile_imp (last_eq ▸ inside)
    simp at this
  · rw [← List.reverse_reverse path, path_split, last_split]
    simp
  · rw [extension, last_eq, if_pos dotted, last_split, takeWhile_ne_append undotted]

lemma withExtension?_append (h : IsSuffix t) (stem : Text) (letter : Char) :
    withExtension? (stem ++ '.'.toUInt8 :: t) letter
      = some (stem ++ Text.ofChars ['.', letter]) := by
  have replaceable : '.'.toUInt8 :: t ≠ dot := by simpa [dot] using h.1
  simp [withExtension?, extension_append h, replaceable]

lemma exists_of_withExtension? (h : withExtension? path letter = some name) :
    ∃ stem t, IsSuffix t ∧ path = stem ++ '.'.toUInt8 :: t
      ∧ name = stem ++ Text.ofChars ['.', letter] := by
  have replaceable : extension path ≠ [] ∧ extension path ≠ dot := by
    by_contra other
    have : extension path = [] ∨ extension path = dot := by
      by_contra both
      exact other (not_or.mp both)
    simp [withExtension?, this] at h
  obtain ⟨stem, t, undotted, unslashed, path_eq, ext_eq⟩ := exists_of_extension replaceable.1
  have suffix : IsSuffix t := by
    refine ⟨?_, undotted, unslashed⟩
    rintro rfl
    exact replaceable.2 ext_eq
  refine ⟨stem, t, suffix, path_eq, ?_⟩
  rw [path_eq, withExtension?_append suffix] at h
  exact (Option.some.inj h).symm

lemma splitAt_of_notMem (h : b ∉ t) : Text.splitAt b t = [t] := by
  induction t with
  | nil => rfl
  | cons a rest ih =>
    rw [List.mem_cons, not_or] at h
    rw [Text.splitAt, ih h.2]
    simp [Ne.symm h.1]

lemma exists_splitAt_append (h : b ∉ t) (stem : Text) :
    ∃ parts last, Text.splitAt b (stem ++ t) = parts ++ [last ++ t] := by
  induction stem with
  | nil => exact ⟨[], [], splitAt_of_notMem h⟩
  | cons a rest ih =>
    obtain ⟨parts, last, split_eq⟩ := ih
    rw [List.cons_append, Text.splitAt, split_eq]
    cases parts with
    | nil =>
      by_cases separates : a = b
      · exact ⟨[[]], last, by simp [separates]⟩
      · exact ⟨[], a :: last, by simp [separates]⟩
    | cons part parts =>
      by_cases separates : a = b
      · exact ⟨[] :: part :: parts, last, by simp [separates]⟩
      · exact ⟨(a :: part) :: parts, last, by simp [separates]⟩

lemma exists_intercalate_append (separator : Text) (parts : List Text) (last : Text) :
    ∃ front, separator.intercalate (parts ++ [last]) = front ++ last := by
  induction parts with
  | nil => exact ⟨[], by simp [List.intercalate]⟩
  | cons part parts ih =>
    obtain ⟨front, join_eq⟩ := ih
    refine ⟨part ++ separator ++ front, ?_⟩
    have more : parts ++ [last] ≠ [] := by simp
    rw [List.cons_append, List.intercalate_cons_of_ne_nil more, join_eq]
    simp

lemma append_suffix_ne_dots (h : IsSuffix t) (front : Text) :
    front ++ '.'.toUInt8 :: t ≠ dot ∧ front ++ '.'.toUInt8 :: t ≠ dotDot := by
  obtain ⟨nonempty, undotted, -⟩ := h
  constructor
  · intro eq
    rcases List.append_eq_cons_iff.mp eq with ⟨-, rest⟩ | ⟨_, -, rest⟩
    · exact nonempty (List.cons.inj rest).2
    · simp at rest
  · intro eq
    rcases List.append_eq_cons_iff.mp eq with ⟨-, rest⟩ | ⟨_, -, rest⟩
    · exact undotted (by simp [(List.cons.inj rest).2])
    · rcases List.cons_eq_append_iff.mp rest with ⟨-, rest⟩ | ⟨_, -, rest⟩
      · exact nonempty (List.cons.inj rest).2
      · simp at rest

lemma exists_pathOf_append (h : IsSuffix t) (stem : Text) :
    ∃ front, Files.pathOf (stem ++ '.'.toUInt8 :: t) = front ++ '.'.toUInt8 :: t := by
  have dotted_unslashed : slash ∉ '.'.toUInt8 :: t := by
    rw [List.mem_cons, not_or]
    exact ⟨by decide, h.2.2⟩
  obtain ⟨parts, last, split_eq⟩ := exists_splitAt_append dotted_unslashed stem
  have pushed : ∀ rooted below, pushPart rooted below (last ++ '.'.toUInt8 :: t)
      = (last ++ '.'.toUInt8 :: t) :: below := by
    intro rooted below
    obtain ⟨ne_dot, ne_dotDot⟩ := append_suffix_ne_dots h last
    simp [pushPart, ne_dot, ne_dotDot]
  generalize rooted_eq : isRooted (stem ++ '.'.toUInt8 :: t) = rooted
  obtain ⟨front, join_eq⟩ := exists_intercalate_append [slash]
    (parts.foldl (pushPart rooted) []).reverse (last ++ '.'.toUInt8 :: t)
  obtain ⟨whole, clean_eq⟩ : ∃ whole, clean (stem ++ '.'.toUInt8 :: t)
      = whole ++ '.'.toUInt8 :: t := by
    unfold clean
    simp only [rooted_eq, split_eq, List.foldl_append, List.foldl_cons, List.foldl_nil, pushed,
      List.reverse_cons, Text.joinWith, join_eq]
    cases rooted with
    | true => exact ⟨slash :: (front ++ last), by simp⟩
    | false => exact ⟨front ++ last, by simp⟩
  obtain ⟨ne_dot, ne_dotDot⟩ := append_suffix_ne_dots h whole
  exact ⟨whole, by simp [Files.pathOf, clean_eq, ne_dot, ne_dotDot]⟩

/-! ## Products -/

/-- The letters that products end in: code, assembly and object. -/
def productLetters : List Char := ['q', 's', 'o']

lemma exists_suffix_of_letter (h : letter ∈ productLetters) :
    ∃ t, IsSuffix t ∧ Text.ofChars ['.', letter] = '.'.toUInt8 :: t := by
  have named : letter = 'q' ∨ letter = 's' ∨ letter = 'o' := by simpa [productLetters] using h
  rcases named with rfl | rfl | rfl
  · exact ⟨['q'.toUInt8], by unfold IsSuffix; decide, rfl⟩
  · exact ⟨['s'.toUInt8], by unfold IsSuffix; decide, rfl⟩
  · exact ⟨['o'.toUInt8], by unfold IsSuffix; decide, rfl⟩

lemma withExtension?_product (h : letter ∈ productLetters) (made : withExtension? path letter = some name)
    (other : Char) : withExtension? name other = withExtension? path other := by
  obtain ⟨stem, t, suffix, rfl, rfl⟩ := exists_of_withExtension? made
  obtain ⟨u, letter_suffix, text_eq⟩ := exists_suffix_of_letter h
  rw [text_eq, withExtension?_append letter_suffix, withExtension?_append suffix]

lemma extension_pathOf (made : withExtension? path letter = some name) :
    extension (Files.pathOf path) = extension path := by
  obtain ⟨stem, t, suffix, rfl, -⟩ := exists_of_withExtension? made
  obtain ⟨front, path_eq⟩ := exists_pathOf_append suffix stem
  rw [path_eq, extension_append suffix, extension_append suffix]

lemma extension_product (h : letter ∈ productLetters) (made : withExtension? path letter = some name) :
    extension name = Text.ofChars ['.', letter] := by
  obtain ⟨stem, t, -, -, rfl⟩ := exists_of_withExtension? made
  obtain ⟨u, letter_suffix, text_eq⟩ := exists_suffix_of_letter h
  rw [text_eq, extension_append letter_suffix]

lemma withExtension?_self (h : letter ∈ productLetters) (ends : extension path = Text.ofChars ['.', letter]) :
    withExtension? path letter = some path := by
  obtain ⟨u, letter_suffix, text_eq⟩ := exists_suffix_of_letter h
  have dotted : extension path ≠ [] := by simp [ends, text_eq]
  obtain ⟨stem, t, -, -, path_eq, ext_eq⟩ := exists_of_extension dotted
  have same : t = u := (List.cons.inj (ext_eq.symm.trans (ends.trans text_eq))).2
  subst same
  rw [path_eq, withExtension?_append letter_suffix, text_eq]

end Path
end SmallC
