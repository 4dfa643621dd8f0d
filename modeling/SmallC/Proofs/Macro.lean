import SmallC.Macro
import SmallC.Proofs.Text.Glyphs

/-!
# What an expansion is made of

Expansion invents nothing: a byte that stands neither in a text nor in the body of a macro does not
stand in the expanded text. So a line stays one line if no body holds a newline.
-/

namespace SmallC

variable {b : UInt8} {t rest : Text} {args : List Text}

namespace Text

lemma mem_of_mem_stripBoth {α : Type} {p : α → Bool} {a : α} {l : List α} (h : a ∈ stripBoth p l) :
    a ∈ l := by
  rw [stripBoth, List.mem_reverse] at h
  have := List.mem_reverse.mp ((List.dropWhile_sublist p).mem h)
  exact (List.dropWhile_sublist p).mem this

lemma notMem_trim (h : b ∉ t) : b ∉ trim t := by
  intro mem
  obtain ⟨g, hg, hb⟩ := List.mem_flatMap.mp mem
  rw [← ofGlyphs_glyphs t] at h
  exact h (List.mem_flatMap.mpr ⟨g, mem_of_mem_stripBoth hg, hb⟩)

lemma notMem_dropWhile {p : UInt8 → Bool} (h : b ∉ t) : b ∉ t.dropWhile p :=
  fun mem => h ((List.dropWhile_sublist p).mem mem)

end Text

/-! ## Pieces and arguments -/

lemma notMem_splitPiece {a : UInt8} {p : Piece} {after : Text}
    (split : splitPiece a rest = (p, after)) (h : b ∉ a :: rest) : b ∉ p.text ∧ b ∉ after := by
  have whole := splitPiece_append a rest
  rw [split] at whole
  rw [← whole, List.mem_append, not_or] at h
  exact h

lemma notMem_pieces (h : b ∉ t) : ∀ p ∈ pieces t, b ∉ p.text := by
  fun_induction pieces t with
  | case1 => simp
  | case2 a rest ih =>
    obtain ⟨first, after⟩ := notMem_splitPiece (b := b) rfl h
    exact List.forall_mem_cons.mpr ⟨first, ih after⟩

lemma notMem_substitute {params : List Text} {body : Text} (hbody : b ∉ body)
    (hargs : ∀ arg ∈ args, b ∉ arg) : b ∉ substitute params args body := by
  intro mem
  obtain ⟨p, hp, hb⟩ := List.mem_flatMap.mp mem
  have plain := notMem_pieces hbody p hp
  cases p with
  | literal _ => exact plain hb
  | byte _ => exact plain hb
  | word w =>
    cases found : (params.zip args).reverse.lookup w with
    | none =>
      simp only [found, Option.getD_none] at hb
      exact plain hb
    | some arg =>
      simp only [found, Option.getD_some] at hb
      obtain ⟨l₁, l₂, split, -⟩ := List.lookup_eq_some_iff.mp found
      have pair : (w, arg) ∈ params.zip args := List.mem_reverse.mp (by rw [split]; simp)
      exact hargs arg (List.of_mem_zip pair).2 hb

lemma notMem_splitArgs {mode : QuoteMode} {depth : Nat} {current : Text} {done : List Text}
    (h : splitArgs mode depth current done t = some (args, rest)) (ht : b ∉ t) (hcurrent : b ∉ current)
    (hdone : ∀ arg ∈ done, b ∉ arg) : b ∉ rest ∧ ∀ arg ∈ args, b ∉ arg := by
  have finished {current : Text} {done : List Text} (hcurrent : b ∉ current)
      (hdone : ∀ arg ∈ done, b ∉ arg) : ∀ arg ∈ Text.trim current.reverse :: done, b ∉ arg :=
    List.forall_mem_cons.mpr ⟨Text.notMem_trim (by simpa using hcurrent), hdone⟩
  fun_induction splitArgs mode depth current done t with
  | case1 => cases h
  | case4 mode current done rest =>
    cases h
    refine ⟨fun mem => ht (List.mem_cons_of_mem _ mem), fun arg mem => ?_⟩
    exact finished hcurrent hdone arg (List.mem_reverse.mp mem)
  | case6 mode depth current done c rest _ _ _ _ ih =>
    exact ih h (List.not_mem_of_not_mem_cons ht) List.not_mem_nil (finished hcurrent hdone)
  | _ =>
    rename_i ih
    rw [List.mem_cons, not_or] at ht
    refine ih h ht.2 ?_ hdone
    rw [List.mem_cons, not_or]
    exact ⟨ht.1, hcurrent⟩

lemma notMem_macroArgs (h : macroArgs t = some (args, rest)) (ht : b ∉ t) :
    b ∉ rest ∧ ∀ arg ∈ args, b ∉ arg := by
  unfold macroArgs at h
  split at h
  · rename_i after opened
    have inside := Text.notMem_dropWhile (p := Text.isBlankOrTab) ht
    rw [opened] at inside
    exact notMem_splitArgs h (List.not_mem_of_not_mem_cons inside) List.not_mem_nil
      fun _ mem => absurd mem List.not_mem_nil
  · cases h

/-! ## Expansion -/

namespace Macros

def Lacks (ms : Macros) (b : UInt8) : Prop := ∀ m ∈ ms, b ∉ m.2.body

variable {ms : Macros} {name : Text} {m : Macro}

lemma Lacks.erase (h : ms.Lacks b) (name : Text) : (ms.erase name).Lacks b :=
  fun m mem => h m (List.mem_filter.mp mem).1

lemma Lacks.insert (h : ms.Lacks b) (name : Text) (hm : b ∉ m.body) : (ms.insert name m).Lacks b :=
  List.forall_mem_cons.mpr ⟨hm, h.erase name⟩

lemma Lacks.find? (h : ms.Lacks b) (found : ms.find? name = some m) : b ∉ m.body := by
  obtain ⟨l₁, l₂, split, -⟩ := List.lookup_eq_some_iff.mp found
  exact h (name, m) (by rw [split]; simp)

end Macros

lemma notMem_expand {ms : Macros} (ht : b ∉ t) (hms : ms.Lacks b) : b ∉ expand ms t := by
  fun_induction expand ms t with
  | case1 => exact List.not_mem_nil
  | case2 => exact ht
  | case3 ms c rest _ w after split _ ih =>
    obtain ⟨word, left⟩ := notMem_splitPiece split ht
    exact List.not_mem_append word (ih left hms)
  | case4 ms c rest _ w after split m found _ inside ih =>
    obtain ⟨-, left⟩ := notMem_splitPiece split ht
    exact List.not_mem_append (inside (hms.find? found) (hms.erase w)) (ih left hms)
  | case5 ms c rest _ w after split m found params _ _ ih =>
    obtain ⟨word, left⟩ := notMem_splitPiece split ht
    exact List.not_mem_append word (ih left hms)
  | case6 ms c rest _ w after split m found params _ args next taken _ inside ih =>
    obtain ⟨-, left⟩ := notMem_splitPiece split ht
    obtain ⟨left, plain⟩ := notMem_macroArgs taken left
    exact List.not_mem_append (inside (notMem_substitute (hms.find? found) plain) (hms.erase w))
      (ih left hms)
  | case7 ms c rest _ w after split m found params _ args next _ _ ih =>
    obtain ⟨word, left⟩ := notMem_splitPiece split ht
    exact List.not_mem_append word (ih left hms)
  | case8 ms c rest _ p after _ split ih =>
    obtain ⟨piece, left⟩ := notMem_splitPiece split ht
    exact List.not_mem_append piece (ih left hms)

lemma notMem_readDefinition {name : Text} {m : Macro} (h : readDefinition t = .ok (name, m))
    (ht : b ∉ t) : b ∉ m.body := by
  have left := Text.notMem_dropWhile (p := Text.isWordPart) (Text.notMem_trim ht)
  unfold readDefinition at h
  simp only at h
  split at h
  · cases h
  split_ifs at h
  split at h
  · rename_i inside opened
    rw [opened] at left
    by_cases closed : inside.contains Byte.rightParen = true
    swap
    · rw [if_neg closed] at h
      cases h
    rw [if_pos closed] at h
    cases h
    refine Text.notMem_trim fun mem => ?_
    exact Text.notMem_dropWhile (List.not_mem_of_not_mem_cons left) (List.mem_of_mem_tail mem)
  · cases h
    exact Text.notMem_trim left

end SmallC
