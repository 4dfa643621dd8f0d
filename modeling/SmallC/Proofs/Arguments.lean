import SmallC.Proofs.Macro

/-!
# Argument lists

An argument list is split at the commas that stand outside of parentheses and quotes. Arguments that
are balanced come back from the list they are joined to, however they are set off by blanks, and a
list is found exactly if its parenthesis is closed.
-/

namespace SmallC

/-- What follows an opening quote, up to the one that closes it and with it. -/
inductive EndsLiteral (quote : UInt8) : Text → Prop
  | close : EndsLiteral quote [quote]
  | escape {c t} (rest : EndsLiteral quote t) : EndsLiteral quote (Byte.backslash :: c :: t)
  | byte {b t} (slash : b ≠ Byte.backslash) (inside : b ≠ quote) (rest : EndsLiteral quote t) :
      EndsLiteral quote (b :: t)

/-- Parentheses are balanced and quotes closed. `commas` says whether commas may stand outside of them. -/
inductive Balanced : (commas : Bool) → Text → Prop
  | nil {commas} : Balanced commas []
  | byte {commas b t} (plain : isQuote b = false) (opens : b ≠ Byte.leftParen) (closes : b ≠ Byte.rightParen)
      (comma : b = Byte.comma → commas = true) (rest : Balanced commas t) : Balanced commas (b :: t)
  | literal {commas q inside t} (quote : isQuote q = true) (ends : EndsLiteral q inside)
      (rest : Balanced commas t) : Balanced commas (q :: inside ++ t)
  | group {commas inside t} (inner : Balanced true inside) (rest : Balanced commas t) :
      Balanced commas (Byte.leftParen :: inside ++ Byte.rightParen :: t)

variable {b q : UInt8} {depth : Nat} {current t inside rest : Text} {done args padded : List Text}
  {commas : Bool}

lemma isQuote_cases (h : isQuote q = true) :
    q ≠ Byte.backslash ∧ q ≠ Byte.leftParen ∧ q ≠ Byte.rightParen ∧ q ≠ Byte.comma := by
  simp only [isQuote, Bool.or_eq_true, decide_eq_true_eq] at h
  rcases h with rfl | rfl <;> decide

lemma isBlankOrTab_cases (h : Text.isBlankOrTab b = true) : b = ' '.toUInt8 ∨ b = '\t'.toUInt8 := by
  simpa [Text.isBlankOrTab] using h

/-! ## What one byte does -/

lemma splitArgs_byte (opens : b ≠ Byte.leftParen) (closes : b ≠ Byte.rightParen)
    (inner : ¬ (b = Byte.comma ∧ depth = 0)) : splitArgs .plain depth current done (b :: t) =
      splitArgs (QuoteMode.plain.after b) depth (b :: current) done t := by
  simp [splitArgs, opens, closes, inner]

lemma splitArgs_plain (plain : isQuote b = false) (opens : b ≠ Byte.leftParen) (closes : b ≠ Byte.rightParen)
    (inner : ¬ (b = Byte.comma ∧ depth = 0)) :
    splitArgs .plain depth current done (b :: t) = splitArgs .plain depth (b :: current) done t := by
  rw [splitArgs_byte opens closes inner, QuoteMode.after, plain]
  rfl

lemma splitArgs_quote (quote : isQuote q = true) :
    splitArgs .plain depth current done (q :: t) = splitArgs (.quoted q) depth (q :: current) done t := by
  obtain ⟨-, opens, closes, comma⟩ := isQuote_cases quote
  rw [splitArgs_byte opens closes fun h => comma h.1, QuoteMode.after, if_pos quote]

lemma splitArgs_comma : splitArgs .plain 0 current done (Byte.comma :: t) =
    splitArgs .plain 0 [] (Text.trim current.reverse :: done) t := rfl

lemma splitArgs_literal (slash : q ≠ Byte.backslash) (h : EndsLiteral q inside) (current t : Text) :
    splitArgs (.quoted q) depth current done (inside ++ t) =
      splitArgs .plain depth (inside.reverse ++ current) done t := by
  induction h generalizing current with
  | close => simp [splitArgs, QuoteMode.after, slash]
  | escape _ ih => simp [splitArgs, QuoteMode.after, ih]
  | byte slash inside _ ih => simp [splitArgs, QuoteMode.after, slash, inside, ih]

/-- A balanced text is passed over, and taken as it is where its commas do not separate arguments. -/
lemma splitArgs_balanced (h : Balanced commas inside) (depth : Nat) (current : Text) (done : List Text) :
    ∃ current' done', (∀ t, splitArgs .plain depth current done (inside ++ t) =
      splitArgs .plain depth current' done' t) ∧
      ((commas = true → 0 < depth) → current' = inside.reverse ++ current ∧ done' = done) := by
  induction h generalizing depth current done with
  | nil => exact ⟨current, done, fun _ => rfl, fun _ => ⟨rfl, rfl⟩⟩
  | @byte commas b _ plain opens closes comma _ ih =>
    by_cases cut : b = Byte.comma ∧ depth = 0
    · obtain ⟨rfl, rfl⟩ := cut
      obtain ⟨current', done', passed, -⟩ := ih 0 [] (Text.trim current.reverse :: done)
      exact ⟨current', done', passed, fun deep => absurd (deep (comma rfl)) (Nat.lt_irrefl 0)⟩
    · obtain ⟨current', done', passed, taken⟩ := ih depth (b :: current) done
      refine ⟨current', done', fun t => ?_, fun deep => by simpa using taken deep⟩
      exact (splitArgs_plain plain opens closes cut).trans (passed t)
  | @literal _ q inside _ quote ends _ ih =>
    obtain ⟨current', done', passed, taken⟩ := ih depth (inside.reverse ++ q :: current) done
    refine ⟨current', done', fun t => ?_, fun deep => by simpa using taken deep⟩
    rw [List.append_assoc, List.cons_append, splitArgs_quote quote,
      splitArgs_literal (isQuote_cases quote).1 ends, passed]
  | @group _ inside _ _ _ inner ih =>
    obtain ⟨_, done, within, whole⟩ := inner (depth + 1) (Byte.leftParen :: current) done
    obtain ⟨rfl, rfl⟩ := whole fun _ => depth.succ_pos
    obtain ⟨current', done', passed, taken⟩ :=
      ih depth (Byte.rightParen :: (inside.reverse ++ Byte.leftParen :: current)) done
    refine ⟨current', done', fun t => ?_, fun deep => by simpa using taken deep⟩
    rw [List.append_assoc, List.cons_append]
    exact (within _).trans (passed t)

/-! ## Joined arguments -/

namespace Text

/-- Neither the first nor the last character is white space. -/
def isTrimmed (t : Text) : Bool :=
  !(glyphs t).head?.any Glyph.isBlank && !(glyphs t).getLast?.any Glyph.isBlank

/-- The text with blanks and tabs around it. -/
def Pads (t padded : Text) : Prop :=
  ∃ left right, (∀ b ∈ left ++ right, isBlankOrTab b = true) ∧ padded = left ++ t ++ right

lemma stripBoth_append {α : Type} {p : α → Bool} {l m r : List α} (hl : ∀ a ∈ l, p a = true)
    (hr : ∀ a ∈ r, p a = true) (first : m.head?.any p = false) (last : m.getLast?.any p = false) :
    stripBoth p (l ++ m ++ r) = m := by
  rw [stripBoth, List.append_assoc, List.dropWhile_append_of_pos hl]
  rcases m.eq_nil_or_concat with rfl | ⟨init, z, rfl⟩
  · rw [List.nil_append, ← List.append_nil r, List.dropWhile_append_of_pos hr]
    rfl
  · rw [List.concat_eq_append] at first last ⊢
    have kept : (init ++ [z] ++ r).dropWhile p = init ++ [z] ++ r := by cases init <;> simp_all
    rw [kept, List.reverse_append, List.dropWhile_append_of_pos (by simpa using hr), List.reverse_append]
    simp_all

lemma glyphs_blanks (blank : ∀ b ∈ t, isBlankOrTab b = true) : ∃ gs : List Glyph,
    (∀ g ∈ gs, g.isBlank = true) ∧ ∀ u, glyphs (u ++ t) = glyphs u ++ gs ∧ glyphs (t ++ u) = gs ++ glyphs u := by
  induction t with
  | nil => exact ⟨[], by simp, fun u => by simp⟩
  | cons b t ih =>
    obtain ⟨hb, ht⟩ := List.forall_mem_cons.mp blank
    obtain ⟨gs, hgs, split⟩ := ih ht
    have ascii : b.toNat < 128 ∧ isBlank (.ofNat b.toNat) = true := by
      rcases isBlankOrTab_cases hb with rfl | rfl <;> decide
    have cut (u v : Text) : glyphs (u ++ b :: v) = glyphs u ++ .char (.ofNat b.toNat) :: glyphs v :=
      glyphsFrom_ascii ascii.1 (Nat.zero_le _) v
    have all : glyphs t = gs := (split []).1
    refine ⟨.char (.ofNat b.toNat) :: gs, List.forall_mem_cons.mpr ⟨ascii.2, hgs⟩, fun u => ⟨?_, ?_⟩⟩
    · rw [cut, all]
    · exact (cut [] (t ++ u)).trans (congrArg (List.cons _) (split u).2)

lemma Pads.trim {padded : Text} (h : Pads t padded) (trimmed : t.isTrimmed = true) : Text.trim padded = t := by
  obtain ⟨left, right, blank, rfl⟩ := h
  obtain ⟨hl, hr⟩ := List.forall_mem_append.mp blank
  obtain ⟨gl, blankl, before⟩ := glyphs_blanks hl
  obtain ⟨gr, blankr, after⟩ := glyphs_blanks hr
  simp only [isTrimmed, Bool.and_eq_true, Bool.not_eq_true'] at trimmed
  rw [Text.trim, (after _).1, (before _).2, stripBoth_append blankl blankr trimmed.1 trimmed.2, ofGlyphs_glyphs]

end Text

lemma Balanced.append (h : Balanced commas t) (h' : Balanced commas inside) : Balanced commas (t ++ inside) := by
  induction h with
  | nil => exact h'
  | byte plain opens closes comma _ ih => exact .byte plain opens closes comma (ih h')
  | literal quote ends _ ih =>
    rw [List.append_assoc]
    exact .literal quote ends (ih h')
  | group inner _ _ ih =>
    rw [List.append_assoc]
    exact .group inner (ih h')

lemma Balanced.blanks (blank : ∀ b ∈ t, Text.isBlankOrTab b = true) : Balanced false t := by
  induction t with
  | nil => exact .nil
  | cons b t ih =>
    obtain ⟨hb, ht⟩ := List.forall_mem_cons.mp blank
    rcases isBlankOrTab_cases hb with rfl | rfl <;>
      exact .byte (by decide) (by decide) (by decide) nofun (ih ht)

lemma splitArgs_joined (pads : List.Forall₂ Text.Pads args padded)
    (fit : ∀ a ∈ args, a.isTrimmed = true ∧ Balanced false a) (nonempty : args ≠ []) (done : List Text) :
    splitArgs .plain 0 [] done (Text.joinWith [Byte.comma] padded ++ Byte.rightParen :: rest) =
      some (done.reverse ++ args, rest) := by
  induction pads generalizing done with
  | nil => exact absurd rfl nonempty
  | @cons a p args padded pad pads ih =>
    obtain ⟨⟨trimmed, balanced⟩, fit⟩ := List.forall_mem_cons.mp fit
    have trim := pad.trim trimmed
    have taken (t : Text) : splitArgs .plain 0 [] done (p ++ t) = splitArgs .plain 0 p.reverse done t := by
      obtain ⟨left, right, blank, rfl⟩ := pad
      obtain ⟨hl, hr⟩ := List.forall_mem_append.mp blank
      have whole := ((Balanced.blanks hl).append balanced).append (.blanks hr)
      obtain ⟨_, _, passed, taken⟩ := splitArgs_balanced whole 0 [] done
      obtain ⟨rfl, rfl⟩ := taken (by simp)
      rw [passed, List.append_nil]
    cases pads with
    | nil =>
      rw [show Text.joinWith [Byte.comma] [p] = p by simp [Text.joinWith], taken, ← trim, List.append_cons]
      simp [splitArgs, show Byte.rightParen ≠ Byte.leftParen by decide]
    | cons pad' pads =>
      rw [Text.joinWith, List.intercalate_cons_cons, List.append_assoc, List.append_assoc, taken,
        List.singleton_append, splitArgs_comma, List.reverse_reverse, trim]
      exact (ih fit (by simp) (a :: done)).trans (by simp)

/-! ## Where the parenthesis is closed -/

lemma exists_endsLiteral : ∀ {t current : Text},
    splitArgs (.quoted q) depth current done t = some (args, rest) →
    ∃ inside after current, t = inside ++ after ∧ EndsLiteral q inside ∧
      splitArgs .plain depth current done after = some (args, rest)
  | [], _, h => by cases h
  | b :: t, current, h => by
    by_cases slash : b = Byte.backslash
    · subst slash
      cases t with
      | nil => cases h
      | cons c t =>
        obtain ⟨inside, after, current, rfl, ends, found⟩ := exists_endsLiteral (t := t) h
        exact ⟨_ :: c :: inside, after, current, rfl, .escape ends, found⟩
    by_cases closes : b = q
    · subst closes
      exact ⟨[b], t, _, rfl, .close, by simpa [splitArgs, QuoteMode.after, slash] using h⟩
    obtain ⟨inside, after, current, rfl, ends, found⟩ := exists_endsLiteral (t := t)
      (by simpa [splitArgs, QuoteMode.after, slash, closes] using h)
    exact ⟨b :: inside, after, current, rfl, .byte slash closes ends, found⟩

/-- Up to the parenthesis that closes the innermost open one the text is balanced. -/
lemma exists_balanced {n : Nat} (len : t.length < n)
    (h : splitArgs .plain depth current done t = some (args, rest)) :
    ∃ inside after, t = inside ++ Byte.rightParen :: after ∧ Balanced true inside ∧
      ∀ outer, depth = outer + 1 → ∃ current done,
        splitArgs .plain outer current done after = some (args, rest) := by
  induction n generalizing depth current done t with
  | zero => exact absurd len (Nat.not_lt_zero _)
  | succ n ih =>
    cases t with
    | nil => cases h
    | cons b t =>
      replace len : t.length < n := Nat.lt_of_succ_lt_succ len
      by_cases opens : b = Byte.leftParen
      · subst opens
        have deeper : splitArgs .plain (depth + 1) (Byte.leftParen :: current) done t = some (args, rest) := h
        obtain ⟨inside, after, rfl, inner, outer⟩ := ih len deeper
        obtain ⟨current, done, found⟩ := outer depth rfl
        obtain ⟨inside', after', rfl, more, ends⟩ := ih (by simp at len; omega) found
        exact ⟨_, after', by simp, .group inner more, ends⟩
      by_cases closes : b = Byte.rightParen
      · subst closes
        refine ⟨[], t, rfl, .nil, ?_⟩
        rintro outer rfl
        exact ⟨_, _, h⟩
      by_cases quote : isQuote b = true
      · rw [splitArgs_quote quote] at h
        obtain ⟨inside, after, current, rfl, ends, found⟩ := exists_endsLiteral h
        obtain ⟨inside', after', rfl, more, outer⟩ := ih (by simp at len; omega) found
        exact ⟨_, after', by simp, .literal quote ends more, outer⟩
      rw [Bool.not_eq_true] at quote
      obtain ⟨current, done, found⟩ : ∃ current done,
          splitArgs .plain depth current done t = some (args, rest) := by
        by_cases cut : b = Byte.comma ∧ depth = 0
        · obtain ⟨rfl, rfl⟩ := cut
          exact ⟨_, _, h⟩
        · exact ⟨_, _, splitArgs_plain quote opens closes cut ▸ h⟩
      obtain ⟨inside, after, rfl, more, outer⟩ := ih len found
      exact ⟨b :: inside, after, rfl, .byte quote opens closes (fun _ => rfl) more, outer⟩

/-- Splitting an argument list undoes joining the arguments, and an argument list is missed exactly if
no parenthesis opens it or none closes it. -/
theorem macroArgs_joined :
    (∀ (start rest : Text) (args padded : List Text), args ≠ [] →
      (∀ a ∈ args, a.isTrimmed = true ∧ Balanced false a) → List.Forall₂ Text.Pads args padded →
      (∀ b ∈ start, Text.isBlankOrTab b = true) →
      macroArgs (start ++ Byte.leftParen :: Text.joinWith [Byte.comma] padded ++ Byte.rightParen :: rest) =
        some (args, rest)) ∧
    ∀ t, macroArgs t = none ↔ ∀ inside rest,
      t.dropWhile Text.isBlankOrTab = Byte.leftParen :: inside ++ Byte.rightParen :: rest →
      ¬ Balanced true inside := by
  refine ⟨fun start rest args padded nonempty fit pads blank => ?_, fun t => ⟨?_, ?_⟩⟩
  · rw [List.append_assoc, macroArgs, List.dropWhile_append_of_pos blank]
    exact splitArgs_joined pads fit nonempty []
  · intro missed inside rest opened balanced
    obtain ⟨current, done, passed, -⟩ := splitArgs_balanced balanced 0 [] []
    rw [macroArgs, opened] at missed
    cases (passed _).symm.trans missed
  · intro never
    unfold macroArgs
    split
    · rename_i after opened
      rcases found : splitArgs .plain 0 [] [] after with _ | ⟨args, rest⟩
      · rfl
      · obtain ⟨inside, after, rfl, balanced, -⟩ := exists_balanced (Nat.lt_succ_self _) found
        exact absurd balanced (never inside after opened)
    · rfl

theorem macroArgs_joined_nested :
    let args : List Text := [[Byte.leftParen, Byte.comma, Byte.rightParen],
      [Byte.apostrophe, Byte.rightParen, Byte.apostrophe], []]
    (∀ a ∈ args, a.isTrimmed = true ∧ Balanced false a) ∧
      macroArgs (Text.ofString " ( (,),')'\t,)x") = some (args, Text.ofString "x") := by
  intro args
  have fit : ∀ a ∈ args, a.isTrimmed = true ∧ Balanced false a := by
    refine List.forall_mem_cons.mpr ⟨⟨rfl, ?_⟩, List.forall_mem_cons.mpr ⟨⟨rfl, ?_⟩,
      List.forall_mem_cons.mpr ⟨⟨rfl, .nil⟩, List.forall_mem_nil _⟩⟩⟩
    · have inner : Balanced true [Byte.comma] := .byte rfl (by decide) (by decide) (fun _ => rfl) .nil
      exact .group inner .nil
    · exact .literal rfl (.byte (by decide) (by decide) .close) .nil
  have blank : ∀ b ∈ [Byte.blank], Text.isBlankOrTab b = true := List.forall_mem_singleton.mpr rfl
  have pads : List.Forall₂ Text.Pads args [Byte.blank :: args[0], args[1] ++ [9], []] :=
    .cons ⟨[Byte.blank], [], blank, rfl⟩ <| .cons ⟨[], [9], List.forall_mem_singleton.mpr rfl, rfl⟩ <|
      .cons ⟨[], [], nofun, rfl⟩ .nil
  refine ⟨fit, Eq.trans ?_ (macroArgs_joined.1 [Byte.blank] _ args _ nofun fit pads blank)⟩
  decide +kernel

end SmallC
