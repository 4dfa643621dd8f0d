import SmallC.Proofs.Classes
import SmallC.Proofs.Lowering.Supply

/-!
# Temporaries of a file

Every temporary in the code of a source has a number, and no two functions set the same one. In the
code of a function a temporary is set before it is read, whatever way control takes, if its body is
`heard`: no function without a value is called for one, and no variable is read that takes no code to
read. The second can happen where a variable is declared again with another type, as its size is then
that of the later type and not one that can be loaded.
-/

namespace SmallC

open Ir Lower ParseState Set

variable {A : Set Nat}

namespace Lower

variable {ann : Int → Set Nat} {e : Emitter}

lemma guarded_slots {code : List Line} (h : ∀ line ∈ code, isSlot line = true) :
    Guarded ann e (e.add code) A A := by
  induction code generalizing e ann with
  | nil => simpa using Guarded.refl
  | cons line code ih =>
    have here : Guarded ann e (e.add [line]) A A := by
      have slot := h line (.head code)
      unfold isSlot at slot
      split at slot
      · refine .add ?_ ?_ ?_ <;> simp
      · refine .add ?_ ?_ ?_ <;> simp
      · cases slot
    simpa using here.seq fun _ _ => ih fun line hl => h line (.tail _ hl)

lemma guarded_end {l : Int} (withValue : Bool) (le : l ≤ e.labels) (hann : ann l ⊆ A) :
    Guarded ann e (e.add [.label l, .ret withValue, .closing]) A A := by
  refine .add ?_ ?_ ?_
  · simpa using le
  · simpa using ⟨hann, ⟨nofun, nofun, nofun⟩, ⟨nofun, nofun, nofun⟩⟩
  · simp

end Lower

namespace Definition

variable {d : Definition} {text : List Line}

lemma Written.checked (h : d.Written text) (there : Granted (d.body.heard d.settled) A) :
    ∃ ann, Checked ann A text := by
  obtain ⟨e, e', he, htext, pos, old⟩ := h.emitted
  obtain ⟨scope, shape⟩ := h.isStatement
  obtain ⟨-, c, params, r, e2, -, hlower, rfl⟩ := Emitter.function_eq_ok he
  have head : Guarded (fun _ => A) e ((e.count 0 1).add
      [.opening (d.symbol.storage = .global) c d.symbol.name params, .label (e.labels + 1)]) A A := by
    refine .lines_with (fun _ => A) (fun _ _ => rfl) ?_ ?_ ?_
    · simp
    · simpa using ⟨nofun, nofun, nofun⟩
    · simp
  have slots := head.seq fun _ _ => guarded_slots (slotLines_isSlot d.symbols d.symbol d.locals)
  rw [Emitter.add_add] at slots
  have body := slots.seq fun ann same => shape.keeps hlower ann A there fun l hl => by
    have le : l ≤ e.labels := by
      simp only [List.mem_cons, List.not_mem_nil, or_false] at hl
      rcases hl with rfl | rfl | rfl
      · exact pos
      · exact pos
      · exact old
    exact ⟨le.trans slots.labels, (same l le).subset⟩
  have whole := body.seq fun ann same => guarded_end (d.symbol.type ≠ .void)
    (old.trans body.labels) (same _ old).subset
  obtain ⟨code, hcode, -, ann, -, checked, -⟩ := whole.lines
  obtain rfl : text = code := List.append_cancel_left (htext.symm.trans hcode)
  exact ⟨ann, checked⟩

lemma Written.setBeforeRead (h : d.Written text) (heard : d.body.heard d.settled = true) :
    SetBeforeRead text 1 := by
  obtain ⟨ann, checked⟩ := h.checked (A := ∅) (.inl heard)
  obtain ⟨head, inner, rfl, opening, -⟩ := h.text_eq
  refine checked.setBeforeRead ?_
  cases head with
  | opening => rfl
  | _ => cases opening

lemma Written.numbered (h : d.Written text) : ∀ line ∈ text, none ∉ line.temps := by
  obtain ⟨ann, checked⟩ := h.checked (A := univ) (.inr rfl)
  obtain ⟨lo, hi, spans⟩ := h.spans
  obtain ⟨-, within, -⟩ := h.sets spans
  intro line hl named
  rw [Line.temps, List.mem_append, Option.mem_toList, Option.map_eq_some_iff] at named
  rcases named with read | ⟨p, hp, none⟩
  · obtain ⟨k, hk⟩ := List.mem_iff_getElem?.mp hl
    obtain ⟨n, -, absurd⟩ := (checked.allowed hk).reads none read
    cases absurd
  · obtain ⟨n, hn, -⟩ := within p (List.mem_filterMap.mpr ⟨line, hl, hp⟩)
    rw [none] at hn
    cases hn

end Definition

namespace Layout

variable {n : Nat} {ds : List Definition} {lines : List Line}

lemma numbered (h : Layout n ds lines) : ∀ line ∈ lines, none ∉ line.temps := by
  induction h with
  | nil => simp
  | @data _ _ lines line h hd ih =>
    intro line' hl
    rcases List.mem_append.mp hl with hl | hl
    · exact ih line' hl
    · obtain rfl := List.mem_singleton.mp hl
      cases line' with
      | data | string => exact List.not_mem_nil
      | _ => exact hd.elim
  | function h hd _ ih =>
    intro line hl
    exact (List.mem_append.mp hl).elim (ih line) (hd.numbered line)

lemma apart (h : Layout n ds lines) : (∀ text ∈ texts lines, SetsWithin 0 n text) ∧
      (texts lines).Pairwise fun a b => ∀ p ∈ setsOf a, ∀ q ∈ setsOf b, p.1 ≠ q.1 := by
  induction h with
  | nil => simp [texts, textsFrom]
  | data h hd ih => rwa [h.texts_data_eq hd]
  | @function lo hi ds lines d text h hd spans ih =>
    obtain ⟨before, pairwise⟩ := ih
    obtain ⟨le, within, -⟩ := hd.sets spans
    rw [h.texts_function_eq hd]
    constructor
    · intro text' ht
      rcases List.mem_append.mp ht with ht | ht
      · exact (before text' ht).mono le_rfl le
      · obtain rfl := List.mem_singleton.mp ht
        exact within.mono (Nat.zero_le lo) le_rfl
    · refine List.pairwise_append.mpr ⟨pairwise, List.pairwise_singleton _ _, ?_⟩
      intro a ha b hb
      obtain rfl := List.mem_singleton.mp hb
      exact (before a ha).apart within

end Layout

theorem compile_temporaries {file source code : Text}
    (h : (Session.compile { file } source).1.outcome = .ok code) :
    let functions := (Session.compile { file } source).1.functions
    let lines := (Session.compile { file } source).2.out.lines.toList
    code = render lines ∧ (∀ line ∈ lines, none ∉ line.temps) ∧
      (texts lines).Pairwise (fun a b => ∀ p ∈ setsOf a, ∀ q ∈ setsOf b, p.1 ≠ q.1) ∧
      List.Forall₂ (fun d text => d.body.heard d.settled = true → SetBeforeRead text 1) functions
        (texts lines) := by
  obtain ⟨s, leads, hfunctions, hout, rfl⟩ := compile_leads h
  simp only [hfunctions, hout]
  have layout := leads.sound.layout
  exact ⟨trivial, layout.numbered, layout.apart.2,
    layout.written.imp fun d text ⟨hd, _⟩ => hd.setBeforeRead⟩

/-- Loops, shortcuts, a choice and a switch, with calls and memory. -/
theorem compile_temporaries_loop :
    let source : Text := "int g(int n); char s[8]; int f(int a, char *p) \x7b int i; i = 0; while (i < 8 && a) \x7b s[i] = i ? *p : 1; switch (g(i)) \x7b case 1: a = a - 1; break; case 2: default: ++i; \x7d \x7d return a || i; \x7d"
    (∃ code, (Session.compile { file := "t.c" } source).1.outcome = .ok code) ∧
      (Session.compile { file := "t.c" } source).1.functions.length = 1 ∧
      List.Forall₂ (fun _ text => SetBeforeRead text 1)
        (Session.compile { file := "t.c" } source).1.functions
        (texts (Session.compile { file := "t.c" } source).2.out.lines.toList) := by
  intro source
  obtain ⟨code, ok⟩ := exists_of_isSome (x := (Session.compile { file := "t.c" } source).1.outcome)
    (by decide +kernel)
  have heard : ∀ d ∈ (Session.compile { file := "t.c" } source).1.functions,
      d.body.heard d.settled = true := by decide +kernel
  refine ⟨⟨code, ok⟩, by decide +kernel, ?_⟩
  exact ((List.forall₂_and_left _ _).mpr ⟨heard, (compile_temporaries ok).2.2.2⟩).imp
    fun d text h => h.2 h.1

/-- A pointer that is declared again as an array: no code loads it. -/
theorem compile_reads_unset :
    let source : Text := "extern int *a; int a[10]; int f() \x7b return a[0]; \x7d"
    (Session.compile { file := "t.c" } source).1.outcome.toOption.isSome = true ∧
      (∀ t ∈ (lex source "t.c").1, t.kind ≠ .voidKw) ∧
      ¬ ∀ text ∈ texts (Session.compile { file := "t.c" } source).2.out.lines.toList,
        SetBeforeRead text 1 := by
  intro source
  refine ⟨by decide +kernel, by decide +kernel, fun all => ?_⟩
  -- The fourth instruction adds to a temporary that the three before it have not set.
  have unset : ∃ text ∈ texts (Session.compile { file := "t.c" } source).2.out.lines.toList,
      (∀ line ∈ (text.drop 1).take 4, line.goesOn = true) ∧ 1 + 4 ≤ text.length ∧
        ¬ ∀ line ∈ text[1 + 4]?, ∀ t ∈ line.reads,
          t ∈ (setsOf ((text.drop 1).take 4)).map Prod.fst := by
    decide +kernel
  obtain ⟨text, mem, on, long, no⟩ := unset
  exact no ((all text mem).straight 4 on long)

end SmallC
