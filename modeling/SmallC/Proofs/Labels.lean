import SmallC.Proofs.Parse.Unit

/-!
# Labels of a file

In the code of a source compiled by itself no label is placed twice, each function is one piece, and its jumps go
to labels in it. There is one exception: label 0, which nothing places. A function jumps there exactly if a
`break` or `continue` in it strays. That takes a function inside of another one, and so a word of storage
class in a list of members or parameters.
-/

namespace SmallC

open Ir ParseState

namespace Definition

variable {lines text : List Line} {l : Int}

/-- The function is one piece of the lines, with nothing but code between its head and its end. -/
structure Contiguous (d : Definition) (text lines : List Line) : Prop where
  piece : text <:+: lines
  whole : ∃ c params inner,
    text = .opening (d.symbol.storage = .global) c d.symbol.name params :: inner ++ [.closing] ∧
      ∀ line ∈ inner, line.IsInner ∨ ∃ withValue, line = .ret withValue

variable {d : Definition}

lemma Written.contiguous (h : d.Written text) (piece : text <:+: lines) : d.Contiguous text lines := by
  obtain ⟨c, params, base, lo, hi, code, rfl, -, -, -, has⟩ := h.lines
  refine ⟨piece, c, params, code ++ [.label d.symbol.endLabel, .ret (d.symbol.type ≠ .void)],
    by simp, ?_⟩
  simp only [List.mem_append, List.mem_cons, List.not_mem_nil, or_false]
  rintro line (hl | rfl | rfl)
  · exact .inl (has.inner line hl)
  · exact .inl trivial
  · exact .inr ⟨_, rfl⟩

lemma Written.jumps (h : d.Written text) (hl : l ∈ jumpsOf text) : l ∈ labelsOf text ∨ l = 0 := by
  obtain ⟨c, params, base, lo, hi, code, rfl, -, -, -, has⟩ := h.lines
  have hcode : l ∈ jumpsOf code := by simpa using hl
  have hlabels : labelsOf (.opening (d.symbol.storage = .global) c d.symbol.name params :: code ++
      [.label d.symbol.endLabel, .ret (d.symbol.type ≠ .void), .closing]) =
      labelsOf code ++ [d.symbol.endLabel] := by
    simp
  rw [hlabels, List.mem_append, List.mem_singleton]
  rcases has.closed l hcode with inside | leaves
  · exact .inl (.inl inside)
  · rcases leaves with rfl | rfl
    · exact .inr rfl
    · exact .inl (.inr rfl)

lemma Written.strays (h : d.Written text) : 0 ∈ jumpsOf text ↔ d.body.strays true true = true := by
  obtain ⟨c, params, base, lo, hi, code, rfl, -, -, -, has⟩ := h.lines
  have hcode : 0 ∈ jumpsOf (.opening (d.symbol.storage = .global) c d.symbol.name params :: code ++
      [.label d.symbol.endLabel, .ret (d.symbol.type ≠ .void), .closing]) ↔ 0 ∈ jumpsOf code := by
    simp
  rw [hcode]
  exact has.strays.symm

end Definition

lemma mem_labelsOf_piece (h : text <:+: lines) (hl : l ∈ labelsOf text) : l ∈ labelsOf lines := by
  obtain ⟨before, after, rfl⟩ := h
  simp [hl]

theorem compile_labels {file source code : Text}
    (h : (Session.compile { file } source).1.outcome = .ok code) :
    let functions := (Session.compile { file } source).1.functions
    let lines := (Session.compile { file } source).2.out.lines.toList
    code = render lines ∧ (labelsOf lines).Nodup ∧ 0 ∉ labelsOf lines ∧
      List.Forall₂ (fun d text => d.Contiguous text lines ∧
        (∀ l ∈ jumpsOf text, l ≠ 0 → l ∈ labelsOf text ∧ (labelsOf lines).count l = 1) ∧
        (0 ∈ jumpsOf text ↔ d.body.strays true true = true)) functions (texts lines) ∧
      ((∀ t ∈ (lex source file).1, t.kind ≠ .staticKw ∧ t.kind ≠ .externKw) →
        0 ∉ jumpsOf lines) := by
  obtain ⟨s, leads, hfunctions, hout, rfl⟩ := compile_leads h
  simp only [hfunctions, hout]
  have sound := leads.sound
  refine ⟨trivial, sound.nodup, fun h0 => absurd (sound.labels 0 h0).1 (by decide), ?_, ?_⟩
  · refine sound.layout.written.imp fun d text ⟨hd, piece⟩ => ?_
    refine ⟨hd.contiguous piece, fun l hl ne => ?_, hd.strays⟩
    have here := (hd.jumps hl).resolve_right ne
    exact ⟨here, List.count_eq_one_of_mem sound.nodup (mem_labelsOf_piece piece here)⟩
  · intro clean h0
    obtain ⟨d, mem, text, hd, h0⟩ := sound.layout.jump_mem h0
    rcases leads.inside clean d (Array.mem_toList_iff.mp mem) with old | ⟨stays, -⟩
    · exact absurd old (Array.not_mem_empty d)
    · exact absurd (hd.strays.mp h0) (ne_true_of_eq_false stays)

lemma exists_of_isSome {ε α : Type} {x : Except ε α} (h : x.toOption.isSome = true) :
    ∃ a, x = .ok a := by
  cases x with
  | ok a => exact ⟨a, rfl⟩
  | error e => cases h

theorem compile_labels_loop :
    let source : Text :=
      "int f(int a) \x7b while (a) \x7b if (a == 3) break; a = a - 1; continue; \x7d return a; \x7d"
    (∃ code, (Session.compile { file := "t.c" } source).1.outcome = .ok code) ∧
      jumpsOf (Session.compile { file := "t.c" } source).2.out.lines.toList ≠ [] ∧
      0 ∉ jumpsOf (Session.compile { file := "t.c" } source).2.out.lines.toList := by
  intro source
  obtain ⟨code, ok⟩ := exists_of_isSome (x := (Session.compile { file := "t.c" } source).1.outcome)
    (by decide +kernel)
  exact ⟨⟨code, ok⟩, by decide +kernel, (compile_labels ok).2.2.2.2 (by decide +kernel)⟩

/-- A function defined inside of a loop makes the reader forget how many loops there are. -/
theorem compile_jumps_astray :
    let source : Text :=
      "void f(int x) \x7b while (x) \x7b struct s \x7b static int g() \x7b return 1; \x7d int y; \x7d v; \x7d break; \x7d"
    (Session.compile { file := "t.c" } source).1.outcome.toOption.isSome = true ∧
      0 ∈ jumpsOf (Session.compile { file := "t.c" } source).2.out.lines.toList ∧
      0 ∉ labelsOf (Session.compile { file := "t.c" } source).2.out.lines.toList := by
  decide +kernel

end SmallC
