import SmallC.Proofs.Labels
import SmallC.Proofs.Lowering.Classes

/-!
# Classes of temporaries in a file

A temporary holds a word or a long, and which of the two is said wherever it is set. In the code of a
function no temporary is set with two classes exactly if its body is `steady`. An operation in place
on a comparison of longs or pointers is not, as its outcome has the class of the operands and the type
int, and neither is a choice between values of different classes. Nothing checks this when a
function is read.
-/

namespace SmallC

open Ir Lower ParseState

namespace Lower

lemma setsOf_slotLines (ss : Symbols) (f : Symbol) (locals : List SymId) :
    setsOf (slotLines ss f locals) = [] := by
  rw [setsOf, List.filterMap_eq_nil_iff]
  intro line hl
  have slot := slotLines_isSlot ss f locals line hl
  unfold isSlot at slot
  split at slot
  · rfl
  · rfl
  · cases slot

end Lower

namespace Definition

variable {text : List Line} {d : Definition}

lemma Written.spans (h : d.Written text) : ∃ lo hi, d.Spans lo hi text := by
  obtain ⟨e, e', he, htext, -⟩ := h.emitted
  exact ⟨e.temps, e'.temps, e, e', he, htext, rfl, rfl⟩

/-- A function sets only temporaries that are given out for it, each with one class exactly if its
body is steady. -/
lemma Written.sets {lo hi : Nat} (h : d.Written text) (spans : d.Spans lo hi text) :
    lo ≤ hi ∧ SetsWithin lo hi text ∧ (OneClass text ↔ d.body.steady d.settled = true) := by
  obtain ⟨e, e', he, htext, rfl, rfl⟩ := spans
  obtain ⟨scope, shape⟩ := h.isStatement
  obtain ⟨-, c, params, r, e2, -, hlower, rfl⟩ := Emitter.function_eq_ok he
  have head := sets_none (e := e) 0 1 (.opening (d.symbol.storage = .global) c d.symbol.name params ::
    .label (e.labels + 1) :: slotLines d.symbols d.symbol d.locals)
    (by simp [Line.sets?, setsOf_slotLines])
  have last : setsOf [.label d.symbol.endLabel, .ret (d.symbol.type ≠ .void), .closing] = [] := rfl
  have w := (head.seq (shape.setsSteadily hlower)).seq (sets_add _ last)
  rw [Bool.true_and, Bool.and_true] at w
  obtain ⟨code, hcode, within, one⟩ := w.lines
  obtain rfl : text = code := List.append_cancel_left (htext.symm.trans hcode)
  exact ⟨w.temps, within, one⟩

end Definition

theorem compile_classes {file source code : Text}
    (h : (Session.compile { file } source).1.outcome = .ok code) :
    let functions := (Session.compile { file } source).1.functions
    let lines := (Session.compile { file } source).2.out.lines.toList
    code = render lines ∧
      List.Forall₂ (fun d text => OneClass text ↔ d.body.steady d.settled = true) functions
        (texts lines) := by
  obtain ⟨s, leads, hfunctions, hout, rfl⟩ := compile_leads h
  simp only [hfunctions, hout]
  refine ⟨trivial, leads.sound.layout.written.imp fun d text ⟨hd, _⟩ => ?_⟩
  obtain ⟨lo, hi, spans⟩ := hd.spans
  exact (hd.sets spans).2.2

/-- Longs and words side by side, with a choice and a comparison. -/
theorem compile_classes_choice :
    let source : Text :=
      "long f(long x, int y) \x7b long z; z = y ? x * 2 : x - 1; if (z < x) z = -z; return z; \x7d"
    (∃ code, (Session.compile { file := "t.c" } source).1.outcome = .ok code) ∧
      (Session.compile { file := "t.c" } source).1.functions.length = 1 ∧
      List.Forall₂ (fun _ text => OneClass text)
        (Session.compile { file := "t.c" } source).1.functions
        (texts (Session.compile { file := "t.c" } source).2.out.lines.toList) := by
  intro source
  obtain ⟨code, ok⟩ := exists_of_isSome (x := (Session.compile { file := "t.c" } source).1.outcome)
    (by decide +kernel)
  have steady : ∀ d ∈ (Session.compile { file := "t.c" } source).1.functions,
      d.body.steady d.settled = true := by decide +kernel
  refine ⟨⟨code, ok⟩, by decide +kernel, ?_⟩
  exact ((List.forall₂_and_left _ _).mpr ⟨steady, (compile_classes ok).2⟩).imp
    fun d text h => h.2.mpr h.1

/-- What a comparison of longs leaves is a long, and `!` makes a word of it. -/
theorem compile_sets_twice :
    let source : Text := "int f(long x, long y) \x7b return !(x < y); \x7d"
    (Session.compile { file := "t.c" } source).1.outcome.toOption.isSome = true ∧
      ¬ ∀ text ∈ texts (Session.compile { file := "t.c" } source).2.out.lines.toList,
        OneClass text := by
  decide +kernel

end SmallC
