import SmallC.Proofs.Labels

/-!
# Blocks of a function

A block of code begins with a label and ends with a jump, a branch or a return. The code of a function is made
of blocks exactly if its body is `tidy`: no statement with code but a loop stands after one that ends in a
jump, and no body of a loop ends in a jump. Nothing checks this when a function is read.
-/

namespace SmallC

open Ir ParseState

namespace Ir

def Line.mayPrecede (a b : Line) : Bool :=
  if a.isOpening then b.placed?.isSome
  else !a.isTerminator || b.placed?.isSome || b = .closing

def Blocks (code : List Line) : Prop := code.IsChain fun a b => a.mayPrecede b

instance (code : List Line) : Decidable (Blocks code) := inferInstanceAs (Decidable (List.IsChain _ _))

lemma Line.mayPrecede_label (a : Line) (l : Int) : a.mayPrecede (.label l) = true := by
  simp [mayPrecede, placed?]

lemma blocks_label_cons (a : Line) (l : Int) (code : List Line) :
    Blocks (a :: .label l :: code) ↔ Blocks (.label l :: code) := by
  simp [Blocks, Line.mayPrecede_label]

lemma blocks_append_end (code : List Line) (l : Int) (withValue : Bool) :
    Blocks (code ++ [.label l, .ret withValue, .closing]) ↔ Blocks code := by
  have ends : Blocks [.label l, .ret withValue, .closing] := by
    simp [Blocks, Line.mayPrecede, Line.isOpening, Line.isTerminator]
  unfold Blocks at ends ⊢
  rw [List.isChain_append]
  simp [ends, Line.mayPrecede_label]

lemma blocks_cons_iff {code : List Line} (inner : ∀ line ∈ code, line.IsInner) {a : Line}
    (ha : a.isOpening = false) : Blocks (a :: code) ↔ (scan a.isTerminator code).isSome := by
  induction code generalizing a with
  | nil => simp [Blocks]
  | cons b code ih =>
    have hb := inner b (.head code)
    have rest := fun {a} => ih (fun line hl => inner line (.tail b hl)) (a := a)
    cases b with
    | label l =>
      rw [blocks_label_cons, rest rfl]
      rfl
    | instr i =>
      have here : Blocks (a :: .instr i :: code) ↔
          a.isTerminator = false ∧ Blocks (.instr i :: code) := by
        simp [Blocks, Line.mayPrecede, ha]
      rw [here, rest rfl, scan_cons]
      cases a.isTerminator <;> simp [Line.flow]
    | _ => exact hb.elim

end Ir

lemma Definition.Written.blocks {d : Definition} {text : List Line} (h : d.Written text) :
    (∃ head entry rest, text = head :: .label entry :: rest ∧ head.isOpening = true) ∧
      (Blocks text ↔ (d.body.tidy d.settled false).isSome) := by
  obtain ⟨c, params, base, lo, hi, code, rfl, ⟨entry, rest, rfl⟩, -, -, has⟩ := h.lines
  refine ⟨⟨_, entry, _, rfl, rfl⟩, ?_⟩
  have inner : ∀ line ∈ rest, line.IsInner := fun line hl => has.inner line (.tail _ hl)
  have flow : scan false (.label entry :: rest) = d.body.tidy d.settled false := has.flow false
  rw [blocks_append_end, blocks_label_cons, blocks_cons_iff inner rfl, ← flow]
  rfl

theorem compile_blocks {file source code : Text}
    (h : (Session.compile { file } source).1.outcome = .ok code) :
    let functions := (Session.compile { file } source).1.functions
    let lines := (Session.compile { file } source).2.out.lines.toList
    code = render lines ∧ List.Forall₂ (fun d text =>
      (∃ head entry rest, text = head :: .label entry :: rest ∧ head.isOpening = true) ∧
        (Blocks text ↔ (d.body.tidy d.settled false).isSome)) functions (texts lines) := by
  obtain ⟨s, leads, hfunctions, hout, rfl⟩ := compile_leads h
  simp only [hfunctions, hout]
  exact ⟨trivial, leads.sound.layout.written.imp fun d text hd => hd.1.blocks⟩

theorem compile_blocks_loop :
    let source : Text :=
      "int f(int a) \x7b while (a) \x7b if (a == 3) break; a = a - 1; \x7d return a; \x7d"
    (∃ code, (Session.compile { file := "t.c" } source).1.outcome = .ok code) ∧
      (Session.compile { file := "t.c" } source).1.functions.length = 1 ∧
      List.Forall₂ (fun _ text => Blocks text)
        (Session.compile { file := "t.c" } source).1.functions
        (texts (Session.compile { file := "t.c" } source).2.out.lines.toList) := by
  intro source
  obtain ⟨code, ok⟩ := exists_of_isSome (x := (Session.compile { file := "t.c" } source).1.outcome)
    (by decide +kernel)
  have tidy : ∀ d ∈ (Session.compile { file := "t.c" } source).1.functions,
      (d.body.tidy d.settled false).isSome := by decide +kernel
  refine ⟨⟨code, ok⟩, by decide +kernel, ?_⟩
  exact ((List.forall₂_and_left _ _).mpr ⟨tidy, (compile_blocks ok).2⟩).imp
    fun d text h => h.2.2.mpr h.1

/-- A loop whose body ends in a jump jumps twice. -/
theorem compile_jumps_twice :
    let source : Text := "int f(int a) \x7b while (a) \x7b break; \x7d return 1; \x7d"
    (Session.compile { file := "t.c" } source).1.outcome.toOption.isSome = true ∧
      ¬ ∀ text ∈ texts (Session.compile { file := "t.c" } source).2.out.lines.toList,
        Blocks text := by
  decide +kernel

end SmallC
