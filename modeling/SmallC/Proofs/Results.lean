import SmallC.Proofs.Lowering.Ways

/-!
# The value of a function

Code that returns a value has given it before on every path from its entry, unless control can leave the
body at its end or by a `return` without a value. It does not come to the end of the body of a function
whose own type is not void, as the last statement there is a `return`. That every `return` has a value
is not asked for, and neither is it that a function has the type of an earlier declaration, by which its
head and its return are written.
-/

namespace SmallC

open Ir Lower

/-- On every path from the entry to a return with a value, the value is given. -/
def GivesValue (text : List Line) : Prop :=
  ∀ passed p, Path text 1 passed p → text[p]? = some (.ret true) → ∃ line ∈ passed, line.assigns = true

namespace Tree

variable {t u : Tree} {ts : List Tree} {arms : List (ArmHead × Tree)}

lemma leavesAll_through_getLast (last : ts.getLast? = some u) (stays : u.leaves .through = false) :
    leavesAll .through ts = false := by
  induction ts with
  | nil => cases last
  | cons t ts ih =>
    cases ts with
    | nil =>
      obtain rfl : t = u := by simpa using last
      simp [leavesAll, stays]
    | cons t' ts =>
      rw [leavesAll, ih (by simpa using last)]
      simp

lemma leaves_through_of_endsInResult (h : t.endsInResult = true) : t.leaves .through = false := by
  obtain ⟨a, final⟩ := Option.isSome_iff_exists.mp h
  obtain ⟨i, ts, j, rfl, last⟩ := finalValue?_eq_some final
  exact leavesAll_through_getLast last (by simp [leaves])

mutual

lemma exists_part_of_leaves_bare : (t : Tree) → t.leaves .bare = true →
    ∃ i, (Tree.result i .empty).Part t
  | .block _ ts, h => by
    obtain ⟨u, mem, i, part⟩ := exists_part_of_leavesAll_bare ts h
    exact ⟨i, .member mem part⟩
  | .branch _ _ a b, h => by
    rw [leaves, Bool.or_eq_true] at h
    rcases h with h | h
    · obtain ⟨i, part⟩ := exists_part_of_leaves_bare a h
      exact ⟨i, .yes part⟩
    · obtain ⟨i, part⟩ := exists_part_of_leaves_bare b h
      exact ⟨i, .no part⟩
  | .loop _ _ a, h => by
    obtain ⟨i, part⟩ := exists_part_of_leaves_bare a (by simpa [leaves] using h)
    exact ⟨i, .body part⟩
  | .switch _ _ arms, h => by
    obtain ⟨arm, mem, i, part⟩ := exists_part_of_leavesArms_bare arms h
    exact ⟨i, .arm mem part⟩
  | .result i a, h => by
    obtain rfl := eq_empty_of_isEmpty (t := a) (by simpa [leaves] using h)
    exact ⟨i, .self⟩
  | .empty, h | .intLit .., h | .strLit .., h | .ident .., h | .addrOf .., h | .deref .., h
  | .widen .., h | .scale .., h | .cast .., h | .unary .., h | .toBool .., h | .binary .., h
  | .logical .., h | .assign .., h | .compound .., h | .step .., h | .ternary .., h | .call .., h
  | .breakOut _, h | .continueOn _, h | .arm .., h | .function .., h => by simp [leaves] at h

lemma exists_part_of_leavesAll_bare : (ts : List Tree) → leavesAll .bare ts = true →
    ∃ t ∈ ts, ∃ i, (Tree.result i .empty).Part t
  | [], h => by simp [leavesAll] at h
  | t :: ts, h => by
    simp only [leavesAll, ne_eq, reduceCtorEq, not_false_eq_true, decide_true, Bool.true_and,
      Bool.or_eq_true, Bool.and_eq_true] at h
    rcases h with h | ⟨-, h⟩
    · exact ⟨t, .head ts, exists_part_of_leaves_bare t h⟩
    · obtain ⟨u, mem, part⟩ := exists_part_of_leavesAll_bare ts h
      exact ⟨u, .tail t mem, part⟩

lemma exists_part_of_leavesArms_bare : (arms : List (ArmHead × Tree)) → leavesArms .bare arms = true →
    ∃ arm ∈ arms, ∃ i, (Tree.result i .empty).Part arm.2
  | [], h => by cases h
  | (head, body) :: arms, h => by
    rw [leavesArms, Bool.or_eq_true] at h
    rcases h with h | h
    · exact ⟨(head, body), .head arms, exists_part_of_leaves_bare body h⟩
    · obtain ⟨arm, mem, part⟩ := exists_part_of_leavesArms_bare arms h
      exact ⟨arm, .tail _ mem, part⟩

end
end Tree

lemma slotLines_confines {site : Site} {entry : Int} {ss : Symbols} {f : Symbol} {locals : List SymId} {p : Nat}
    (seg : Seg site.code p (.label entry :: slotLines ss f locals)) :
    Confines site.code (fun q => q = p + 1 + (slotLines ss f locals).length) p := by
  have slot := slotLines_isSlot ss f locals
  have still : jumpsOf (slotLines ss f locals) = [] := by
    refine List.flatMap_eq_nil_iff.mpr fun line mem => ?_
    have isSlot := slot line mem
    unfold Lower.isSlot at isSlot
    split at isSlot
    · rfl
    · rfl
    · cases isSlot
  refine .label seg.head ((Confines.of_lines (L := ∅) site.nodup seg.tail
    (fun line mem => inner_of_isSlot (slot line mem)) (by simp [still])).mono ?_)
  rintro q (same | ⟨l, none, -⟩)
  · exact same
  · cases none

/-- Every function gives its value on every path to a return with a value, unless control can leave its
body by a `return` without a value, or leave it at its end, which only a definition of type void allows. -/
theorem compile_results {file source code : Text}
    (h : (Session.compile { file } source).1.outcome = .ok code) :
    List.Forall₂ (fun (d : Definition) text =>
        (GivesValue text ∨ d.body.leaves .bare = true ∨ d.body.leaves .through = true ∧ d.info.type = .void) ∧
        (d.body.leaves .bare = true → ∃ i, (Tree.result i .empty).Part d.body))
      (Session.compile { file } source).1.functions
      (texts (Session.compile { file } source).2.out.lines.toList) := by
  obtain ⟨s, leads, hfunctions, hout, rfl⟩ := compile_leads h
  simp only [hfunctions, hout]
  have sound := leads.sound
  refine sound.layout.written.imp fun d text ⟨hd, piece⟩ => ⟨?_, d.body.exists_part_of_leaves_bare⟩
  have inside : (labelsOf text).Sublist (labelsOf _) := piece.sublist.filterMap _
  obtain ⟨site, rfl, entry, span, r, placed, opening, first, -⟩ := hd.framed (sound.nodup.sublist inside)
  obtain ⟨scope, shape⟩ := hd.isStatement
  have positive : d.symbol.endLabel ≠ 0 := Int.ne_of_gt hd.positive
  by_cases bare : d.body.leaves .bare = true
  · exact .inr (.inl bare)
  by_cases through : d.body.leaves .through = true
  · refine .inr (.inr ⟨through, ?_⟩)
    by_contra value
    rw [Tree.leaves_through_of_endsInResult (hd.returns value)] at through
    cases through
  have noZero (q : Nat) (at_q : site.code[q]? = some (.label 0)) : False := by
    have mem : (0 : Int) ∈ labelsOf site.code := mem_labelsOf.mpr (List.mem_of_getElem? at_q)
    exact absurd (sound.labels 0 (inside.mem mem)).1 (by decide)
  have confined : Confines site.code (fun _ => False) 1 := by
    refine (slotLines_confines opening).bind ?_
    rintro q rfl
    rw [show 1 + 1 + _ = span.first from first.symm]
    refine Tree.Guides.bind shape.guides placed positive (fun leaves => absurd leaves through) ?_
    intro w other leaves q at_q
    cases w with
    | through => exact absurd rfl other
    | breakOut => exact (noZero q at_q).elim
    | continueOn => exact (noZero q at_q).elim
    | bare => exact absurd leaves bare
  refine .inl fun passed p path isRet => ?_
  by_contra blank
  obtain ⟨line, here, inner⟩ := confined.path path fun line mem => by
    by_contra gives
    exact blank ⟨line, mem, by simpa using gives⟩
  cases here.symm.trans isRet
  exact inner

/-- Returns out of a switch and out of a branch in it, in a loop. -/
theorem compile_results_nested :
    let source : Text := "int g(int n); int f(int n) \x7b while (n) \x7b switch (g(n)) \x7b case 1: return 2; " ++
      "default: if (n < 3) return n; \x7d n = n - 1; \x7d return 0; \x7d"
    (∃ code, (Session.compile { file := "t.c" } source).1.outcome = .ok code) ∧
      (Session.compile { file := "t.c" } source).1.functions.length = 1 ∧
      List.Forall₂ (fun _ text => GivesValue text) (Session.compile { file := "t.c" } source).1.functions
        (texts (Session.compile { file := "t.c" } source).2.out.lines.toList) := by
  intro source
  obtain ⟨code, ok⟩ := exists_of_isSome (x := (Session.compile { file := "t.c" } source).1.outcome)
    (by decide +kernel)
  have stays : ∀ d ∈ (Session.compile { file := "t.c" } source).1.functions,
      d.body.leaves .bare = false ∧ d.body.leaves .through = false := by decide +kernel
  refine ⟨⟨code, ok⟩, by decide +kernel, ?_⟩
  refine ((List.forall₂_and_left _ _).mpr ⟨stays, compile_results ok⟩).imp ?_
  rintro d text ⟨⟨bare, through⟩, gives, -⟩
  simpa [bare, through] using gives

/-- A `return` without a value leads to a return of one. -/
theorem compile_returns_unset :
    let source : Text := "int f() \x7b return; \x7d"
    (∃ code, (Session.compile { file := "t.c" } source).1.outcome = .ok code) ∧
      (texts (Session.compile { file := "t.c" } source).2.out.lines.toList).length = 1 ∧
      ∀ text ∈ texts (Session.compile { file := "t.c" } source).2.out.lines.toList, ¬ GivesValue text := by
  intro source
  obtain ⟨code, ok⟩ := exists_of_isSome (x := (Session.compile { file := "t.c" } source).1.outcome)
    (by decide +kernel)
  have lines : ∀ text ∈ texts (Session.compile { file := "t.c" } source).2.out.lines.toList,
      (text.drop 1).take 4 = [.label 2, .instr (.jump 1), .label 1, .ret true] := by decide +kernel
  refine ⟨⟨code, ok⟩, by decide +kernel, fun text mem all => ?_⟩
  have line (k : Nat) (short : k < 4) : text[1 + k]? = [Line.label 2, .instr (.jump 1), .label 1, .ret true][k]? := by
    rw [← lines text mem, List.getElem?_take_of_lt short, List.getElem?_drop]
  have enters := line 0 (by decide)
  have jumps := line 1 (by decide)
  have lands := line 2 (by decide)
  have path : Path text 1 [.label 2, .instr (.jump 1), .label 1] 4 :=
    ((Path.here.step enters (.label enters)).step jumps (.jump jumps (.head _) lands)).step lands (.label lands)
  have blank : ∀ line ∈ [Line.label 2, .instr (.jump 1), .label 1], line.assigns = false := by decide
  obtain ⟨line, passed, gives⟩ := all _ _ path (line 3 (by decide))
  rw [blank line passed] at gives
  cases gives

end SmallC
