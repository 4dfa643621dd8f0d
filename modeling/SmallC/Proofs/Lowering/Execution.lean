import SmallC.Proofs.Lowering.Inversion
import SmallC.Proofs.Tree.Value

/-!
# Running what was written

Where the lines of a step of code generation stand in the code of its function, and what running
them does, for the tests that conditions and switches are made of. They change temporaries that
they give out and nothing else.
-/

namespace SmallC

namespace Ir

variable {c : Cls} {rhs : Rhs} {no yes : Int} (s : State T) (t : Temp) (n : Text) (v : BitVec 64)

def Seg (code : List Line) (p : Nat) (ls : List Line) : Prop :=
  ∀ i line, ls[i]? = some line → code[p + i]? = some line

namespace Seg

variable {code ls : List Line} {p : Nat} {line : Line}

lemma head (h : Seg code p (line :: ls)) : code[p]? = some line := by
  simpa using h 0 line rfl

lemma tail (h : Seg code p (line :: ls)) : Seg code (p + 1) ls := by
  intro i l hl
  have := h (i + 1) l (by simpa using hl)
  rwa [Nat.add_assoc, Nat.add_comm 1 i]

lemma append {more : List Line} (h : Seg code p (ls ++ more)) :
    Seg code p ls ∧ Seg code (p + ls.length) more := by
  constructor
  · intro i l hl
    refine h i l ?_
    rw [List.getElem?_append_left (List.getElem?_eq_some_iff.mp hl).1]
    exact hl
  · intro i l hl
    rw [Nat.add_assoc]
    refine h (ls.length + i) l ?_
    rwa [List.getElem?_append_right (Nat.le_add_right _ _), Nat.add_sub_cancel_left]

end Seg

lemma findIdx?_label {code : List Line} (nodup : (labelsOf code).Nodup) {p : Nat} {l : Int}
    (h : code[p]? = some (.label l)) : code.findIdx? (· = .label l) = some p := by
  induction code generalizing p with
  | nil => simp at h
  | cons line code ih =>
    rw [labelsOf_cons] at nodup
    cases p with
    | zero =>
      obtain rfl : line = .label l := by simpa using h
      simp [List.findIdx?_cons]
    | succ p =>
      have h : code[p]? = some (.label l) := by simpa using h
      have rest := ih (List.nodup_append.mp nodup).2.1 h
      have other : line ≠ .label l := by
        rintro rfl
        have mem : l ∈ labelsOf code := mem_labelsOf.mpr (List.mem_of_getElem? h)
        simp [mem] at nodup
      simp [List.findIdx?_cons, other, rest]

namespace State

variable {T : Target} {code rest : List Line} {s : State T} {P : State T → Prop}
variable {l : Int} {p : Nat}

@[simp] lemma setTemp_temps (u : Temp) : (s.setTemp t v).temps u = if u = t then v else s.temps u := by
  simp [setTemp, Function.update_apply]
@[simp] lemma setFrame_frame (m : Text) : (s.setFrame n v).frame m = if m = n then v else s.frame m := by
  simp [setFrame, Function.update_apply]

/-! ## One line -/

lemma Reaches.label (h : Seg code s.pc (.label l :: rest)) (k : s.next.Reaches code P) :
    s.Reaches code P :=
  .step (by rw [State.step, h.head]) k

lemma Reaches.set {t : Temp} {v : BitVec 64} (h : Seg code s.pc (.instr (.set (.temp t) c rhs) :: rest))
    (hv : s.compute c rhs = some (v, s.world)) (k : (s.setTemp t v).next.Reaches code P) : s.Reaches code P :=
  .step (by rw [State.step, h.head]; simp only [exec, hv]; rfl) k

lemma Reaches.setFrame {name : Text} {v : BitVec 64}
    (h : Seg code s.pc (.instr (.set (.named (.frame name)) c rhs) :: rest))
    (hv : s.compute c rhs = some (v, s.world)) (k : (s.setFrame name v).next.Reaches code P) :
    s.Reaches code P :=
  .step (by rw [State.step, h.head]; simp only [exec, hv]; rfl) k

lemma goto_eq (nodup : (labelsOf code).Nodup) (h : code[p]? = some (.label l)) (s : State T) :
    s.goto code l = some { s with pc := p } := by
  rw [goto, findIdx?_label nodup h]
  rfl

lemma Reaches.jump (nodup : (labelsOf code).Nodup) (h : code[s.pc]? = some (.instr (.jump l)))
    (hp : code[p]? = some (.label l)) (k : { s with pc := p }.Reaches code P) : s.Reaches code P :=
  .step (by rw [State.step, h]; exact goto_eq nodup hp s) k

lemma Reaches.branch (nodup : (labelsOf code).Nodup) {t : Temp}
    (h : code[s.pc]? = some (.instr (.branch t yes no)))
    (hp : code[p]? = some (.label (if (s.temps t).setWidth 32 = (0 : BitVec 32) then no else yes)))
    (k : { s with pc := p }.Reaches code P) : s.Reaches code P :=
  .step (by rw [State.step, h]; exact goto_eq nodup hp s) k

/-- Temporaries up to `k` and all that is no temporary are as before. -/
structure Alike (k : Nat) (s s' : State T) : Prop where
  temps : ∀ n ≤ k, s'.temps (some n) = s.temps (some n)
  frame : s'.frame = s.frame
  incoming : s'.incoming = s.incoming
  result : s'.result = s.result
  world : s'.world = s.world

namespace Alike

variable {k : Nat} {s1 s2 : State T}

lemma refl (k : Nat) (s : State T) : Alike k s s := ⟨fun _ _ => rfl, rfl, rfl, rfl, rfl⟩

lemma trans {j : Nat} (h : Alike k s s1) (h' : Alike j s1 s2) (hk : k ≤ j) : Alike k s s2 where
  temps n hn := (h'.temps n (hn.trans hk)).trans (h.temps n hn)
  frame := h'.frame.trans h.frame
  incoming := h'.incoming.trans h.incoming
  result := h'.result.trans h.result
  world := h'.world.trans h.world

lemma next (h : Alike k s s1) : Alike k s s1.next := { h with }

lemma goto (h : Alike k s s1) (p : Nat) : Alike k s { s1 with pc := p } := { h with }

lemma setTemp (h : Alike k s s1) {n : Nat} (hn : k < n) (v : BitVec 64) :
    Alike k s (s1.setTemp (some n) v) where
  temps m hm := by
    have : m ≠ n := by omega
    simp [this, h.temps m hm]
  frame := h.frame
  incoming := h.incoming
  result := h.result
  world := h.world

end Alike
end State
end Ir

/-! ## Where lines stand -/

open Ir

/-- The code of a function, after the lines that stand before it in its file. -/
structure Site where
  before : List Line
  code : List Line
  nodup : (labelsOf code).Nodup

/-- Nothing is taken back: temporaries stay given out and lines stay written. -/
structure Emitter.Before (e e' : Emitter) : Prop where
  temps : e.temps ≤ e'.temps
  lines : e.lines.toList <+: e'.lines.toList

namespace Emitter.Before

variable {e e1 e2 : Emitter}

lemma refl (e : Emitter) : e.Before e := ⟨Nat.le_refl _, List.prefix_refl _⟩

lemma trans (h : e.Before e1) (k : e1.Before e2) : e.Before e2 :=
  ⟨h.temps.trans k.temps, h.lines.trans k.lines⟩

lemma add (h : e.Before e1) {ls : List Line} : e.Before (e1.add ls) :=
  h.trans ⟨Nat.le_refl _, by simp⟩

lemma count (h : e.Before e1) {m n : Nat} : e.Before (e1.count m n) :=
  h.trans ⟨by simp, List.prefix_refl _⟩

lemma size (h : e.Before e1) : e.lines.size ≤ e1.lines.size := by
  simpa using h.lines.length_le

end Emitter.Before

namespace Site

variable {site : Site} {e e' : Emitter} {ls : List Line}

def place (site : Site) (e : Emitter) : Nat := e.lines.size - site.before.length

/-- The function has been begun, and what was written of it is the beginning of its code. -/
structure Holds (site : Site) (e : Emitter) : Prop where
  begun : site.before.length ≤ e.lines.size
  part : e.lines.toList <+: site.before ++ site.code

@[simp] lemma place_count (m n : Nat) : site.place (e.count m n) = site.place e := rfl

namespace Holds

lemma count (h : site.Holds e) (m n : Nat) : site.Holds (e.count m n) := ⟨h.begun, h.part⟩

lemma place_add (h : site.Holds e) (ls : List Line) :
    site.place (e.add ls) = site.place e + ls.length := by
  have := h.begun
  simp only [place, Emitter.add, Array.size_append, List.size_toArray]
  omega

lemma between {e1 : Emitter} (h : site.Holds e) (h' : site.Holds e') (first : e.Before e1)
    (second : e1.Before e') : site.Holds e1 :=
  ⟨h.begun.trans first.size, second.lines.trans h'.part⟩

lemma seg (h : site.Holds e) (h' : site.Holds (e.add ls)) : Seg site.code (site.place e) ls := by
  intro i line hl
  obtain ⟨after, hafter⟩ := h'.part
  have begun := h.begun
  have size : e.lines.size = e.lines.toList.length := by simp
  have here : (site.before ++ site.code)[e.lines.toList.length + i]? = some line := by
    rw [← hafter, Emitter.add_lines, List.append_assoc,
      List.getElem?_append_right (Nat.le_add_right _ _), Nat.add_sub_cancel_left,
      List.getElem?_append_left (List.getElem?_eq_some_iff.mp hl).1, hl]
  rw [List.getElem?_append_right (by omega)] at here
  rw [place, ← here, size]
  congr 1
  omega

end Holds

end Site

/-! ## Tests -/

/-- Whether a test against zero jumps, by whether the value differs from zero. -/
def Op.leaps : Op → (differs : Bool) → Bool
  | .ifElse, b | .whileLoop, b | .logAnd, b => !b
  | .logOr, b => b
  | _, _ => false

namespace Ir.State

variable {T : Target} {code rest : List Line} {s : State T} {n k p : Nat} {l : Int} {c : Cls} {x : Temp}
variable {e : Emitter}

lemma low_fit_ite (T : Target) (c : Cls) (b : Bool) :
    (T.fit c (if b then 1 else 0)).setWidth 32 = if b then (1 : BitVec 32) else 0 := by
  cases c <;> cases b <;> simp [Target.fit]

lemma test_reaches (nodup : (labelsOf code).Nodup) {rel : Relation} {d : Cls} {a b : Value}
    (h : Seg code s.pc (.instr (.set (.temp (some n)) c (.compare rel d a b)) ::
      .instr (.branch (some n) yes no) :: rest)) (new : k < n)
    (hp : code[p]? = some (.label (if rel.test d (s.value a) (s.value b) then yes else no))) :
    s.Reaches code fun s' => Alike k s s' ∧ s'.pc = p ∧
      (s'.temps (some n)).setWidth 32 = if rel.test d (s.value a) (s.value b) then 1 else 0 := by
  have outcome := low_fit_ite T c (rel.test d (s.value a) (s.value b))
  refine .set h rfl (.branch nodup h.tail.head (p := p) ?_ (.here ⟨?_, rfl, ?_⟩))
  · rw [hp]
    simp only [next_temps, setTemp_temps, if_true, outcome]
    cases rel.test d (s.value a) (s.value b) <;> rfl
  · exact ((Alike.refl k s).setTemp new _).next.goto p
  · simpa using outcome

lemma decision_cases (parent : Op) (outcome : Temp) (l next : Int) :
    (∃ yes no, Lower.decision parent outcome l next = [.instr (.branch outcome yes no)] ∧
      ∀ b : Bool, (if b then yes else no) = if parent.leaps b then l else next) ∨
    Lower.decision parent outcome l next = [] ∧ ∀ b, parent.leaps b = false := by
  cases parent with
  | ifElse | whileLoop | logAnd =>
    exact .inl ⟨next, l, rfl, fun b => by cases b <;> rfl⟩
  | logOr => exact .inl ⟨l, next, rfl, fun b => by cases b <;> rfl⟩
  | _ => exact .inr ⟨rfl, fun _ => rfl⟩

lemma truth_reaches (nodup : (labelsOf code).Nodup) {parent : Op}
    (h : Seg code s.pc (Tree.truthLines parent x c l e)) (hp : code[p]? = some (.label l)) :
    s.Reaches code fun s' => Alike e.temps s s' ∧
      s'.pc = (if parent.leaps (Relation.ne.test c (s.temps x) 0) then p
        else s.pc + (Tree.truthLines parent x c l e).length) ∧
      (s'.temps (some (e.temps + 1))).setWidth 32 =
        if Relation.ne.test c (s.temps x) 0 then 1 else 0 := by
  have same : Relation.ne.test c (s.value (.temp x)) (s.value (.int 0)) =
      Relation.ne.test c (s.temps x) 0 := rfl
  unfold Tree.truthLines at h ⊢
  rcases decision_cases parent (some (e.temps + 1)) l (e.labels + 1) with ⟨yes, no, hd, target⟩ | ⟨hd, stays⟩
  · rw [hd] at h ⊢
    have target := target (Relation.ne.test c (s.temps x) 0)
    cases leaps : parent.leaps (Relation.ne.test c (s.temps x) 0) with
    | true =>
      rw [leaps, if_pos rfl] at target
      refine test_reaches (p := p) nodup h (Nat.lt_succ_self _) ?_
      rw [same, target, hp]
    | false =>
      rw [leaps, if_neg Bool.false_ne_true] at target
      refine (test_reaches nodup h (Nat.lt_succ_self _) (p := s.pc + 2) ?_).bind ?_
      · rw [same, target, h.tail.tail.head]
      · rintro s1 ⟨alike, pc, outcome⟩
        exact .label (pc ▸ h.tail.tail) (.here ⟨alike.next, by simp [pc], outcome⟩)
  · rw [hd] at h ⊢
    rw [stays, if_neg Bool.false_ne_true]
    refine .set h rfl (.label h.tail (.here ⟨((Alike.refl _ s).setTemp (Nat.lt_succ_self _) _).next.next,
      rfl, ?_⟩))
    simpa [same] using low_fit_ite T .long (Relation.ne.test c (s.temps x) 0)

lemma unequal_reaches (nodup : (labelsOf code).Nodup) {v : Int64} (old : n ≤ e.temps)
    (h : Seg code s.pc (Tree.unequalLines (some n) v c l e)) (hp : code[p]? = some (.label l)) :
    s.Reaches code fun s' => Alike e.temps s s' ∧
      s'.pc = if c.read (s.temps (some n)) = c.read v.toBitVec then s.pc + 4 else p := by
  unfold Tree.unequalLines at h
  refine .set h rfl ?_
  set s1 := (s.setTemp (some (e.temps + 1)) (T.fit c (s.value (.int v)))).next with hs1
  have alike : Alike e.temps s s1 := ((Alike.refl _ s).setTemp (Nat.lt_succ_self _) _).next
  have same : Relation.ne.test c (s1.value (.temp (some n)))
      (s1.value (.temp (some (e.temps + 1)))) =
        decide (c.read (s.temps (some n)) ≠ c.read v.toBitVec) := by
    simp only [Cls.ne_test, value, alike.temps n old]
    simp [hs1, value]
  by_cases holds : c.read (s.temps (some n)) = c.read v.toBitVec
  · rw [if_pos holds]
    refine (test_reaches (p := s.pc + 3) nodup h.tail (show e.temps < e.temps + 2 by omega) ?_).bind ?_
    · rw [same, decide_eq_false (not_not.mpr holds)]
      exact h.tail.tail.tail.head
    · rintro s2 ⟨alike2, pc, -⟩
      exact .label (pc ▸ h.tail.tail.tail)
        (.here ⟨(alike.trans alike2 (Nat.le_refl _)).next, by simp [pc]⟩)
  · rw [if_neg holds]
    refine (test_reaches (p := p) nodup h.tail (show e.temps < e.temps + 2 by omega) ?_).mono ?_
    · rw [same, decide_eq_true holds, hp]
      rfl
    · rintro s2 ⟨alike2, pc, -⟩
      exact ⟨alike.trans alike2 (Nat.le_refl _), pc⟩

lemma unless_reaches (nodup : (labelsOf code).Nodup) (old : n ≤ e.temps)
    (h : Seg code s.pc (Tree.unlessLines (some n) l e)) (hp : code[p]? = some (.label l)) :
    s.Reaches code fun s' => Alike e.temps s s' ∧
      s'.pc = if (s.temps (some n)).setWidth 32 = 1#32 then s.pc + 4 else p := by
  have one : Cls.word.read (s.temps (some n)) = Cls.word.read (1 : Int64).toBitVec ↔
      (s.temps (some n)).setWidth 32 = 1#32 := by
    constructor
    · intro h
      simpa [Cls.read] using congrArg (BitVec.setWidth 32) h
    · intro h
      simp [Cls.read, h]
  simpa only [one] using unequal_reaches nodup (c := .word) (v := 1) old h hp

end Ir.State
end SmallC
