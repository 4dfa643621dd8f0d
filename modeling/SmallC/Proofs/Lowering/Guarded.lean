import SmallC.Proofs.Ir.Paths
import SmallC.Proofs.Lowering.Inversion

/-!
# Temporaries set by a step of code generation

`Guarded` says by an annotation of labels that what is set at the beginning of a step is enough for all lines
that it wrote and for all that they jump to, and what more is set at its end. A step may annotate the labels
that it gives out as it likes. Values that are not there, as those of functions without one, may be read where
all temporaries count as set.
-/

namespace SmallC

open Set

namespace Ir

variable {ann : Int → Set Nat} {A : Set Nat} {l : Int}

def Temp.In (A : Set Nat) (t : Temp) : Prop := ∃ n ∈ A, t = some n

@[simp] lemma Temp.in_some {n : Nat} : Temp.In A (some n) ↔ n ∈ A := by simp [Temp.In]

@[simp] lemma allowed_instr {i : Instr} : (Line.instr i).Allowed ann A ↔
    (∀ t ∈ i.reads, Temp.In A t) ∧ ∀ l ∈ i.targets, ann l ⊆ A :=
  ⟨fun h => ⟨h.reads, h.targets⟩, fun h => ⟨h.1, h.2, nofun⟩⟩

@[simp] lemma allowed_label : (Line.label l).Allowed ann A ↔ ann l ⊆ A :=
  ⟨fun h => h.placed l rfl, fun h => ⟨nofun, nofun, fun _ hm => Option.some.inj hm ▸ h⟩⟩

end Ir

namespace Lower

open Ir

variable {source : CType} {p q : Bool} {op : Op} {step k : Int64} {ss : Symbols}

/-- The step from `e` to `e'` wrote lines that read and jump as the annotation allows, from `A` set
before to `B` set after, for some annotation of the labels that it gave out. -/
structure Guarded (ann : Int → Set Nat) (e e' : Emitter) (A B : Set Nat) : Prop where
  labels : e.labels ≤ e'.labels
  lines : ∃ code, e'.lines.toList = e.lines.toList ++ code ∧
    (∀ l, l ∈ labelsOf code ∨ l ∈ jumpsOf code → l ≤ e'.labels) ∧
    ∃ ann', (∀ l ≤ e.labels, ann' l = ann l) ∧ Checked ann' A code ∧ B ⊆ knownAfter ann' A code

variable {ann : Int → Set Nat} {e e1 e2 e' : Emitter} {A B C : Set Nat} {r a : Temp} {c : Cls}
  {rhs : Rhs} {l : Int}
variable {s : Symbol} {m n : Nat} {t : CType}

namespace Guarded

variable {ls : List Line}

lemma seq (h : Guarded ann e e1 A B)
    (k : ∀ ann1, (∀ l ≤ e.labels, ann1 l = ann l) → Guarded ann1 e1 e2 B C) :
    Guarded ann e e2 A C := by
  obtain ⟨a, ha, ba, ann1, same1, ca, known1⟩ := h.lines
  obtain ⟨le, b, hb, bb, ann2, same2, cb, known2⟩ := k ann1 same1
  have le1 := h.labels
  -- The annotation of the second part is one of the first as well.
  obtain ⟨ca2, known12⟩ := ca.congr ann2 fun l hl => same2 l (ba l hl)
  have later : B ⊆ knownAfter ann2 A a := known12 ▸ known1
  refine ⟨le1.trans le, a ++ b, by rw [hb, ha, List.append_assoc], ?_, ann2, ?_, ?_, ?_⟩
  · intro l hl
    rw [labelsOf_append, jumpsOf_append, List.mem_append, List.mem_append] at hl
    rcases hl with (hl | hl) | (hl | hl)
    · exact (ba l (.inl hl)).trans le
    · exact bb l (.inl hl)
    · exact (ba l (.inr hl)).trans le
    · exact bb l (.inr hl)
  · intro l hl
    rw [same2 l (by omega), same1 l hl]
  · rw [checked_append]
    exact ⟨ca2, cb.mono later⟩
  · rw [knownAfter_append]
    exact known2.trans (knownAfter_mono later)

lemma mono (h : Guarded ann e e' A B) (hb : C ⊆ B) : Guarded ann e e' A C := by
  obtain ⟨code, hcode, bound, ann', same, checked, known⟩ := h.lines
  exact ⟨h.labels, code, hcode, bound, ann', same, checked, hb.trans known⟩

lemma scope {ann' : Int → Set Nat} (h : Guarded ann' (e.count m n) e' A B)
    (same : ∀ l ≤ e.labels, ann' l = ann l) : Guarded ann e e' A B := by
  obtain ⟨code, hcode, bound, ann2, same2, checked, known⟩ := h.lines
  have le := h.labels
  simp only [Emitter.count_labels] at le same2
  refine ⟨by omega, code, hcode, bound, ann2, fun l hl => ?_, checked, known⟩
  rw [same2 l (by omega), same l hl]

lemma refl : Guarded ann e e A A :=
  ⟨Int.le_refl _, [], by simp, by simp, ann, fun _ _ => rfl, trivial, subset_rfl⟩

lemma count (h : Guarded ann e e' A B) (m n : Nat) : Guarded ann e (e'.count m n) A B := by
  obtain ⟨code, hcode, bound, ann', same, checked, known⟩ := h.lines
  have le := h.labels
  refine ⟨by simp only [Emitter.count_labels]; omega, code, hcode, fun l hl => ?_, ann', same,
    checked, known⟩
  have := bound l hl
  simp only [Emitter.count_labels]
  omega

lemma lines_with (ann' : Int → Set Nat) (same : ∀ l ≤ e.labels, ann' l = ann l)
    (bound : ∀ l, l ∈ labelsOf ls ∨ l ∈ jumpsOf ls → l ≤ e.labels + n) (checked : Checked ann' A ls)
    (known : B ⊆ knownAfter ann' A ls) : Guarded ann e ((e.count m n).add ls) A B :=
  ⟨by simp only [Emitter.add_labels, Emitter.count_labels]; omega, ls, by simp,
    by simpa using bound, ann', same, checked, known⟩

lemma add (bound : ∀ l, l ∈ labelsOf ls ∨ l ∈ jumpsOf ls → l ≤ e.labels) (checked : Checked ann A ls)
    (known : B ⊆ knownAfter ann A ls) : Guarded ann e (e.add ls) A B := by
  simpa using lines_with (m := 0) (n := 0) ann (fun _ _ => rfl) (by simpa using bound) checked known

end Guarded

/-! ## Operations -/

lemma guarded_set (k n : Nat) (c : Cls) (rhs : Rhs) (reads : ∀ t ∈ rhs.temps, Temp.In A t) :
    Guarded ann e ((e.count k 0).add [.instr (.set (.temp (some n)) c rhs)]) A (insert n A) := by
  refine .lines_with ann (fun _ _ => rfl) ?_ ?_ ?_
  · simp
  · simpa using reads
  · simp

lemma guarded_again (n : Nat) (c : Cls) (rhs : Rhs) (reads : ∀ t ∈ rhs.temps, Temp.In A t) :
    Guarded ann e (e.add [.instr (.set (.temp (some n)) c rhs)]) A (insert n A) := by
  simpa using guarded_set (e := e) 0 n c rhs reads

lemma guarded_store (size : Int64) (value address : Value)
    (reads : ∀ t ∈ value.temps ++ address.temps, Temp.In A t) :
    Guarded ann e (e.add (storeLines size value address)) A A := by
  unfold storeLines
  cases Width.ofSize? size with
  | none => simpa using Guarded.refl
  | some w =>
    refine .add ?_ ?_ ?_
    · simp
    · simpa using reads
    · simp

lemma guarded_storeVar (ha : Temp.In A a) :
    Guarded ann e (e.add [.instr (storeInstr s c a)]) A A := by
  unfold storeInstr
  split_ifs
  all_goals
    refine .add ?_ ?_ ?_
    · simp
    · simpa using ha
    · simp

/-- A value that need not be there where all temporaries count as set. -/
def Granted (there : Bool) (A : Set Nat) : Prop := there = true ∨ A = univ

namespace Granted

variable {p q : Bool}

lemma left (h : Granted (p && q) A) : Granted p A := h.imp_left fun h => (Bool.and_eq_true_iff.mp h).1

lemma right (h : Granted (p && q) A) : Granted q A := h.imp_left fun h => (Bool.and_eq_true_iff.mp h).2

lemma mono (h : Granted p A) (hab : A ⊆ B) : Granted p B := by
  rcases h with h | rfl
  · exact .inl h
  · exact .inr (univ_subset_iff.mp hab)

lemma insert (h : Granted p A) (n : Nat) : Granted p (insert n A) := h.mono (subset_insert n A)

end Granted

lemma guarded_read (there : Granted (!s.silent) A) :
    Guarded ann e (e.add (readLines (some n) s c)) A (insert n A) := by
  unfold readLines loadLines
  unfold Symbol.silent at there
  by_cases hm : s.inMemory = true
  · simp only [hm, if_true]
    cases hk : Load.ofSize? s.size with
    | none =>
      rcases there with there | rfl
      · simp [hm, hk] at there
      · simpa using Guarded.refl
    | some k => exact guarded_again n _ _ (by simp)
  · simp only [hm]
    exact guarded_again n _ _ (by simp)

lemma guarded_read_idle : Guarded ann e (e.add (readLines (some n) s c)) A A := by
  cases hs : s.silent with
  | false => exact (guarded_read (.inl (by simp [hs]))).mono (subset_insert n A)
  | true =>
    obtain ⟨hm, hk⟩ : s.inMemory = true ∧ Load.ofSize? s.size = none := by
      simpa [Symbol.silent] using hs
    simpa [readLines, loadLines, hm, hk] using Guarded.refl

lemma guarded_step : Guarded ann e (e.add (stepLines s c step n)) A A := by
  unfold stepLines bumpLines loadLines
  by_cases hm : s.inMemory = true
  · simp only [hm, if_true]
    cases hk : Load.ofSize? s.size with
    | none =>
      have none : Width.ofSize? s.size = none := by
        unfold Load.ofSize? at hk
        unfold Width.ofSize?
        split_ifs at hk ⊢
        rfl
      simpa [storeLines, none] using Guarded.refl
    | some k =>
      have load : Guarded ann e _ A _ :=
        guarded_again n k.1 (.load k.2 (.named s.storageName)) (by simp)
      have add := load.seq fun _ _ => guarded_again n k.1 (.arith .add (.temp (some n)) (.int step))
        (by simp)
      have store := add.seq fun _ _ => guarded_store s.size (.temp (some n))
        (.named s.storageName) (by simp)
      refine Guarded.mono (by simpa using store) ?_
      exact (subset_insert n A).trans (by simp)
  · simp only [hm]
    refine .add ?_ ?_ ?_
    · simp
    · simp
    · simp

lemma guarded_var (read : ∀ ann e, Guarded ann e (e.add (readLines (some n) s c)) A B) :
    Guarded ann e (e.add (varLines s op c step n)) A B := by
  unfold varLines
  by_cases pre : (op = .preInc || op = .preDec) = true
  · rw [if_pos pre, ← Emitter.add_add]
    exact guarded_step.seq fun ann1 _ => read ann1 _
  · rw [if_neg pre]
    by_cases post : (op = .postInc || op = .postDec) = true
    · rw [if_pos post, ← Emitter.add_add]
      exact (read ann e).seq fun ann1 _ => guarded_step
    · rw [if_neg post]
      exact read ann e

/-- The step leaves a value in `r`, if the values that it reads are there. -/
def Yields (e e' : Emitter) (there : Bool) (r : Temp) : Prop :=
  ∃ n, r = some n ∧ ∀ ann A, Granted there A → Guarded ann e e' A (insert n A)

/-- The step leaves a value in `r` that it makes from the one in `m`. -/
def Carries (e e' : Emitter) (m : Nat) (r : Temp) : Prop :=
  ∃ n, r = some n ∧ ∀ ann A, m ∈ A → Guarded ann e e' A (insert n A)

lemma Yields.carry (h : Yields e e1 p a) (k : ∀ m, a = some m → Carries e1 e' m r) : Yields e e' p r := by
  obtain ⟨m, rfl, first⟩ := h
  obtain ⟨n, rfl, second⟩ := k m rfl
  refine ⟨n, rfl, fun ann A there => ?_⟩
  refine ((first ann A there).seq fun ann1 _ => second ann1 _ (mem_insert m A)).mono ?_
  exact insert_subset_insert (subset_insert m A)

lemma Carries.refl : Carries e e m (some m) :=
  ⟨m, rfl, fun ann A hm => by simpa [insert_eq_of_mem hm] using Guarded.refl⟩

lemma carries_set {k : Nat} (reads : ∀ t ∈ rhs.temps, t = some m) :
    Carries e ((e.count k 0).add [.instr (.set (.temp (some (e.temps + k))) c rhs)]) m
      (some (e.temps + k)) := by
  refine ⟨_, rfl, fun ann A hm => guarded_set k _ c rhs fun t ht => ?_⟩
  exact ⟨m, hm, reads t ht⟩

lemma carries_again (reads : ∀ t ∈ rhs.temps, t = some m) :
    Carries e (e.add [.instr (.set (.temp (some m)) c rhs)]) m (some m) := by
  refine ⟨_, rfl, fun ann A hm => guarded_again m c rhs fun t ht => ?_⟩
  exact ⟨m, hm, reads t ht⟩

lemma yields_new (reads : rhs.temps = []) :
    Yields e ((e.count 1 0).add [.instr (.set (.temp (some (e.temps + 1))) c rhs)]) true
      (some (e.temps + 1)) :=
  ⟨_, rfl, fun _ _ _ => guarded_set 1 _ c rhs (by rw [reads]; nofun)⟩

lemma loadVar_yields (h : loadVar ss s op e = .ok r e') : Yields e e' (!s.silent) r := by
  obtain ⟨c, step, -, -, rfl, rfl⟩ := loadVar_eq_ok h
  refine ⟨_, rfl, fun ann A there => ?_⟩
  exact Guarded.scope (guarded_var fun _ _ => guarded_read there) fun _ _ => rfl

lemma loadVar_guarded_idle (h : loadVar ss s op e = .ok r e') : Guarded ann e e' A A := by
  obtain ⟨c, step, -, -, -, rfl⟩ := loadVar_eq_ok h
  exact Guarded.scope (guarded_var fun _ _ => guarded_read_idle) fun _ _ => rfl

lemma loadThrough_carries (h : loadThrough (some m) t e = .ok r e') : Carries e e' m r := by
  obtain ⟨u, size, c, k, -, -, -, rfl, rfl⟩ := loadThrough_eq_ok h
  exact carries_set (by simp)

lemma widen_carries {target : CType} (h : widen (some m) source target e = .ok r e') : Carries e e' m r := by
  rcases widen_eq_ok h with ⟨-, rfl, rfl⟩ | ⟨-, c, d, -, -, rfl, rfl⟩
  · exact .refl
  · exact carries_set (by simp)

lemma inType_carries {target : CType} (h : inType (some m) source target e = .ok r e') : Carries e e' m r := by
  rcases inType_eq_ok h with ⟨-, rfl, rfl⟩ | ⟨-, h⟩
  · exact .refl
  · exact widen_carries h

lemma cast_carries {target : CType} (h : cast (some m) source target e = .ok r e') : Carries e e' m r := by
  rcases cast_eq_ok h with ⟨-, rfl, rfl⟩ | ⟨-, k, c, rhs, -, -, hrhs, rfl, rfl⟩
  · exact ⟨m, rfl, fun ann A hm => by simpa [insert_eq_of_mem hm] using Guarded.refl.count 1 0⟩
  · refine carries_set ?_
    rcases hrhs with rfl | ⟨x, rfl⟩ <;> simp

lemma shiftLeft_carries (h : shiftLeft (some m) k t e = .ok r e') : Carries e e' m r := by
  obtain ⟨rfl, lines, rfl, rfl | rfl⟩ := shiftLeft_eq_ok h
  · refine ⟨_, rfl, fun ann A hm => ?_⟩
    have wide : Guarded ann e _ A _ := guarded_set 2 (e.temps + 1) .long
      (.extend (.signed .word) (some m)) (by simpa using hm)
    have outcome := wide.seq fun _ _ => guarded_again (e.temps + 2) .long
      (.arith .shl (.temp (some (e.temps + 1))) (.int k)) (by simp)
    refine Guarded.mono (by simpa using outcome) ?_
    exact insert_subset_insert (subset_insert _ A)
  · exact carries_set (by simp)

lemma timesConstant_carries (h : timesConstant (some m) k t e = .ok r e') : Carries e e' m r := by
  obtain ⟨size, -, ⟨-, rfl, rfl⟩ | ⟨-, rfl, rfl⟩⟩ := timesConstant_eq_ok h
  · refine ⟨_, rfl, fun ann A hm => ?_⟩
    have wide : Guarded ann e _ A _ := guarded_set 2 (e.temps + 1) .long
      (.extend (.signed .word) (some m)) (by simpa using hm)
    have factor := wide.seq fun _ _ => guarded_again (e.temps + 2) .long (.copy (.int k))
      (by simp)
    have outcome := factor.seq fun _ _ => guarded_again (e.temps + 1) .long
      (.arith .mul (.temp (some (e.temps + 1))) (.temp (some (e.temps + 2))))
      (by simp)
    refine Guarded.mono (by simpa using outcome) ?_
    exact (subset_insert (e.temps + 2) _).trans (by simp)
  · refine ⟨m, rfl, fun ann A hm => ?_⟩
    have factor : Guarded ann e _ A _ := guarded_set 1 (e.temps + 1) .long (.copy (.int k))
      (by simp)
    have outcome := factor.seq fun _ _ => guarded_again m .long
      (.arith .mul (.temp (some m)) (.temp (some (e.temps + 1))))
      (by simp [hm])
    refine Guarded.mono (by simpa using outcome) ?_
    exact insert_subset_insert (subset_insert _ A)

lemma Yields.arith (h : Yields e e1 p r) (k : Yields e1 e2 q a) (c : Cls) (f : Arith) :
    Yields e (e2.add [.instr (.set (.temp r) c (.arith f (.temp r) (.temp a)))]) (p && q) r := by
  obtain ⟨m, rfl, first⟩ := h
  obtain ⟨n, rfl, second⟩ := k
  refine ⟨m, rfl, fun ann A there => ?_⟩
  have both := (first ann A there.left).seq fun ann1 _ => second ann1 _ (there.right.insert m)
  refine (both.seq fun _ _ => guarded_again m c _ ?_).mono ?_
  · simp
  · exact insert_subset_insert ((subset_insert m A).trans (subset_insert n _))

lemma Yields.compare {b : Temp} (h : Yields e e1 p a) (k : Yields e1 e2 q b) (rel : Relation) (c : Cls) :
    Yields e ((e2.count 1 0).add [.instr (.set (.temp (some (e2.temps + 1))) c
      (.compare rel c (.temp a) (.temp b)))]) (p && q) (some (e2.temps + 1)) := by
  obtain ⟨m, rfl, first⟩ := h
  obtain ⟨n, rfl, second⟩ := k
  refine ⟨_, rfl, fun ann A there => ?_⟩
  have both := (first ann A there.left).seq fun ann1 _ => second ann1 _ (there.right.insert m)
  refine (both.seq fun _ _ => guarded_set 1 _ c _ ?_).mono ?_
  · simp
  · exact insert_subset_insert ((subset_insert m A).trans (subset_insert n _))

lemma guarded_call {f : Symbol} {cs : List (Cls × Temp)} (reads : ∀ t ∈ cs.map Prod.snd, Temp.In A t) :
    Guarded ann e ((e.count 1 0).add [callLine f n c cs]) A
      (if f.type = .void then A else insert n A) := by
  unfold callLine
  by_cases hv : f.type = .void
  · rw [if_pos hv, if_pos hv]
    refine .lines_with ann (fun _ _ => rfl) ?_ ?_ ?_
    · simp
    · simpa using reads
    · simp
  · rw [if_neg hv, if_neg hv]
    exact guarded_set 1 n c _ reads

lemma update_below (ann : Int → Set Nat) (S : Set Nat) :
    ∀ l ≤ e.labels, Function.update ann (e.labels + 1) S l = ann l := by
  intro l hl
  exact Function.update_of_ne (by omega) _ _

lemma guarded_truth (op : Op) (c : Cls) (hn : n ∈ A) (hl : l ≤ e.labels) (hann : ann l ⊆ A) :
    Guarded ann e ((e.count 1 1).add (Tree.truthLines op (some n) c l e)) A
      (insert (e.temps + 1) A) := by
  have old := update_below ann (insert (e.temps + 1) A) l hl
  have asked : ann l ⊆ insert (e.temps + 1) A := hann.trans (subset_insert _ A)
  refine .lines_with (Function.update ann (e.labels + 1) (insert (e.temps + 1) A))
    (update_below ann _) ?_ ?_ ?_
  · unfold Tree.truthLines decision
    intro m
    split <;> simp <;> omega
  · unfold Tree.truthLines decision
    split <;> simp [hn, old, asked]
  · unfold Tree.truthLines decision
    split <;> simp

lemma guarded_unless (hn : n ∈ A) (hl : l ≤ e.labels) (hann : ann l ⊆ A) :
    Guarded ann e ((e.count 2 1).add (Tree.unlessLines (some n) l e)) A A := by
  have old := update_below ann A l hl
  have more : A ⊆ insert (e.temps + 2) (insert (e.temps + 1) A) :=
    (subset_insert _ A).trans (subset_insert _ _)
  refine .lines_with (Function.update ann (e.labels + 1) A) (update_below ann A) ?_ ?_ ?_
  · intro m
    simp [Tree.unlessLines]
    omega
  · simp [Tree.unlessLines, hn, old, hann.trans more, more]
  · simp [Tree.unlessLines]

lemma armTest_guarded {next here : Int} {value : Option Int64} {u : Unit}
    (h : armTest (some n) t next here value e = .ok u e') (hn : n ∈ A)
    (hnext : next ≤ e.labels ∧ ann next ⊆ A) (hhere : here ≤ e.labels ∧ ann here ⊆ A) :
    Guarded ann e e' A A := by
  cases value with
  | none =>
    obtain ⟨-, rfl⟩ := pure_eq_ok.mp h
    exact .refl
  | some v =>
    obtain ⟨c, -, rfl⟩ := Tree.armTest_eq_ok h
    have old := update_below (e := e) ann A next hnext.1
    have old' := update_below (e := e) ann A here hhere.1
    have more : A ⊆ insert (e.temps + 2) (insert (e.temps + 1) A) :=
      (subset_insert _ A).trans (subset_insert _ _)
    refine .lines_with (Function.update ann (e.labels + 1) A) (update_below ann A) ?_ ?_ ?_
    · intro m
      simp [Tree.unequalLines]
      omega
    · simp [Tree.unequalLines, hn, old, old', hnext.2.trans more, hhere.2, more]
    · simp [Tree.unequalLines]

/-! ## A fixed annotation -/

/-- The step is guarded under every annotation that is `ann` up to the label `L`, which has been given
out before it. -/
structure Guards (L : Int) (ann : Int → Set Nat) (e e' : Emitter) (A B : Set Nat) : Prop where
  le : L ≤ e.labels
  each : ∀ ann', (∀ l ≤ L, ann' l = ann l) → Guarded ann' e e' A B

namespace Guards

variable {L : Int}

lemma guarded (h : Guards L ann e e' A B) : Guarded ann e e' A B := h.each ann fun _ _ => rfl

lemma later (h : Guards L ann e e' A B) : L ≤ e'.labels := h.le.trans h.guarded.labels

lemma of (le : L ≤ e.labels) (h : ∀ ann, Guarded ann e e' A B) : Guards L ann e e' A B :=
  ⟨le, fun ann' _ => h ann'⟩

lemma seq (h : Guards L ann e e1 A B) (k : Guards L ann e1 e2 B C) : Guards L ann e e2 A C := by
  refine ⟨h.le, fun ann' same => (h.each ann' same).seq fun ann1 same1 => k.each ann1 fun l hl => ?_⟩
  rw [same1 l (hl.trans h.le), same l hl]

lemma mono (h : Guards L ann e e' A B) (hb : C ⊆ B) : Guards L ann e e' A C :=
  ⟨h.le, fun ann' same => (h.each ann' same).mono hb⟩

lemma count (h : Guards L ann e e' A B) (m n : Nat) : Guards L ann e (e'.count m n) A B :=
  ⟨h.le, fun ann' same => (h.each ann' same).count m n⟩

lemma add (ls : List Line) (le : L ≤ e.labels)
    (bound : ∀ l, l ∈ labelsOf ls ∨ l ∈ jumpsOf ls → l ≤ L)
    (checked : Checked ann A ls) (known : B ⊆ knownAfter ann A ls) :
    Guards L ann e (e.add ls) A B := by
  refine ⟨le, fun ann' same => ?_⟩
  obtain ⟨checked', known'⟩ := checked.congr ann' fun l hl => same l (bound l hl)
  exact .add (fun l hl => (bound l hl).trans le) checked' (known' ▸ known)

lemma truth (le : L ≤ e.labels) (op : Op) (c : Cls) (hn : n ∈ A) (hl : l ≤ L) (hann : ann l ⊆ A) :
    Guards L ann e ((e.count 1 1).add (Tree.truthLines op (some n) c l e)) A
      (insert (e.temps + 1) A) :=
  ⟨le, fun _ same => guarded_truth op c hn (hl.trans le) (same l hl ▸ hann)⟩

lemma jumpsUnless (le : L ≤ e.labels) (hn : n ∈ A) (hl : l ≤ L) (hann : ann l ⊆ A) :
    Guards L ann e ((e.count 2 1).add (Tree.unlessLines (some n) l e)) A A :=
  ⟨le, fun _ same => guarded_unless hn (hl.trans le) (same l hl ▸ hann)⟩

lemma meet {m : Int} (le : L ≤ e.labels) (hl : l ≤ L) (hm : m ≤ L) (annl : ann l = A)
    (annm : ann m ⊆ A) :
    Guards L ann e ((e.count 0 1).add [.label (e.labels + 1), .instr (.jump m), .label l]) A A := by
  refine ⟨le, fun ann' same => .lines_with (Function.update ann' (e.labels + 1) A)
    (update_below ann' A) ?_ ?_ ?_⟩
  all_goals
    have oldl := (update_below (e := e) ann' A l (hl.trans le)).trans (same l hl)
    have oldm := (update_below (e := e) ann' A m (hm.trans le)).trans (same m hm)
  · intro k
    simp
    omega
  · simpa [oldl, oldm] using annm
  · simp [oldl, annl]

end Guards

/-- An annotation with two labels given out and annotated. -/
def annotateTwo (ann : Int → Set Nat) (L : Int) (S T : Set Nat) : Int → Set Nat :=
  Function.update (Function.update ann (L + 1) S) (L + 2) T

section
variable {L : Int} {S T : Set Nat}

@[simp] lemma annotateTwo_one : annotateTwo ann L S T (L + 1) = S := by simp [annotateTwo]

@[simp] lemma annotateTwo_two : annotateTwo ann L S T (L + 2) = T := by simp [annotateTwo]

lemma annotateTwo_below (hl : l ≤ L) : annotateTwo ann L S T l = ann l := by
  rw [annotateTwo, Function.update_of_ne (by omega), Function.update_of_ne (by omega)]

end

lemma Guards.scope {S T : Set Nat} {L : Int} {k : Nat}
    (h : Guards L (annotateTwo ann e.labels S T) (e.count 0 k) e' A B) : Guarded ann e e' A B :=
  h.guarded.scope fun _ hl => annotateTwo_below hl

end Lower

end SmallC
