import SmallC.Proofs.Lowering.Inversion

/-!
# The code of single operations

An operation writes a few lines and may set the temporaries it is given. For each one: what it
wrote, and that the temporary with its outcome is a new one or one of those it was given.
-/

namespace SmallC

variable {k step v : Int64} {op : Op} {f : Symbol} {source target : CType}

/-- A temporary, if there is one, was given out after the first `base`. -/
def Temp.Above (base : Nat) (e : Emitter) (r : Temp) : Prop := ∀ n, r = some n → base < n ∧ n ≤ e.temps

variable {n : Nat}

namespace Temp.Above

variable {base : Nat} {e e' : Emitter} {r : Temp}

lemma later (h : Above base e r) (hle : e.temps ≤ e'.temps) : Above base e' r := by
  intro n hn
  have := h n hn
  omega

lemma none : Above base e none := fun _ h => nomatch h

lemma some (h1 : base < n) (h2 : n ≤ e.temps) : Above base e (some n) := by
  intro m hm
  obtain rfl := Option.some.inj hm
  exact ⟨h1, h2⟩

lemma plain (h : Above base e r) (c : Ir.Cls) (rhs : Ir.Rhs) :
    (Ir.Line.instr (.set (.temp r) c rhs)).Plain base := by
  cases r with
  | none => trivial
  | some n => exact (h n rfl).1

end Temp.Above

namespace Lower

open Ir

variable {α : Type} {e e' : Emitter}

/-! ## What was written -/

section Wrote

variable {base : Nat} {r a b : Temp}
variable {t : CType} {u : Unit} {s : Symbol} {c : Cls} {l : Int}

lemma wrote_lines {k : Nat} {ls : List Line} {silent : Bool} (h : ∀ l ∈ ls, l.Plain base)
    (hs : ls.isEmpty = silent) : Wrote base (.plain silent) e ((e.count k 0).add ls) := by
  subst hs
  induction ls generalizing e k with
  | nil => simpa using Wrote.counted k
  | cons l ls ih =>
    have first : Wrote base (.plain false) e ((e.count k 0).add [l]) :=
      (Wrote.counted k).plain (.line (h l List.mem_cons_self))
    have w := first.plain (ih (k := 0) fun l mem => h l (List.mem_cons_of_mem _ mem))
    simpa using w

lemma wrote_new (c : Cls) (rhs : Rhs) (hb : base ≤ e.temps) : Wrote base (.plain false) e
        ((e.count 1 0).add [.instr (.set (.temp (some (e.temps + 1))) c rhs)]) ∧
      Temp.Above base ((e.count 1 0).add [.instr (.set (.temp (some (e.temps + 1))) c rhs)])
        (some (e.temps + 1)) := by
  have above : Temp.Above base (e.count 1 0) (some (e.temps + 1)) := .some (by omega) (by simp)
  exact ⟨(Wrote.counted 1).plain (.line (above.plain c rhs)), above⟩

lemma wrote_set (c : Cls) (rhs : Rhs) (ha : a.Above base e) : Wrote base (.plain false) e (e.add [.instr (.set (.temp a) c rhs)]) :=
  .line (ha.plain c rhs)

lemma loadInt_wrote (h : loadInt v t e = .ok r e') (hb : base ≤ e.temps) :
    Wrote base (.plain false) e e' ∧ r.Above base e' := by
  obtain ⟨c, -, rfl, rfl⟩ := loadInt_eq_ok.mp h
  exact wrote_new _ _ hb

lemma wrote_storeVar : Wrote base (.plain false) e (e.add [.instr (storeInstr s c r)]) := by
  refine .line ?_
  unfold storeInstr
  split
  · trivial
  · split <;> trivial

lemma isNone_ofSize? (size : Int64) : (Width.ofSize? size).isNone = (Load.ofSize? size).isNone := by
  unfold Load.ofSize? Width.ofSize?
  split
  · rfl
  · split
    · rfl
    · split <;> rfl

lemma varLines_plain (hn : base < n) : ∀ l ∈ varLines s op c step n, l.Plain base := by
  have hm : base < n + 1 := Nat.lt_succ_of_lt hn
  refine forall_mem_varLines ?_ ?_
  · unfold readLines loadLines
    split
    · split <;> simp [Line.Plain, hn]
    · simpa [Line.Plain] using hn
  · unfold stepLines bumpLines loadLines storeLines
    cases Load.ofSize? s.size <;> cases Width.ofSize? s.size <;> split <;> simp [Line.Plain, hm]

lemma isEmpty_varLines : (varLines s op c step n).isEmpty = s.silent := by
  have same := isNone_ofSize? s.size
  have reads : (readLines (some n) s c).isEmpty = s.silent := by
    unfold readLines loadLines Symbol.silent
    cases s.inMemory <;> cases Load.ofSize? s.size <;> rfl
  have steps : (stepLines s c step (n + 1)).isEmpty = s.silent := by
    unfold stepLines bumpLines loadLines storeLines Symbol.silent
    cases hl : Load.ofSize? s.size <;> cases hw : Width.ofSize? s.size <;> cases s.inMemory <;> simp_all
  have both {ls ms : List Line} (hl : ls.isEmpty = s.silent) (hm : ms.isEmpty = s.silent) :
      (ls ++ ms).isEmpty = s.silent := by
    cases ls with
    | nil => exact hm
    | cons => exact hl
  unfold varLines
  split
  · exact both steps reads
  · split
    · exact both reads steps
    · exact reads

lemma loadVar_wrote {ss : Symbols} (h : loadVar ss s op e = .ok r e') (hb : base ≤ e.temps) :
    Wrote base (.plain s.silent) e e' ∧ r.Above base e' := by
  obtain ⟨c, step, -, -, rfl, rfl⟩ := loadVar_eq_ok h
  have taken : 1 ≤ varTemps s op := by
    unfold varTemps
    split <;> omega
  exact ⟨wrote_lines (varLines_plain (by omega)) isEmpty_varLines,
    .some (by omega) (Nat.add_le_add_left taken _)⟩

lemma loadThrough_wrote (h : loadThrough a t e = .ok r e') (hb : base ≤ e.temps) :
    Wrote base (.plain false) e e' ∧ r.Above base e' := by
  obtain ⟨u, size, c, k, -, -, -, rfl, rfl⟩ := loadThrough_eq_ok h
  exact wrote_new _ _ hb

lemma wrote_store {size : Int64} {value address : Value} (scalar : t.scalarSize = .ok size) :
    Wrote base (.plain false) e (e.add (storeLines size value address)) := by
  have known := ofSize?_scalarSize scalar
  rw [← isNone_ofSize?] at known
  unfold storeLines
  cases width : Width.ofSize? size with
  | none => simp [width] at known
  | some w => exact .line trivial

lemma call_wrote {args : List (Temp × CType)} (h : call f args e = .ok r e') (hb : base ≤ e.temps) :
    Wrote base (.plain false) e e' ∧ r.Above base e' := by
  obtain ⟨c, cs, -, -, rfl, rfl⟩ := call_eq_ok h
  refine ⟨wrote_lines (fun l mem => ?_) rfl, .some (by omega) (by simp)⟩
  rw [List.mem_singleton.mp mem, callLine]
  split
  · trivial
  · exact Nat.lt_succ_of_le hb

lemma widen_wrote (h : widen a source target e = .ok r e') (hb : base ≤ e.temps) (ha : a.Above base e) :
    Wrote base (.plain source.isWide) e e' ∧ r.Above base e' := by
  rcases widen_eq_ok h with ⟨wide, rfl, rfl⟩ | ⟨narrow, c, d, -, -, rfl, rfl⟩
  · exact wide ▸ ⟨.refl, ha⟩
  · exact narrow ▸ wrote_new _ _ hb

lemma inType_wrote (h : inType a source target e = .ok r e') (hb : base ≤ e.temps) (ha : a.Above base e) :
    ∃ p, Wrote base (.plain p) e e' ∧ r.Above base e' := by
  rcases inType_eq_ok h with ⟨-, rfl, rfl⟩ | ⟨-, h⟩
  · exact ⟨_, .refl, ha⟩
  · exact ⟨_, widen_wrote h hb ha⟩

lemma cast_wrote (h : cast a source target e = .ok r e') (hb : base ≤ e.temps) (ha : a.Above base e) :
    Wrote base (.plain (source.castsFreely target)) e e' ∧ r.Above base e' := by
  rcases cast_eq_ok h with ⟨free, rfl, rfl⟩ | ⟨made, k, c, rhs, -, one, -, rfl, rfl⟩
  · exact free ▸ ⟨.counted 1, ha.later (by simp)⟩
  · have above : base < e.temps + k := by omega
    exact made ▸ ⟨wrote_lines (by simpa [Line.Plain] using above) rfl, .some above (by simp)⟩

lemma shiftLeft_wrote (h : shiftLeft a k t e = .ok r e') (hb : base ≤ e.temps) :
    Wrote base (.plain false) e e' ∧ r.Above base e' := by
  obtain ⟨rfl, lines, rfl, rfl | rfl⟩ := shiftLeft_eq_ok h
  all_goals
    refine ⟨wrote_lines ?_ rfl, .some (by omega) (by simp)⟩
    simp [Line.Plain]
    omega

lemma timesConstant_wrote (h : timesConstant a k t e = .ok r e') (hb : base ≤ e.temps) (ha : a.Above base e) :
    Wrote base (.plain false) e e' ∧ r.Above base e' := by
  obtain ⟨size, -, ⟨-, rfl, rfl⟩ | ⟨-, rfl, rfl⟩⟩ := timesConstant_eq_ok h
  · refine ⟨wrote_lines ?_ rfl, .some (by omega) (by simp)⟩
    simp [Line.Plain]
    omega
  · have set := ha.plain .long (.arith .mul (.temp r) (.temp (some (e.temps + 1))))
    refine ⟨wrote_lines ?_ rfl, ha.later (by simp)⟩
    simpa [Line.Plain, Nat.lt_succ_of_le hb] using set

/-- A jump between the line that computes its condition and the line after it: it leaves by `l`,
if it leaves at all. -/
lemma wrote_test (c : Cls) (rhs : Rhs) {jump : List Line} (pos : 0 < l) (hl : 0 ≤ e.labels) (hb : base ≤ e.temps)
    (hjump : jump = [.instr (.branch (some (e.temps + 1)) l (e.labels + 1))] ∨
      jump = [.instr (.branch (some (e.temps + 1)) (e.labels + 1) l)] ∨ jump = []) :
    Wrote base (.exiting l) e ((e.count 1 1).add
      ([.instr (.set (.temp (some (e.temps + 1))) c rhs)] ++ jump ++ [.label (e.labels + 1)])) := by
  refine ⟨Nat.le_add_right _ _, Int.le_add_one (Int.le_refl _), _, Emitter.add_lines _ _, ?_⟩
  have above : base < e.temps + 1 := by omega
  have differ : ¬ 0 = e.labels + 1 := by omega
  have positive : ¬ 0 = l := by omega
  have next : e.labels < e.labels + 1 := by omega
  rcases hjump with rfl | rfl | rfl
  all_goals
    constructor
    case flow => intro d; cases d <;> rfl
    all_goals
      simp [Effect.exiting, Line.IsInner, Line.Spares, above, differ, positive, next]

lemma wrote_truth (parent : Op) (x : Temp) (c : Cls) (pos : 0 < l) (hl : 0 ≤ e.labels) (hb : base ≤ e.temps) :
    Wrote base (.exiting l) e ((e.count 1 1).add (Tree.truthLines parent x c l e)) := by
  refine wrote_test _ _ pos hl hb ?_
  unfold decision
  split
  · exact .inr (.inl rfl)
  · exact .inr (.inl rfl)
  · exact .inr (.inl rfl)
  · exact .inl rfl
  · exact .inr (.inr rfl)

lemma wrote_unequal {x : Temp} (pos : 0 < l) (hl : 0 ≤ e.labels) (hb : base ≤ e.temps) :
    Wrote base (.exiting l) e ((e.count 2 1).add (Tree.unequalLines x v c l e)) := by
  obtain ⟨w1, -⟩ := wrote_new c (.copy (.int v)) hb
  have w2 := wrote_test c (.compare .ne c (.temp x) (.temp (some (e.temps + 1)))) pos
    (hl.trans w1.labels) (hb.trans w1.temps) (.inl rfl)
  have w : Wrote base (.seq (.plain false) (.exiting l)) e ((e.count 2 1).add (Tree.unequalLines x v c l e)) := by
    simpa [Tree.unequalLines] using w1.andThen w2 rfl
  refine w.weaken (by simp) (by simp) rfl ?_
  intro c
  cases c <;> rfl

lemma jumpUnlessTrue_wrote (h : jumpUnlessTrue r l e = .ok u e') (pos : 0 < l) (hl : 0 ≤ e.labels)
    (hb : base ≤ e.temps) : Wrote base (.exiting l) e e' := by
  obtain rfl := jumpUnlessTrue_eq_ok.mp h
  exact wrote_unequal pos hl hb

lemma leave_wrote (h : leave r f e = .ok u e') : Wrote base (.jumping f.endLabel) e e' := by
  rcases leave_eq_ok h with ⟨-, rfl⟩ | ⟨n, c, -, -, rfl⟩
  · exact .jump
  · have set : Wrote base (.plain false) e (e.add [.instr (.set .result c (.copy (.temp r)))]) :=
      .line trivial
    have w := set.andThen (.jump (l := f.endLabel)) rfl
    rw [Emitter.add_add] at w
    refine w.weaken ?_ ?_ ?_ ?_
    · simp [Effect.seq, Effect.plain, Effect.jumping]
    · simp [Effect.seq, Effect.plain, Effect.jumping]
    · simp [Effect.seq, Effect.plain, Effect.jumping]
    · intro c
      cases c <;> rfl

lemma armTest_wrote {next here : Int} {value : Option Int64}
    (h : armTest r t next here value e = .ok u e') (hnext : 0 < next) (hhere : 0 < here)
    (hl : 0 ≤ e.labels) (hb : base ≤ e.temps) :
    Wrote base ⟨∅, {next, here}, false, fun c =>
      if value.isNone then some c else if c then none else some true⟩ e e' := by
  cases value with
  | none =>
    obtain ⟨-, rfl⟩ := pure_eq_ok.mp h
    exact Wrote.refl.weaken (by simp) (by simp) rfl fun _ => rfl
  | some v =>
    obtain ⟨c, -, rfl⟩ := Tree.armTest_eq_ok h
    have w := (wrote_unequal (v := v) (c := c) (x := r) hnext hl hb).andThen (.jump (l := here)) rfl
    rw [Emitter.add_add] at w
    refine w.weaken (by simp) (by simp) ?_ ?_
    · simp
      omega
    · intro c
      cases c <;> rfl

end Wrote

end Lower
end SmallC
