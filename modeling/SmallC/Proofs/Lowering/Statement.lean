import SmallC.Proofs.Lowering.Expression

/-!
# The code of statements

The code of a statement leaves only by its end, by the labels that `break` and `continue` go to,
and by the end of the function. It jumps to label 0 exactly if a `break` or `continue` strays, and
control flows through it as `tidy` says.
-/

namespace SmallC

open Ir in
def Tree.effect (ss : Symbols) (ctx : Context) (t : Tree) : Effect where
  places := ∅
  leaves := {ctx.loopTop, ctx.loopEnd, ctx.function.endLabel}
  strays := t.strays (ctx.loopTop = 0) (ctx.loopEnd = 0)
  flow closed := t.tidy ss closed

namespace Tree

open Lower Ir

variable {ss : Symbols} {scope : Scope} {ts : List Tree} {c : Tree}
variable {arms : List (ArmHead × Tree)} {i : Info} {e : Emitter} {ctx : Context} {base : Nat}
  {a t : Tree} {u : Unit} {last : Int}

section
variable (ctx : Context) (t : Tree) (l : Int)

@[simp] lemma effect_places : (t.effect ss ctx).places = ∅ := rfl

@[simp] lemma mem_effect_leaves : l ∈ (t.effect ss ctx).leaves ↔
      l = ctx.loopTop ∨ l = ctx.loopEnd ∨ l = ctx.function.endLabel := Iff.rfl

@[simp] lemma effect_strays :
    (t.effect ss ctx).strays = t.strays (ctx.loopTop = 0) (ctx.loopEnd = 0) := rfl

@[simp] lemma effect_flow (c : Bool) : (t.effect ss ctx).flow c = t.tidy ss c := rfl

end

lemma effect_condition (ctx : Context) (op : Op) (l : Int) (t : Tree) :
    t.effect ss (ctx.condition op l) = t.effect ss ctx := rfl

/-- What is shown of the code of a statement. -/
def Runs (ss : Symbols) (t : Tree) : Prop :=
  ∀ {ctx : Context} {e e' : Emitter} {r : Temp} {base : Nat}, t.lower ss ctx e = .ok r e' →
    ctx.function.endLabel ≠ 0 → base ≤ e.temps → 0 ≤ e.labels → Wrote base (t.effect ss ctx) e e'

/-! ## Statements without statements in them -/

lemma IsExpression.tidy_eq (ht : IsExpression ss scope t) (closed : Bool) :
    t.tidy ss closed = through (t.silent ss) closed := by
  cases ht <;> rfl

lemma IsExpression.runs (ht : IsExpression ss scope t) (lt : t.Loaded) : Runs ss t := by
  intro ctx e e' r base h _ hb hl
  obtain ⟨w, -⟩ := ht.computes h (.inl lt) hb hl
  refine w.weaken (by simp [effect]) (by simp) ?_ ?_
  · simp [effect, ht.strays_eq]
  · intro c
    simp [effect, ht.tidy_eq]

lemma empty_runs : Runs ss .empty := by
  intro ctx e e' r base h _ _ _
  obtain ⟨-, rfl⟩ := pure_eq_ok.mp h
  refine Wrote.refl.weaken (by simp [effect]) (by simp) rfl ?_
  intro c
  rfl

lemma result_runs (ha : ∀ {ctx : Context} {e e' : Emitter} {r : Temp} {base : Nat},
      a.lower ss (ctx.under .result) e = .ok r e' → base ≤ e.temps → 0 ≤ e.labels →
      ∃ p, Wrote base (.plain p) e e') : Runs ss (.result i a) := by
  intro ctx e e' r base h hf hb hl
  obtain ⟨x, e1, h1, h⟩ := bind_eq_ok.mp h
  obtain ⟨_, e2, h2, h⟩ := bind_eq_ok.mp h
  obtain ⟨-, rfl⟩ := pure_eq_ok.mp h
  obtain ⟨p, w1⟩ := ha h1 hb hl
  have w2 : Wrote base _ _ _ := leave_wrote h2
  refine (w1.andThen w2 rfl).weaken (by simp [effect]) (by simp [effect]) ?_ ?_
  · simpa [effect, strays] using hf
  · intro c
    cases p <;> cases c <;> rfl

/-! ## Blocks, branches and loops -/

lemma lowerAll_wrote (hts : ∀ t ∈ ts, Runs ss t) {e' : Emitter} (h : lowerAll ss ctx ts e = .ok u e')
    (hf : ctx.function.endLabel ≠ 0) (hb : base ≤ e.temps) (hl : 0 ≤ e.labels) :
    Wrote base ((Tree.block i ts).effect ss ctx) e e' := by
  induction ts generalizing e with
  | nil =>
    obtain ⟨-, rfl⟩ := pure_eq_ok.mp h
    exact Wrote.refl.weaken (by simp) (by simp) rfl fun _ => rfl
  | cons t ts ih =>
    obtain ⟨x, e1, h1, h⟩ := bind_eq_ok.mp h
    have w1 := hts t (.head ts) h1 hf hb hl
    have w2 := ih (fun u hu => hts u (.tail t hu)) h (hb.trans w1.temps) (hl.trans w1.labels)
    exact (w1.andThen w2 rfl).weaken (by simp) (by simp) rfl fun _ => rfl

lemma block_runs (hts : ∀ t ∈ ts, Runs ss t) : Runs ss (.block i ts) := by
  intro ctx e e' r base h hf hb hl
  obtain ⟨_, e1, h1, h⟩ := bind_eq_ok.mp h
  obtain ⟨-, rfl⟩ := pure_eq_ok.mp h
  have w := lowerAll_wrote hts (i := i) h1 hf hb hl
  exact w

lemma wrote_freshLabel : Wrote base ⟨∅, ∅, false, fun _ => some false⟩ e
      ((e.count 0 1).add [.label (e.labels + 1)]) := by
  have w : Wrote base (.placing (e.labels + 1)) (e.count 0 1) _ := .label (by simp)
  refine w.scope (by simp) ?_ (by simp) rfl fun _ => rfl
  simp
  omega

lemma branch_runs {b : Tree} (hc : Decides ss c) (ha : Runs ss a) (hb' : Runs ss b) :
    Runs ss (.branch i c a b) := by
  intro ctx e e' r base h hf hb hl
  cases empty : b.isEmpty with
  | true =>
    obtain rfl := eq_empty_of_isEmpty empty
    obtain ⟨x, e1, y, e2, h1, h2, rfl⟩ := lower_branch_one h
    have hl1 : 0 ≤ (e.count 0 1).labels := by simp only [Emitter.count_labels]; omega
    have w1 := hc.wrote h1 (by simp) (by omega) hb hl1
    have w2 := ha h2 hf (hb.trans w1.temps) (hl1.trans w1.labels)
    rw [effect_condition] at w2
    have w12 := w1.andThen w2 rfl
    have hlabels := w12.labels
    simp only [Emitter.count_labels] at hlabels
    have w3 : Wrote base (.placing (e.labels + 1)) e2 _ := .label (by omega)
    refine (w12.seq w3 (by simp) (by simp)).scope (by simp) ?_ ?_ ?_ ?_
    · simp
      omega
    · intro l
      simp
      omega
    · simp [strays]
    · intro d
      cases d with
      | true => rfl
      | false => cases h : tidy ss false a <;> simp [tidy, through, h, silent]
  | false =>
    obtain ⟨x, e1, y, e2, z, e3, h1, h2, h3, rfl⟩ := lower_branch_two empty h
    have hl2 : 0 ≤ (e.count 0 2).labels := by simp only [Emitter.count_labels]; omega
    have w1 := hc.wrote h1 (by simp) (by omega) hb hl2
    have w2 := ha h2 hf (hb.trans w1.temps) (hl2.trans w1.labels)
    have w12 := (w1.andThen w2 rfl).andThen wrote_freshLabel rfl
    rw [← List.singleton_append, ← Emitter.add_add, ← List.singleton_append, ← Emitter.add_add] at h3
    have w3 := hb' h3 hf (hb.trans w12.temps) (hl2.trans w12.labels)
    rw [effect_condition] at w12 w3
    have w := w12.fork {l | l = ctx.loopTop ∨ l = ctx.loopEnd ∨ l = ctx.function.endLabel} rfl rfl hl (by simp)
      (by simp) w3 rfl (by simp)
    refine w.weaken (by simp) (by simp) (by simp [strays]) ?_
    intro d
    cases d with
    | true => rfl
    | false =>
      cases h : tidy ss false a with
      | none => simp [tidy, through, h]
      | some d => cases h' : tidy ss false b <;> simp [tidy, through, h, h']

lemma loop_runs (hc : Decides ss c) (ha : Runs ss a) : Runs ss (.loop i c a) := by
  intro ctx e e' r base h hf hb hl
  obtain ⟨x, e1, y, e2, h1, h2, rfl⟩ := lower_loop h
  have w1 : Wrote base (.placing (e.labels + 1)) (e.count 0 2) _ :=
    .label (by simp only [Emitter.count_labels]; omega)
  have hl1 : 0 ≤ ((e.count 0 2).add [.label (e.labels + 1)]).labels := by
    simp only [Emitter.count_labels, Emitter.add_labels]; omega
  have w2 := hc.wrote h1 (by simp) (by omega) (hb.trans w1.temps) hl1
  have w12 := w1.andThen w2 rfl
  have w3 := ha h2 hf (hb.trans w12.temps) (hl1.trans w2.labels)
  rw [effect_condition] at w3
  have w13 := w12.andThen w3 rfl
  have hlabels := w13.labels
  simp only [Emitter.count_labels] at hlabels
  have w4 : Wrote base (.placing (e.labels + 2)) (e2.add [.instr (.jump (e.labels + 1))]) _ :=
    .label (by simp only [Emitter.add_labels]; omega)
  have w := (w13.andThen .jump rfl).seq w4 (by simp) (by simp)
  have hs : ¬ e.labels + 1 = 0 := by omega
  have hn : ¬ e.labels + 2 = 0 := by omega
  rw [Emitter.add_add] at w
  refine w.scope (by simp) ?_ ?_ ?_ ?_
  · simp
    omega
  · intro l
    simp
    omega
  · simp [strays, hs, hn]
  · intro d
    cases h : tidy ss false a with
    | none => cases d <;> simp [tidy, through, h]
    | some closed => cases d <;> cases closed <;> simp [tidy, through, h]

/-! ## Switches -/

/-- What is known of the code of arms up to the end of the switch: `labels` are those of their
tests, of the end, and of the code that the arms before run into. -/
def armsEffect (ss : Symbols) (ctx : Context) (arms : List (ArmHead × Tree)) (labels : List Int) :
    Effect where
  places := {l | l ∈ labels}
  leaves := {ctx.loopTop, ctx.loopEnd, ctx.function.endLabel}
  strays := straysArms (ctx.loopTop = 0) arms
  flow _ := tidyArms ss arms

def Given (e : Emitter) (labels : List Int) : Prop :=
  labels.Nodup ∧ ∀ l ∈ labels, 0 < l ∧ l ≤ e.labels

section
variable {r : Temp} {t : CType} {tests : List Int} {code c : Option Int} {e1 e2 : Emitter}

lemma Given.later {e' : Emitter} {ls : List Int} (h : Given e ls) (hle : e.labels ≤ e'.labels) :
    Given e' ls := by
  refine ⟨h.1, fun l hl => ?_⟩
  have := h.2 l hl
  omega

lemma armsEnd_wrote (h1 : code.forM label e = .ok u e1) (given : Given e (last :: code.toList)) :
    Wrote base (armsEffect ss ctx [] (last :: code.toList)) e (e1.add [.label last]) := by
  cases code with
  | none =>
    obtain ⟨-, rfl⟩ := pure_eq_ok.mp h1
    have w : Wrote base (.placing last) e1 _ := .label (given.2 last (by simp)).2
    exact w.weaken (by simp [armsEffect]) (by simp) rfl fun _ => rfl
  | some l =>
    obtain rfl := label_eq_ok.mp h1
    have w1 : Wrote base (.placing l) e _ := .label (given.2 l (by simp)).2
    have w2 : Wrote base (.placing last) (e.add [.label l]) _ := .label (given.2 last (by simp)).2
    have hne : l ≠ last := by
      have := given.1
      simp at this
      exact fun h => this h.symm
    have w := w1.seq w2 (by simpa using (given.2 last (by simp)).2) (by simpa using hne)
    refine w.weaken ?_ (by simp) rfl fun _ => rfl
    simp [armsEffect, or_comm]

lemma arm_wrote {head : ArmHead} {body : Tree} {e3 : Emitter} {test here next : Int}
    (hbody : Runs ss body) (h : armTest r t next here head.value (e.add [.label test]) = .ok u e2)
    (hnext : next ∈ tests ++ [last]) (given : Given e (test :: here :: (tests ++ [last])))
    (hend : ctx.loopEnd ≠ 0) (hf : ctx.function.endLabel ≠ 0) (hb : base ≤ e.temps)
    (hl : 0 ≤ e.labels) (rest : body = .empty ∧ Wrote base (armsEffect ss ctx arms (tests ++ [last,
    here])) e2 e3 ∨ ∃ x e4, body.lower ss ctx (e2.add [.label here]) = .ok x e4 ∧ Wrote base
    (armsEffect ss ctx arms (tests ++ [last])) e4 e3) :
    Wrote base (armsEffect ss ctx ((head, body) :: arms) (test :: here :: (tests ++ [last]))) e e3 := by
  obtain ⟨nodup, bounds⟩ := given
  obtain ⟨htest, hhere, hrest⟩ : test ∉ here :: (tests ++ [last]) ∧ here ∉ tests ++ [last] ∧ _ := by
    simpa only [List.nodup_cons] using nodup
  have old : ∀ l ∈ test :: here :: (tests ++ [last]), l ≤ e.labels := fun l hl => (bounds l hl).2
  have w1 : Wrote base (.placing test) e _ := .label (old test (by simp))
  have w2 := armTest_wrote h (bounds next (by simp at hnext ⊢; tauto)).1 (bounds here (by simp)).1
    hl hb
  have w12 := w1.andThen w2 rfl
  rcases rest with ⟨rfl, w3⟩ | ⟨x, e4, h4, w5⟩
  · have w := w12.seq w3 (fun l hl => old l (by simp [armsEffect] at hl ⊢; tauto))
      (by simp [armsEffect] at htest ⊢; tauto)
    refine w.weaken ?_ ?_ ?_ ?_
    · simp [armsEffect]
      tauto
    · simp [armsEffect] at hnext ⊢
      tauto
    · simp [armsEffect, straysArms, strays]
    · intro d
      cases head.value <;> simp [armsEffect, tidyArms, tidy, through, silent]
  · have hl2 := w12.labels
    have w3 : Wrote base (.placing here) e2 _ := .label ((old here (by simp)).trans hl2)
    have w4 := hbody h4 hf (hb.trans w12.temps) (hl.trans hl2)
    have w13 := w12.seq w3 (by simpa using old here (by simp)) (by simp at htest ⊢; tauto)
    have w := (w13.andThen w4 rfl).seq w5
      (fun l hl => old l (by simp [armsEffect] at hl ⊢; tauto)) (by
        simp [armsEffect] at htest hhere ⊢
        tauto)
    refine w.weaken ?_ ?_ ?_ ?_
    · simp [armsEffect]
      tauto
    · simp [armsEffect] at hnext ⊢
      grind
    · simp [armsEffect, straysArms, hend]
    · intro d
      cases h : tidy ss false body <;> cases head.value <;>
        simp [armsEffect, tidyArms, h]

lemma lowerArms_wrote (harms : ∀ arm ∈ arms, Runs ss arm.2)
    (h1 : lowerArms ss ctx r t arms (tests ++ [last]) code e = .ok c e1)
    (h2 : c.forM label e1 = .ok u e2) (length : tests.length = arms.length)
    (given : Given e (tests ++ last :: code.toList)) (hend : ctx.loopEnd ≠ 0)
    (hf : ctx.function.endLabel ≠ 0) (hb : base ≤ e.temps) (hl : 0 ≤ e.labels) :
    Wrote base (armsEffect ss ctx arms (tests ++ last :: code.toList)) e (e2.add [.label last]) := by
  induction arms generalizing tests code e with
  | nil =>
    obtain rfl := List.eq_nil_of_length_eq_zero length
    obtain ⟨rfl, rfl⟩ := pure_eq_ok.mp h1
    exact armsEnd_wrote h2 given
  | cons arm arms ih =>
    obtain ⟨head, body⟩ := arm
    cases tests with
    | nil => cases length
    | cons test tests =>
      obtain ⟨here, e4, e6, h4, h6, h7⟩ := lowerArms_cons h1
      have length' : tests.length = arms.length := by simpa using length
      have harms' : ∀ arm ∈ arms, Runs ss arm.2 := fun arm h => harms arm (.tail _ h)
      have hnext : (tests ++ [last]).headD 0 ∈ tests ++ [last] := by cases tests <;> simp
      -- The arm from where the label of its code is known.
      have step (given4 : Given e4 (test :: here :: (tests ++ [last]))) (hb4 : base ≤ e4.temps)
          (hl4 : 0 ≤ e4.labels) :
          Wrote base (armsEffect ss ctx ((head, body) :: arms) (test :: here :: (tests ++ [last])))
            e4 (e2.add [.label last]) := by
        have hpos := fun l hl => (given4.2 l hl).1
        have w5 : Wrote base (.placing test) e4 _ := .label (given4.2 test (by simp)).2
        have w6 : Wrote base _ _ e6 := armTest_wrote h6 (hpos _ (.tail _ (.tail _ hnext)))
          (hpos here (by simp)) (hl4.trans w5.labels) (hb4.trans w5.temps)
        have w56 := w5.andThen w6 rfl
        have given6 := given4.later w56.labels
        refine arm_wrote (harms _ (.head _)) h6 hnext given4 hend hf hb4 hl4 ?_
        rcases h7 with ⟨rfl, h7⟩ | ⟨-, x, e8, h8, h9⟩
        · refine .inl ⟨rfl, ih harms' h7 length' ⟨?_, ?_⟩ (hb4.trans w56.temps) (hl4.trans w56.labels)⟩
          · have := given6.1
            simp only [List.nodup_cons, List.mem_cons, List.nodup_append, Option.toList_some] at this ⊢
            grind
          · intro l hl
            exact given6.2 l (by simp at hl ⊢; tauto)
        · have w8 := harms _ (.head _) h8 hf (hb4.trans w56.temps) (hl4.trans w56.labels)
          refine .inr ⟨x, e8, h8, ih harms' h9 length' ⟨?_, ?_⟩ (hb4.trans (w56.temps.trans w8.temps))
            (hl4.trans (w56.labels.trans w8.labels))⟩
          · exact (List.nodup_cons.mp (List.nodup_cons.mp given6.1).2).2
          · intro l hl
            exact (given6.later w8.labels).2 l (.tail _ (.tail _ hl))
      clear h1 h7
      rcases orNewLabel_eq_ok h4 with ⟨rfl, rfl⟩ | ⟨rfl, hhere, rfl⟩
      · have w := step ⟨?_, ?_⟩ hb hl
        · refine w.weaken ?_ (by simp [armsEffect]) rfl fun _ => rfl
          simp [armsEffect]
          tauto
        · have := given.1
          simp only [List.nodup_cons, List.mem_cons, List.nodup_append, Option.toList_some] at this ⊢
          grind
        · intro l hl
          exact given.2 l (by simp at hl ⊢; tauto)
      · have old : ∀ l ∈ test :: (tests ++ [last]), 0 < l ∧ l ≤ e.labels := given.2
        have hfresh : here ∉ test :: (tests ++ [last]) := by
          intro h
          have := (old here h).2
          omega
        have w := step ⟨?_, ?_⟩ hb (by simp only [Emitter.count_labels]; omega)
        · refine w.scope (fun l hl => (given.2 l hl).2) ?_ (by simp [armsEffect]) rfl fun _ => rfl
          intro l
          have range : e.labels < l ∧ l ≤ e.labels + (1 : Nat) ↔ l = here := by omega
          rw [range]
          simp [armsEffect]
          tauto
        · have : (test :: (tests ++ [last])).Nodup := given.1
          simp only [List.nodup_cons, List.mem_cons] at this hfresh ⊢
          tauto
        · simp only [List.mem_cons] at old ⊢
          rintro l (rfl | rfl | hl)
          · have := old l (.inl rfl)
            exact ⟨this.1, by simp only [Emitter.count_labels]; omega⟩
          · exact ⟨by omega, by simp only [Emitter.count_labels]; omega⟩
          · have := old l (.inr hl)
            exact ⟨this.1, by simp only [Emitter.count_labels]; omega⟩

end

lemma switch_runs (ha : Computes ss a) (la : a.Loaded) (harms : ∀ arm ∈ arms, Runs ss arm.2) :
    Runs ss (.switch i a arms) := by
  intro ctx e e' r base h hf hb hl
  obtain ⟨last, tests, x, e3, code, e4, e5, hlast, length, nodup, mem, h3, h4, h5, rfl⟩ := lower_switch h
  have hl2 : 0 ≤ (e.count 0 (1 + arms.length)).labels := by
    simp only [Emitter.count_labels]; omega
  have given : Given (e.count 0 (1 + arms.length)) (tests ++ last :: (none : Option Int).toList) := by
    constructor
    · simp only [Option.toList_none, List.nodup_append, List.mem_singleton]
      refine ⟨nodup, by simp, ?_⟩
      rintro l hl m rfl rfl
      have := (mem l).mp hl
      omega
    · simp only [Option.toList_none, List.mem_append, List.mem_singleton, Emitter.count_labels]
      rintro l (hl | rfl)
      · have := (mem l).mp hl
        omega
      · omega
  obtain ⟨w3, -⟩ := ha h3 (.inl la) hb hl2
  have w4 := lowerArms_wrote harms h4 h5 length (given.later w3.labels)
    (by simp only; omega) hf (hb.trans w3.temps) (hl2.trans w3.labels)
  have w := w3.seq w4 (fun l hl => (given.2 l hl).2) (by simp)
  refine w.scope (by simp) ?_ ?_ ?_ ?_
  · intro l
    simp [armsEffect, mem]
    omega
  · intro l
    simp [armsEffect]
    omega
  · simp [armsEffect, strays]
  · intro c
    rfl

theorem IsStatement.runs (ht : IsStatement ss scope t) : Runs ss t := by
  induction ht with
  | empty => exact empty_runs
  | expression ht lt => exact ht.runs lt
  | block _ ih => exact block_runs ih
  | branch hc _ _ iha ihb => exact branch_runs hc.decides iha ihb
  | loop hc _ iha => exact loop_runs hc.decides iha
  | switch ha la _ _ _ ih => exact switch_runs ha.computes la ih
  | leave =>
    refine result_runs ?_
    intro ctx e e' r base h _ _
    obtain ⟨-, rfl⟩ := pure_eq_ok.mp h
    exact ⟨_, .refl⟩
  | result ha la _ =>
    exact result_runs fun h hb hl => ⟨_, (ha.computes h (.inl la) hb hl).1⟩
  | breakOut | continueOn =>
    intro ctx e e' r base h _ _ _
    obtain ⟨_, e1, h1, h⟩ := bind_eq_ok.mp h
    obtain rfl := jump_eq_ok.mp h1
    obtain ⟨-, rfl⟩ := pure_eq_ok.mp h
    exact Wrote.jump.weaken (by simp [effect]) (by simp [effect]) rfl fun _ => rfl

end Tree
end SmallC
