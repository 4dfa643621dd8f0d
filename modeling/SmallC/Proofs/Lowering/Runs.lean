import SmallC.Proofs.Lowering.Words

/-!
# The code of statements on words

Running the code of a statement on words leaves the variables as the statement does, and comes to its
end or to the jump that leaves it. Where the statement is given too few rounds to come to an end, the
run is as long as there are rounds.
-/

namespace SmallC

open Ir Lower

namespace Ir.State

variable {s : State T} {p : Nat} {l : Int} {e e' : Emitter} {ts : List Tree}
variable {T : Target} {code rest : List Line} {s : State T} {P : State T → Prop}

lemma Reaches.setResult {c : Cls} {rhs : Rhs} {v : BitVec 64}
    (h : Seg code s.pc (.instr (.set .result c rhs) :: rest))
    (hv : s.compute c rhs = some (v, s.world)) (k : { s with result := v }.next.Reaches code P) :
    s.Reaches code P :=
  .step (by rw [State.step, h.head]; simp only [exec, hv]; rfl) k

end Ir.State

/-- A run does what a statement with some outcome does: it comes to where that leaves it, or it lasts
where there is none. -/
def Follows {T : Target} (code : List Line) (fuel : Nat)
    (P : Exit → (SymId → BitVec 32) → State T → Prop) :
    Option (Exit × (SymId → BitVec 32)) → State T → Prop
  | none, s => s.Lasts code fuel
  | some (exit, σ), s => s.Reaches code (P exit σ)

namespace Follows

variable {T : Target} {code : List Line} {fuel : Nat}
  {P Q : Exit → (SymId → BitVec 32) → State T → Prop} {o : Option (Exit × (SymId → BitVec 32))}
  {s s' : State T}

lemma reach {R : State T → Prop} (h : s.Reaches code R) (k : ∀ s', R s' → Follows code fuel P o s') :
    Follows code fuel P o s := by
  cases o with
  | none => exact State.Reaches.lasts (h.mono k)
  | some p => exact h.bind k

lemma bind {f : Exit × (SymId → BitVec 32) → Option (Exit × (SymId → BitVec 32))}
    (h : Follows code fuel P o s) (k : ∀ exit σ s', P exit σ s' → Follows code fuel Q (f (exit, σ)) s') :
    Follows code fuel Q (o.bind f) s := by
  cases o with
  | none => exact h
  | some p => exact reach h (k p.1 p.2)

lemma mono {n : Nat} (h : Follows code fuel P o s) (hn : n ≤ fuel) : Follows code n P o s := by
  cases o with
  | none => exact State.Lasts.mono h hn
  | some p => exact h

lemma andThen (h : Follows code fuel P o s)
    (k : ∀ exit σ s', P exit σ s' → s'.Reaches code (Q exit σ)) : Follows code fuel Q o s := by
  cases o with
  | none => exact h
  | some p => exact State.Reaches.bind h (k p.1 p.2)

lemma step (hs : s.step code = some s') (h : Follows code fuel P o s') :
    Follows code (fuel + 1) P o s := by
  cases o with
  | none => exact State.Lasts.step hs h
  | some p => exact State.Reaches.step hs h

end Follows

namespace Tree

variable {T : Target} {site : Site} {ss : Symbols} {cells : SymId → Prop} {σ' : SymId → BitVec 32}
  {w : BitVec 32}

/-- Variables have their values, and control stands where it leaves a statement: behind it, or at the
jump that leaves it. -/
structure Arrives (site : Site) (ss : Symbols) (cells : SymId → Prop) (ctx : Context) (place : Nat)
    (exit : Exit) (σ : SymId → BitVec 32) (s : State T) : Prop where
  cells : ss.Matches cells σ s
  next : exit = .next → s.pc = place
  breakOut : exit = .breakOut → site.code[s.pc]? = some (.instr (.jump ctx.loopEnd))
  continueOn : exit = .continueOn → site.code[s.pc]? = some (.instr (.jump ctx.loopTop))
  returned : ∀ v, exit = .returned v →
    site.code[s.pc]? = some (.instr (.jump ctx.function.endLabel)) ∧
      v = some ((s.result.setWidth 32).signExtend 64)

def Executed (T : Target) (site : Site) (ss : Symbols) (cells : SymId → Prop) (t : Tree) : Prop :=
  t.worksOnWords ss = true → ∀ {ctx : Context} {e e' : Emitter} {r : Temp},
    t.lower ss ctx e = .ok r e' → ctx.function.type.cls = .ok .word → e.Before e' ∧
    (site.Holds e → site.Holds e' → ∀ fuel σ (s : State T), s.pc = site.place e →
      ss.Matches cells σ s → Follows site.code fuel
        (Arrives site ss cells ctx (site.place e')) (t.exec .registers fuel σ) s)

variable {scope : Scope} {i : Info} {a b c t : Tree}
variable {σ : SymId → BitVec 32} {ctx : Context}

lemma Arrives.here (h : ss.Matches cells σ s) (pc : s.pc = p) : Arrives site ss cells ctx p .next σ s :=
  ⟨h, fun _ => pc, nofun, nofun, nofun⟩

lemma Arrives.leave {op : Op} {q : Nat} {exit : Exit}
    (h : Arrives site ss cells (ctx.condition op l) p exit σ s)
    (k : s.pc = p → s.Reaches site.code (· = { s with pc := q })) :
    s.Reaches site.code (Arrives site ss cells ctx q exit σ) := by
  cases exit with
  | next =>
    refine (k (h.next rfl)).mono ?_
    rintro s' rfl
    exact .here h.cells rfl
  | breakOut | continueOn | returned v => exact .here { h with next := nofun }

lemma empty_executed : Executed T site ss cells .empty := by
  intro _ ctx e e' r lower _
  obtain ⟨-, rfl⟩ := pure_eq_ok.mp lower
  refine ⟨.refl _, fun _ _ fuel σ s pc regs => ?_⟩
  exact State.Reaches.here (.here regs pc)

lemma jump_before (site : Site) {r : Temp} (lower : (do jump l; return none : Lower Temp) e = .ok r e') :
    e.Before e' ∧ (site.Holds e → site.Holds e' →
      site.code[site.place e]? = some (.instr (.jump l))) := by
  obtain ⟨_, e1, h1, h⟩ := bind_eq_ok.mp lower
  obtain rfl := jump_eq_ok.mp h1
  obtain ⟨-, rfl⟩ := pure_eq_ok.mp h
  exact ⟨(Emitter.Before.refl e).add, fun here there => (here.seg there).head⟩

lemma breakOut_executed : Executed T site ss cells (.breakOut i) := by
  intro _ ctx e e' r lower _
  obtain ⟨before, line⟩ := jump_before site lower
  refine ⟨before, fun here there fuel σ s pc regs => ?_⟩
  exact State.Reaches.here ⟨regs, nofun, fun _ => pc ▸ line here there, nofun, nofun⟩

lemma continueOn_executed : Executed T site ss cells (.continueOn i) := by
  intro _ ctx e e' r lower _
  obtain ⟨before, line⟩ := jump_before site lower
  refine ⟨before, fun here there fuel σ s pc regs => ?_⟩
  exact State.Reaches.here ⟨regs, nofun, nofun, fun _ => pc ▸ line here there, nofun⟩

lemma IsExpression.executed (distinct : ss.Distinct scope.sees) (ht : IsExpression ss scope t)
    (loaded : t.Loaded) : Executed T site ss scope.sees t := by
  intro works ctx e e' r lower _
  have hw : t.words ss = true := by
    cases ht <;> exact works
  have exec_eq : ∀ fuel, t.exec .registers fuel = (do let _ ← t.eval .registers; return .next) := by
    intro fuel
    cases ht <;> rfl
  have simulated : Simulated T site ss scope.sees t := ht.simulated distinct
  obtain ⟨n, -, d⟩ := simulated.delivers hw loaded lower
  refine ⟨d.before, fun here there fuel σ s pc regs => ?_⟩
  obtain ⟨w, σ', value, run⟩ := d.run here there σ
  rw [exec_eq, bind_at, value]
  exact (run s pc regs).mono fun s' l => .here l.cells l.pc

lemma result_executed (distinct : ss.Distinct scope.sees) (ha : IsExpression ss scope a)
    (loaded : a.Loaded) : Executed T site ss scope.sees (.result i a) := by
  intro works ctx e e' r lower word
  obtain ⟨x, e1, h1, h⟩ := bind_eq_ok.mp lower
  obtain ⟨_, e2, h2, h⟩ := bind_eq_ok.mp h
  obtain ⟨-, rfl⟩ := pure_eq_ok.mp h
  have simulated : Simulated T site ss scope.sees a := ha.simulated distinct
  obtain ⟨n, rfl, d⟩ := simulated.delivers works loaded h1
  obtain ⟨none, -⟩ | ⟨_, c, -, hc, rfl⟩ := leave_eq_ok h2
  · cases none
  obtain rfl := Except.ok.inj (hc.symm.trans word)
  have exec_eq : ∀ fuel, (Tree.result i a).exec .registers fuel =
      (do return .returned (some (← a.eval .registers))) := by
    intro fuel
    cases ha <;> rfl
  refine ⟨d.before.add, fun here there fuel σ s pc regs => ?_⟩
  have holds := here.between there d.before (Emitter.Before.refl e1).add
  have seg := holds.seg there
  obtain ⟨w, σ', value, run⟩ := d.run here holds σ
  rw [exec_eq, bind_at, value]
  refine (run s pc regs).bind fun s1 l => ?_
  rw [← l.pc] at seg
  refine .setResult seg rfl (.here ⟨l.cells, nofun, nofun, nofun, ?_⟩)
  rintro v ⟨⟩
  refine ⟨seg.tail.head, ?_⟩
  rw [← l.value]
  exact congrArg (fun v => some (BitVec.signExtend 64 v)) (T.low_pad _).symm

lemma all_executed (hts : ∀ t ∈ ts, Executed T site ss cells t) (works : worksOnWordsAll ss ts = true)
    {u : Unit} (lower : lowerAll ss ctx ts e = .ok u e') (word : ctx.function.type.cls = .ok .word) :
    e.Before e' ∧ (site.Holds e → site.Holds e' → ∀ fuel σ (s : State T), s.pc = site.place e →
      ss.Matches cells σ s → Follows site.code fuel
        (Arrives site ss cells ctx (site.place e')) (execAll .registers fuel ts σ) s) := by
  induction ts generalizing e with
  | nil =>
    obtain ⟨-, rfl⟩ := pure_eq_ok.mp lower
    exact ⟨.refl _, fun _ _ fuel σ s pc regs => State.Reaches.here (.here regs pc)⟩
  | cons t ts ih =>
    rw [worksOnWordsAll, Bool.and_eq_true] at works
    obtain ⟨x, e1, h1, h2⟩ := bind_eq_ok.mp lower
    obtain ⟨first, run⟩ := hts t (.head ts) works.1 h1 word
    obtain ⟨second, runs⟩ := ih (fun t' ht => hts t' (.tail t ht)) works.2 h2
    refine ⟨first.trans second, fun here there fuel σ s pc regs => ?_⟩
    have holds := here.between there first second
    rw [execAll, bind_at]
    refine (run here holds fuel σ s pc regs).bind fun exit σ1 s1 arrives => ?_
    cases exit with
    | next => exact runs holds there fuel σ1 s1 (arrives.next rfl) arrives.cells
    | breakOut | continueOn | returned v =>
      exact State.Reaches.here { arrives with next := nofun }

lemma block_executed (hts : ∀ t ∈ ts, Executed T site ss cells t) :
    Executed T site ss cells (.block i ts) := by
  intro works ctx e e' r lower word
  rw [worksOnWords] at works
  obtain ⟨_, e1, h1, h⟩ := bind_eq_ok.mp lower
  obtain ⟨-, rfl⟩ := pure_eq_ok.mp h
  obtain ⟨before, run⟩ := all_executed hts works h1 word
  refine ⟨before, fun here there fuel σ s pc regs => ?_⟩
  rw [exec]
  exact (run here there fuel σ s pc regs).andThen fun exit σ s arrives => .here { arrives with }

lemma exec_branch {fuel : Nat} (value : c.eval .registers σ = some (w.signExtend 64, σ')) :
    (Tree.branch i c a b).exec .registers fuel σ =
      if w = 0 then b.exec .registers fuel σ' else a.exec .registers fuel σ' := by
  rw [exec, bind_at, value, Option.bind_some]
  simp only [signExtend_eq_zero]
  split_ifs <;> rfl

section
variable (distinct : ss.Distinct scope.sees) (hc : IsCondition ss scope c)
  (ha : Executed T site ss scope.sees a)
include distinct hc ha

lemma branch_one_executed : Executed T site ss scope.sees (.branch i c a .empty) := by
  intro works ctx e e' r lower word
  simp only [worksOnWords, Bool.and_eq_true] at works
  obtain ⟨x, e1, y, e2, h1, h2, rfl⟩ := lower_branch_one lower
  have decided : Decided T site ss scope.sees c := hc.decided distinct works.1.1
  obtain ⟨first, test⟩ := decided rfl h1
  obtain ⟨second, run⟩ := ha works.1.2 h2 word
  have before1 := (Emitter.Before.refl e).count.trans first
  have before2 := before1.count.add.trans second
  refine ⟨before2.add, fun here there fuel σ s pc regs => ?_⟩
  have holds2 := here.between there before2 (Emitter.Before.refl e2).add
  have holdsA := here.between holds2 before1.count.add second
  have seg := holds2.seg there
  obtain ⟨w, σ1, value, reaches⟩ := test (here.count 0 1) holdsA seg.head σ
  rw [exec_branch value, holds2.place_add]
  refine .reach (reaches s pc regs) fun s1 ⟨pc1, regs1, _⟩ => ?_
  by_cases zero : w = 0
  · rw [if_pos zero] at pc1 ⊢
    exact State.Reaches.label (pc1 ▸ seg) (.here (.here regs1 (congrArg (· + 1) pc1)))
  · rw [if_neg zero] at pc1 ⊢
    refine (run holdsA holds2 fuel σ1 s1 pc1 regs1).andThen fun exit σ2 s2 arrives => ?_
    exact arrives.leave fun pc2 => .label (pc2 ▸ seg) (.here (by rw [← pc2]; rfl))

lemma branch_two_executed (hb : Executed T site ss scope.sees b) (some : b.isEmpty = false) :
    Executed T site ss scope.sees (.branch i c a b) := by
  intro works ctx e e' r lower word
  simp only [worksOnWords, Bool.and_eq_true] at works
  obtain ⟨x, e1, y, e2, z, e3, h1, h2, h3, rfl⟩ := lower_branch_two some lower
  have decided : Decided T site ss scope.sees c := hc.decided distinct works.1.1
  obtain ⟨first, test⟩ := decided rfl h1
  obtain ⟨second, runA⟩ := ha works.1.2 h2 word
  obtain ⟨third, runB⟩ := hb works.2 h3 word
  have before1 := (Emitter.Before.refl e).count.trans first
  have before2 := before1.count.add.trans second
  have before3 := before2.count.add.trans third
  refine ⟨before3.add, fun here there fuel σ s pc regs => ?_⟩
  have holds3 := here.between there before3 (Emitter.Before.refl e3).add
  have holdsB := here.between holds3 before2.count.add third
  have holds2 := here.between holdsB before2 (Emitter.Before.refl e2).count.add
  have holdsA := here.between holds2 before1.count.add second
  have seg2 := (holds2.count 0 1).seg holdsB
  have seg3 := holds3.seg there
  obtain ⟨w, σ1, value, reaches⟩ := test (here.count 0 2) holdsA seg2.tail.tail.head σ
  rw [exec_branch value, holds3.place_add]
  refine .reach (reaches s pc regs) fun s1 ⟨pc1, regs1, _⟩ => ?_
  by_cases zero : w = 0
  · rw [if_pos zero] at pc1 ⊢
    refine .reach (.label (pc1 ▸ seg2.tail.tail) (.here rfl)) ?_
    rintro s2 rfl
    refine (runB holdsB holds3 fuel σ1 s1.next ?_ regs1).andThen fun exit σ2 s2 arrives => ?_
    · rw [(holds2.count 0 1).place_add]
      exact congrArg (· + 1) pc1
    · exact arrives.leave fun pc2 => .label (pc2 ▸ seg3) (.here (by rw [← pc2]; rfl))
  · rw [if_neg zero] at pc1 ⊢
    refine (runA holdsA holds2 fuel σ1 s1 pc1 regs1).andThen fun exit σ2 s2 arrives => ?_
    refine arrives.leave fun pc2 => ?_
    rw [Site.place_count, ← pc2] at seg2
    exact .label seg2 (.jump site.nodup (s := s2.next) seg2.tail.head seg3.head
      (.label seg3 (.here rfl)))

end

lemma rounds_succ {cond : Store.registers.Eval (BitVec 64)} {body : Store.registers.Eval Exit} {n : Nat}
    (value : cond σ = some (w.signExtend 64, σ')) :
    Store.registers.rounds cond body (n + 1) σ = if w = 0 then some (.next, σ') else
      (body σ').bind fun p => if p.1 = .next ∨ p.1 = .continueOn then Store.registers.rounds cond body n p.2
        else some (p.1.caught, p.2) := by
  rw [Store.rounds, bind_at, value, Option.bind_some]
  simp only [signExtend_eq_zero]
  split_ifs with zero
  · rfl
  · rw [bind_at]
    congr 1
    funext ⟨exit, σ⟩
    cases exit <;> rfl

lemma loop_executed (distinct : ss.Distinct scope.sees) (hc : IsCondition ss scope c)
    (ha : Executed T site ss scope.sees a) : Executed T site ss scope.sees (.loop i c a) := by
  intro works ctx e e' r lower word
  simp only [worksOnWords, Bool.and_eq_true] at works
  obtain ⟨x, e1, y, e2, h1, h2, rfl⟩ := lower_loop lower
  have decided : Decided T site ss scope.sees c := hc.decided distinct works.1
  obtain ⟨first, test⟩ := decided rfl h1
  obtain ⟨second, run⟩ := ha works.2 h2 word
  have before0 : e.Before ((e.count 0 2).add [.label (e.labels + 1)]) :=
    (Emitter.Before.refl e).count.add
  have before1 := before0.trans first
  have before2 := before1.count.add.trans second
  refine ⟨before2.add, fun here there fuel σ s pc regs => ?_⟩
  have holds2 := here.between there before2 (Emitter.Before.refl e2).add
  have holdsA := here.between holds2 before1.count.add second
  have holdsC := here.between holdsA before0 (first.trans (Emitter.Before.refl e1).count.add)
  have top := (here.count 0 2).seg holdsC
  have seg := holds2.seg there
  have placeC := (here.count 0 2).place_add [.label (e.labels + 1)]
  rw [holds2.place_add, exec]
  rw [Site.place_count] at top placeC
  suffices loop : ∀ n ≤ fuel, ∀ σ (s : State T), s.pc = site.place e → ss.Matches scope.sees σ s →
      Follows site.code n (Arrives site ss scope.sees ctx (site.place e2 + 2))
        (Store.registers.rounds (c.eval .registers) (a.exec .registers fuel) n σ) s from
    loop fuel (Nat.le_refl _) σ s pc regs
  intro n
  induction n with
  | zero => exact fun _ σ s _ _ => State.Lasts.zero s
  | succ n ih =>
    intro hn σ s pc regs
    -- The label at the top is the step that a round takes at least.
    have enters : s.step site.code = some s.next := by rw [State.step, pc, top.head]
    refine .step enters ?_
    obtain ⟨w, σ1, value, reaches⟩ := test holdsC holdsA seg.tail.head σ
    rw [rounds_succ value]
    refine .reach (reaches s.next (by rw [placeC]; exact congrArg (· + 1) pc) regs)
      ?_
    rintro s1 ⟨pc1, regs1, -⟩
    by_cases zero : w = 0
    · rw [if_pos zero] at pc1 ⊢
      exact State.Reaches.label (pc1 ▸ seg.tail) (.here (.here regs1 (congrArg (· + 1) pc1)))
    · rw [if_neg zero] at pc1 ⊢
      have body := (run holdsA holds2 fuel σ1 s1 pc1 regs1).mono (Nat.le_of_succ_le hn)
      refine body.bind fun exit σ2 s2 arrives => ?_
      -- Back to the top.
      have again : site.code[s2.pc]? = some (.instr (.jump (e.labels + 1))) →
          Follows site.code n (Arrives site ss scope.sees ctx (site.place e2 + 2))
            (Store.registers.rounds (c.eval .registers) (a.exec .registers fuel) n σ2) s2 := by
        intro line
        refine .reach (.jump site.nodup line top.head (.here rfl)) ?_
        rintro s3 rfl
        exact ih (Nat.le_of_succ_le hn) σ2 _ rfl arrives.cells
      cases exit with
      | next =>
        refine again ?_
        rw [arrives.next rfl]
        exact seg.head
      | continueOn => exact again (arrives.continueOn rfl)
      | breakOut =>
        refine State.Reaches.jump site.nodup (arrives.breakOut rfl) seg.tail.head ?_
        exact .label seg.tail (.here (.here arrives.cells rfl))
      | returned v =>
        rw [if_neg (by simp)]
        refine State.Reaches.here ⟨arrives.cells, ?_, ?_, ?_, arrives.returned⟩ <;> simp [Exit.caught]

theorem IsStatement.executed (distinct : ss.Distinct scope.sees) (ht : IsStatement ss scope t) :
    Executed T site ss scope.sees t := by
  induction ht with
  | empty => exact empty_executed
  | expression ht loaded => exact ht.executed distinct loaded
  | block _ ih => exact block_executed ih
  | @branch i c a b hc _ _ iha ihb =>
    cases some : b.isEmpty with
    | true =>
      obtain rfl := eq_empty_of_isEmpty some
      exact branch_one_executed distinct hc iha
    | false => exact branch_two_executed distinct hc iha ihb some
  | loop hc _ iha => exact loop_executed distinct hc iha
  | switch | leave => exact fun works => nomatch works
  | result ha loaded => exact result_executed distinct ha loaded
  | breakOut => exact breakOut_executed
  | continueOn => exact continueOn_executed

end Tree
end SmallC
