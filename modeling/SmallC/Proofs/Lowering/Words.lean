import SmallC.Proofs.Lowering.Execution
import SmallC.Proofs.Lowering.Layout
import SmallC.Proofs.Lowering.Uses
import SmallC.Proofs.Tree.Words

/-!
# The code of expressions on words

Running the code of an expression on words has the outcome of the expression: its value is the low
half of the temporary that the code leaves it in, the variables it sets are set in their registers, and
temporaries from before keep what they hold.
-/

namespace SmallC

open Ir Lower

variable {s : Symbol} {id : SymId} {j k : Nat} {c : Cls} {rhs : Rhs} {x : Temp} {t : Tree} {scope : Scope}

/-- Registers hold the values of variables. -/
def Symbols.Matches (ss : Symbols) (cells : SymId → Prop) {T : Target} (σ : SymId → BitVec 32)
    (s : State T) : Prop :=
  ∀ id, cells id → (ss.get id).isRegister = true → (s.frame (ss.get id).name).setWidth 32 = σ id

section
variable {ss : Symbols} {op : Op} (h : s.isRegister = true) (c : Cls) (r : Temp)
include h

lemma Symbol.isFileScope_of_isRegister : s.isFileScope = false := by
  simp only [isRegister, inMemory, Bool.and_eq_true, Bool.not_eq_true', Bool.or_eq_false_iff] at h
  exact h.2.2

lemma Symbol.cls_of_isRegister : s.type.cls = .ok .word := by
  simp only [isRegister, Bool.and_eq_true, decide_eq_true_eq] at h
  rw [h.1]
  rfl

lemma Symbol.inMemory_of_isRegister : s.inMemory = false := by
  simp only [isRegister, Bool.and_eq_true, Bool.not_eq_true'] at h
  exact h.2

/-! Variables in registers are read and written by their names. -/

lemma storeInstr_register :
    storeInstr s c r = .set (.named (.frame s.name)) c (.copy (.temp r)) := by
  have memory := Symbol.inMemory_of_isRegister h
  simp only [Symbol.inMemory, Bool.or_eq_false_iff] at memory
  simp [storeInstr, memory]

lemma readLines_register :
    readLines r s c = [.instr (.set (.temp r) c (.copy (.named (.frame s.name))))] := by
  rw [readLines, Symbol.inMemory_of_isRegister h, if_neg Bool.false_ne_true,
    storageName_frame (Symbol.isFileScope_of_isRegister h)]

lemma stepLines_register (step : Int64) (n : Nat) : stepLines s c step n =
      [.instr (.set (.named (.frame s.name)) c (.arith .add (.named (.frame s.name)) (.int step)))] := by
  rw [stepLines, Symbol.inMemory_of_isRegister h, if_neg Bool.false_ne_true,
    storageName_frame (Symbol.isFileScope_of_isRegister h)]

lemma stepSize_register {step : Int64} (hstep : stepSize ss s.type s.ctype op = .ok step) :
    step.toBitVec.setWidth 32 = op.stepWord := by
  simp only [Symbol.isRegister, Bool.and_eq_true, decide_eq_true_eq] at h
  rw [h.1] at hstep
  cases hstep
  unfold Op.stepWord
  split_ifs <;> rfl

end

namespace Tree

variable {T : Target} {site : Site} {ss : Symbols} {cells : SymId → Prop}
variable {q p : Nat}

lemma matches_setFrame (distinct : ss.Distinct cells) {σ : SymId → BitVec 32} {s : State T}
    (h : ss.Matches cells σ s) (hid : cells id) (reg : (ss.get id).isRegister = true) (v : BitVec 64) :
    ss.Matches cells (Function.update σ id (v.setWidth 32)) (s.setFrame (ss.get id).name v) := by
  intro other hother rother
  rw [State.setFrame_frame]
  by_cases same : other = id
  · subst same
    rw [if_pos rfl, Function.update_self]
  · rw [Function.update_of_ne same, if_neg, h other hother rother]
    intro name
    exact same (distinct other id hother hid (Symbol.isFileScope_of_isRegister rother)
      (Symbol.isFileScope_of_isRegister reg) name)

/-- The run has come to a place, with a value in the temporary `n`. Temporaries up to `k` are as
before. -/
structure Lands (ss : Symbols) (cells : SymId → Prop) (place k n : Nat) (w : BitVec 32)
    (σ : SymId → BitVec 32) (s s' : State T) : Prop where
  pc : s'.pc = place
  cells : ss.Matches cells σ s'
  kept : ∀ m ≤ k, s'.temps (some m) = s.temps (some m)
  value : (s'.temps (some n)).setWidth 32 = w

namespace Lands

variable {k n : Nat} {w : BitVec 32} {σ : SymId → BitVec 32} {s s1 s2 : State T} {place : Nat}
variable {w' : BitVec 32} {v : BitVec 64}

lemma start (h : ss.Matches cells σ s) (k n : Nat) :
    Lands ss cells s.pc k n ((s.temps (some n)).setWidth 32) σ s s :=
  ⟨rfl, h, fun _ _ => rfl, rfl⟩

lemma trans {k' n' : Nat} {σ' : SymId → BitVec 32} (h : Lands ss cells p k n w σ s s1)
    (h' : Lands ss cells q k' n' w' σ' s1 s2) (hk : k ≤ k') : Lands ss cells q k n' w' σ' s s2 :=
  ⟨h'.pc, h'.cells, fun m hm => (h'.kept m (hm.trans hk)).trans (h.kept m hm), h'.value⟩

lemma next (h : Lands ss cells place k n w σ s s1) : Lands ss cells (place + 1) k n w σ s s1.next :=
  { h with pc := congrArg (· + 1) h.pc }

lemma goto (h : Lands ss cells place k n w σ s s1) (p : Nat) :
    Lands ss cells p k n w σ s { s1 with pc := p } :=
  { h with pc := rfl }

lemma alike (h : Lands ss cells place k n w σ s s1) (alike : State.Alike j s1 s2) (hk : k ≤ j)
    (value : (s2.temps (some m)).setWidth 32 = w') : Lands ss cells s2.pc k m w' σ s s2 where
  pc := rfl
  cells id hid reg := by
    rw [alike.frame]
    exact h.cells id hid reg
  kept m hm := (alike.temps m (hm.trans hk)).trans (h.kept m hm)
  value := value

lemma set (h : Lands ss cells place k n w σ s s1) (new : k < m) (low : v.setWidth 32 = w') :
    Lands ss cells (place + 1) k m w' σ s (s1.setTemp (some m) v).next where
  pc := congrArg (· + 1) h.pc
  cells := h.cells
  kept j hj := by
    have : j ≠ m := by omega
    simp [this, h.kept j hj]
  value := by simp [low]

lemma emit (h : Lands ss cells (site.place e) k n w σ s s1) (here : site.Holds e)
    (there : site.Holds ((e.count j 0).add [.instr (.set (.temp (some m)) c rhs)])) (new : k < m)
    (hv : s1.compute c rhs = some (v, s1.world)) (low : v.setWidth 32 = w') :
    s1.Reaches site.code (Lands ss cells
      (site.place ((e.count j 0).add [.instr (.set (.temp (some m)) c rhs)])) k m w' σ s) := by
  have seg := (here.count j 0).seg there
  rw [Site.place_count, ← h.pc] at seg
  rw [(here.count j 0).place_add]
  exact .set seg hv (.here (h.set new low))

lemma setFrame (distinct : ss.Distinct cells) (h : Lands ss cells place k n w σ s s1) (hid : cells id)
    (reg : (ss.get id).isRegister = true) (low : v.setWidth 32 = w') :
    Lands ss cells (place + 1) k n w (Function.update σ id w') s
      (s1.setFrame (ss.get id).name v).next where
  pc := congrArg (· + 1) h.pc
  cells := low ▸ matches_setFrame distinct h.cells hid reg v
  kept := h.kept
  value := h.value

end Lands

/-- The code between two emitters computes what is evaluated, in the temporary `n`. -/
structure Delivers (T : Target) (site : Site) (ss : Symbols) (cells : SymId → Prop)
    (eval : Store.registers.Eval (BitVec 64)) (e e' : Emitter) (n : Nat) : Prop where
  before : e.Before e'
  new : e.temps < n
  given : n ≤ e'.temps
  run : site.Holds e → site.Holds e' → ∀ σ, ∃ w σ',
    eval σ = some (w.signExtend 64, σ') ∧ ∀ s : State T, s.pc = site.place e →
      ss.Matches cells σ s →
      s.Reaches site.code (Lands ss cells (site.place e') e.temps n w σ' s)

variable {ev evA evB : Store.registers.Eval (BitVec 64)} {e e1 e2 e' : Emitter} {n m : Nat}

lemma delivers_new (hk : 0 < k) (value : (SymId → BitVec 32) → BitVec 32)
    (heval : ∀ σ, ev σ = some ((value σ).signExtend 64, σ))
    (computes : ∀ σ (s : State T), ss.Matches cells σ s → ∃ v, s.compute c rhs = some (v, s.world) ∧
      v.setWidth 32 = value σ) :
    Delivers T site ss cells ev e ((e.count k 0).add [.instr (.set (.temp (some (e.temps + 1))) c rhs)])
      (e.temps + 1) where
  before := (Emitter.Before.refl e).count.add
  new := Nat.lt_succ_self _
  given := by simp only [Emitter.add_temps, Emitter.count_temps]; omega
  run here there σ := by
    refine ⟨value σ, σ, heval σ, fun s pc regs => ?_⟩
    obtain ⟨v, hv, low⟩ := computes σ s regs
    exact (pc ▸ Lands.start regs e.temps 0).emit here there (Nat.lt_succ_self _) hv low

lemma Delivers.unary (f : BitVec 32 → BitVec 32) (h : Delivers T site ss cells evA e e1 n)
    (he : e' = (e1.count k 0).add [.instr (.set (.temp (some m)) c rhs)]) (new : e.temps < m)
    (given : m ≤ e'.temps)
    (heval : ∀ σ w σ', evA σ = some (w.signExtend 64, σ') → ev σ = some ((f w).signExtend 64, σ'))
    (computes : ∀ (s : State T), ∃ v, s.compute c rhs = some (v, s.world) ∧
      v.setWidth 32 = f ((s.temps (some n)).setWidth 32)) : Delivers T site ss cells ev e e' m where
  before := he ▸ h.before.count.add
  new := new
  given := given
  run := by
    subst he
    intro here there σ
    have holds := here.between there h.before (Emitter.Before.refl e1).count.add
    obtain ⟨w, σ', hw, run⟩ := h.run here holds σ
    refine ⟨f w, σ', heval σ w σ' hw, fun s pc regs => (run s pc regs).bind fun s1 l => ?_⟩
    obtain ⟨v, hv, low⟩ := computes s1
    exact l.emit holds there new hv (by rw [low, l.value])

lemma Delivers.binary {x y : Nat} (f : BitVec 32 → BitVec 32 → BitVec 32)
    (ha : Delivers T site ss cells evA e e1 x) (hb : Delivers T site ss cells evB e1 e2 y)
    (he : e' = (e2.count k 0).add [.instr (.set (.temp (some m)) c rhs)]) (new : e.temps < m)
    (given : m ≤ e'.temps)
    (heval : ∀ σ u σ1 v σ2, evA σ = some (u.signExtend 64, σ1) → evB σ1 = some (v.signExtend 64, σ2) →
      ev σ = some ((f u v).signExtend 64, σ2))
    (computes : ∀ (s : State T), ∃ v, s.compute c rhs = some (v, s.world) ∧
      v.setWidth 32 = f ((s.temps (some x)).setWidth 32) ((s.temps (some y)).setWidth 32)) :
    Delivers T site ss cells ev e e' m where
  before := he ▸ (ha.before.trans hb.before).count.add
  new := new
  given := given
  run := by
    subst he
    intro here there σ
    have holds2 := here.between there (ha.before.trans hb.before) (Emitter.Before.refl e2).count.add
    have holds1 := here.between holds2 ha.before hb.before
    obtain ⟨u, σ1, hu, runa⟩ := ha.run here holds1 σ
    obtain ⟨v, σ2, hv, runb⟩ := hb.run holds1 holds2 σ1
    refine ⟨f u v, σ2, heval σ u σ1 v σ2 hu hv, fun s pc regs => ?_⟩
    refine (runa s pc regs).bind fun s1 l1 => (runb s1 l1.pc l1.cells).bind fun s2 l2 => ?_
    have left : (s2.temps (some x)).setWidth 32 = u := by rw [l2.kept x ha.given, l1.value]
    obtain ⟨r, hr, low⟩ := computes s2
    exact (l1.trans l2 ha.before.temps).emit holds2 there new hr (by rw [low, left, l2.value])

lemma Delivers.store (distinct : ss.Distinct cells) (hid : cells id) (reg : (ss.get id).isRegister = true)
    (h : Delivers T site ss cells evA e e1 n) (hc : (ss.get id).type.cls = .ok c)
    (he : e' = e1.add [.instr (storeInstr (ss.get id) c (some n))])
    (heval : ∀ σ w σ', evA σ = some (w.signExtend 64, σ') →
      ev σ = some (w.signExtend 64, Function.update σ' id w)) : Delivers T site ss cells ev e e' n where
  before := he ▸ h.before.add
  new := h.new
  given := by simpa [he] using h.given
  run := by
    subst he
    intro here there σ
    have holds := here.between there h.before (Emitter.Before.refl e1).add
    obtain ⟨w, σ', hw, run⟩ := h.run here holds σ
    refine ⟨w, _, heval σ w σ' hw, fun s pc regs => (run s pc regs).bind fun s1 l => ?_⟩
    have seg := holds.seg there
    rw [storeInstr_register reg, ← l.pc] at seg
    obtain rfl := Except.ok.inj (hc.symm.trans (Symbol.cls_of_isRegister reg))
    rw [holds.place_add]
    exact .setFrame seg rfl (.here (l.setFrame distinct hid reg ((T.low_pad _).trans l.value)))

/-! ## Expressions -/

structure Simulated (T : Target) (site : Site) (ss : Symbols) (cells : SymId → Prop) (t : Tree) :
    Prop where
  named : ∀ j s, t = .ident j s → cells s
  delivers : t.words ss = true → t.Loaded → ∀ {ctx : Context} {e e' : Emitter} {r : Temp},
    t.lower ss ctx e = .ok r e' →
    ∃ n, r = some n ∧ Delivers T site ss cells (t.eval .registers) e e' n

variable {ctx : Context} {i : Info} {op : Op} {a b c : Tree}

lemma intLit_simulated {v : Int64} : Simulated T site ss cells (.intLit i v) := by
  refine ⟨nofun, fun h _ _ _ _ _ lower => ?_⟩
  have word : i.type.cls = .ok .word := CType.cls_of_isWord h
  obtain ⟨c, hc, rfl, rfl⟩ := loadInt_eq_ok.mp lower
  obtain rfl := Except.ok.inj (hc.symm.trans word)
  refine ⟨_, rfl, delivers_new Nat.one_pos (fun _ => v.toBitVec.setWidth 32) (fun σ => ?_)
    fun _ s _ => ⟨_, rfl, T.low_pad _⟩⟩
  rw [eval_literal word]
  rfl

lemma loadVar_delivers (hid : cells id) (reg : (ss.get id).isRegister = true) {r : Temp}
    (h : loadVar ss (ss.get id) .ident e = .ok r e') :
    r = some (e.temps + 1) ∧
      Delivers T site ss cells ((Tree.ident i id).eval .registers) e e' (e.temps + 1) := by
  obtain ⟨c, step, hc, -, rfl, rfl⟩ := loadVar_eq_ok h
  obtain rfl := Except.ok.inj (hc.symm.trans (Symbol.cls_of_isRegister reg))
  refine ⟨rfl, ?_⟩
  rw [show varLines (ss.get id) .ident .word step (e.temps + 1) = _ from readLines_register reg _ _]
  refine delivers_new Nat.one_pos (fun σ => σ id) (fun σ => rfl) fun σ s regs =>
    ⟨_, rfl, ?_⟩
  rw [← regs id hid reg]
  exact T.low_pad _

lemma ident_simulated (hid : cells id) : Simulated T site ss cells (.ident i id) := by
  refine ⟨fun j s h => ?_, fun h loaded _ _ _ _ lower => ?_⟩
  · cases h
    exact hid
  · simp only [words, Bool.and_eq_true, decide_eq_true_eq] at h
    rw [Tree.lower, show i.rvalue = true from loaded rfl, Bool.true_or, if_pos rfl] at lower
    obtain ⟨rfl, delivers⟩ := loadVar_delivers hid h.2 lower
    exact ⟨_, rfl, delivers⟩

lemma computes_arith {f : Arith} {y : Temp} {s : State T} {w : BitVec 32}
    (h : f.apply ((s.temps x).setWidth 32) ((s.temps y).setWidth 32) = some w) :
    s.compute .word (.arith f (.temp x) (.temp y)) = some (T.pad w, s.world) := by
  simp only [State.compute, Target.arith, State.value, h]
  rfl

lemma binary_simulated (la : a.Loaded) (ha : Simulated T site ss cells a) (lb : b.Loaded)
    (hb : Simulated T site ss cells b) : Simulated T site ss cells (.binary i op a b) := by
  refine ⟨nofun, fun h _ _ _ _ _ lower => ?_⟩
  simp only [words, Bool.and_eq_true] at h
  obtain ⟨⟨⟨hi, total⟩, wa⟩, wb⟩ := h
  obtain ⟨x, e1, y, e2, h1, h2, outcome⟩ := lower_binary lower
  obtain ⟨x, rfl, da⟩ := ha.delivers wa la h1
  obtain ⟨y, rfl, db⟩ := hb.delivers wb lb h2
  have := da.before.temps
  have := db.before.temps
  rcases outcome with ⟨rel, c, hrel, hc, rfl, rfl⟩ | ⟨f, c, hrel, hf, hc, rfl, rfl⟩
  · obtain rfl := Except.ok.inj (hc.symm.trans (cls_of_words wa))
    refine ⟨_, rfl, da.binary (fun u v => if rel.holds u v then 1 else 0) db rfl (by omega)
      (by simp) ?_ fun s => ⟨_, rfl, State.low_fit_ite T .word _⟩⟩
    exact fun σ u σ1 v σ2 hu hv => eval_relation hrel (cls_of_words wa) hu hv
  · obtain rfl := Except.ok.inj (hc.symm.trans (cls_of_words wb))
    have outcome := fun u v : BitVec 32 => Op.apply_of_isTotal total hrel hf u v
    refine ⟨x, rfl, da.binary (k := 0) (fun u v => (f.apply u v).getD 0) db (congrArg (Emitter.add · _) (Emitter.count_zero e2).symm) da.new
      (by simpa using da.given.trans db.before.temps) ?_
      fun s => ⟨_, computes_arith (outcome _ _), T.low_pad _⟩⟩
    exact fun σ u σ1 v σ2 hu hv =>
      eval_arith hrel (CType.cls_of_isWord hi) hf (outcome u v) hu hv

section
variable (distinct : ss.Distinct cells) (location : a.isLvalue) (ha : Simulated T site ss cells a)
  (lb : b.Loaded) (hb : Simulated T site ss cells b)
include distinct location ha lb hb

lemma assign_simulated : Simulated T site ss cells (.assign i a b) := by
  refine ⟨nofun, fun h _ _ _ _ _ lower => ?_⟩
  simp only [words, Bool.and_eq_true] at h
  obtain ⟨⟨⟨hi, isVar⟩, wa⟩, wb⟩ := h
  obtain ⟨e1, h1, ⟨j, id, c, rfl, hc, he⟩ | ⟨j, p, _, _, _, rfl, -⟩⟩ := lower_assign location lower
  · simp only [words, Bool.and_eq_true] at wa
    obtain ⟨n, rfl, db⟩ := hb.delivers wb lb h1
    exact ⟨n, rfl, db.store distinct (ha.named j id rfl) wa.2 hc he fun σ w σ' hw => eval_assign hw⟩
  · cases isVar

lemma compound_simulated : Simulated T site ss cells (.compound i op a b) := by
  refine ⟨nofun, fun h _ _ _ _ _ lower => ?_⟩
  simp only [words, Bool.and_eq_true, decide_eq_true_eq] at h
  obtain ⟨⟨⟨⟨hi, hop⟩, isVar⟩, wa⟩, wb⟩ := h
  cases a with
  | ident j id =>
    simp only [words, Bool.and_eq_true, decide_eq_true_eq] at wa
    have hid := ha.named j id rfl
    have total : op.underlying.isTotal = true ∧ op.underlying.relation? = none := by
      simp only [List.mem_cons, List.not_mem_nil, or_false] at hop
      rcases hop with rfl | rfl | rfl <;> decide
    obtain ⟨x, e1, e2, y, e3, f, c, d, h1, h2, h3, hf, hc, hd, rfl⟩ := lower_compound_ident lower
    have word : i.type.cls = .ok .word := by rw [hi]; rfl
    obtain rfl := Except.ok.inj (hc.symm.trans word)
    rcases inType_eq_ok h2 with ⟨same, rfl, rfl⟩ | ⟨differ, -⟩
    · obtain ⟨rfl, da⟩ : _ ∧ Delivers T site ss cells ((Tree.ident j id).eval .registers) _ _ _ :=
        loadVar_delivers hid wa.2 h1
      obtain ⟨y, rfl, db⟩ := hb.delivers wb lb h3
      have outcome := fun u v : BitVec 32 => Op.apply_of_isTotal total.1 total.2 hf u v
      have combined : Delivers T site ss cells
          ((Tree.binary i op.underlying (.ident j id) b).eval .registers) _ _ _ :=
        da.binary (fun u v => (f.apply u v).getD 0) db
          (congrArg (Emitter.add · _) (Emitter.count_zero e3).symm) da.new
          (by simpa using da.given.trans db.before.temps)
          (fun σ u σ1 v σ2 hu hv => eval_arith total.2 word hf (outcome u v) hu hv)
          fun s => ⟨_, computes_arith (outcome _ _), T.low_pad _⟩
      exact ⟨_, rfl, combined.store distinct hid wa.2 hd (by simp) fun σ w σ' hw =>
        eval_compound same total.2 hw⟩
    · exact absurd (wa.1.trans hi.symm) differ
  | _ => cases isVar

end

section Step

variable {id : SymId} {step : Int64} {σ : SymId → BitVec 32} {s : State T} {k : Nat}
variable {d : BitVec 32}

lemma low_step (hid : cells id) (reg : (ss.get id).isRegister = true) (h : ss.Matches cells σ s)
    (amount : step.toBitVec.setWidth 32 = d) :
    (T.pad ((s.frame (ss.get id).name).setWidth 32 + step.toBitVec.setWidth 32)).setWidth 32 =
      σ id + d := by
  rw [T.low_pad, h id hid reg, amount]

variable (distinct : ss.Distinct cells) (hid : cells id) (reg : (ss.get id).isRegister = true)
  (h : ss.Matches cells σ s) (amount : step.toBitVec.setWidth 32 = d) (new : k < n)
include distinct hid reg h amount new

lemma stepBefore_reaches (seg : Seg site.code s.pc (stepLines (ss.get id) .word step (n + 1) ++
      readLines (some n) (ss.get id) .word)) :
    s.Reaches site.code (Lands ss cells (s.pc + 2) k n (σ id + d)
      (Function.update σ id (σ id + d)) s) := by
  rw [stepLines_register reg, readLines_register reg] at seg
  refine .setFrame seg rfl (.set seg.tail rfl (.here ?_))
  have low := low_step hid reg h amount
  refine ((Lands.start h k n).setFrame distinct hid reg low).set new ?_
  simpa [Target.fit, State.value] using low

lemma stepAfter_reaches (seg : Seg site.code s.pc (readLines (some n) (ss.get id) .word ++
      stepLines (ss.get id) .word step (n + 1))) :
    s.Reaches site.code (Lands ss cells (s.pc + 2) k n (σ id)
      (Function.update σ id (σ id + d)) s) := by
  rw [stepLines_register reg, readLines_register reg] at seg
  refine .set seg rfl (.setFrame seg.tail rfl (.here ?_))
  have read := (Lands.start h k n).set new ((T.low_pad _).trans (h id hid reg))
  exact read.setFrame distinct hid reg (low_step hid reg h amount)

end Step

variable {k : Nat} {l : Int} {u w : BitVec 32} {σ : SymId → BitVec 32} {s s1 : State T}

lemma step_simulated (distinct : ss.Distinct cells) (ha : Simulated T site ss cells a) :
    Simulated T site ss cells (.step i op a) := by
  refine ⟨nofun, fun h _ _ e _ _ lower => ?_⟩
  simp only [words, Bool.and_eq_true, decide_eq_true_eq] at h
  obtain ⟨⟨⟨hi, hop⟩, isVar⟩, wa⟩ := h
  cases a with
  | ident j id =>
    simp only [words, Bool.and_eq_true, decide_eq_true_eq] at wa
    have hid := ha.named j id rfl
    have word : j.type.cls = .ok .word := by rw [wa.1]; rfl
    obtain ⟨c, step, hc, hstep, rfl, rfl⟩ := loadVar_eq_ok lower
    obtain rfl := Except.ok.inj (hc.symm.trans (Symbol.cls_of_isRegister wa.2))
    have amount := stepSize_register wa.2 hstep
    refine ⟨_, rfl, (Emitter.Before.refl _).count.add, Nat.lt_succ_self _, ?_, ?_⟩
    · simp only [Emitter.add_temps, Emitter.count_temps, varTemps]
      split_ifs <;> omega
    intro here there σ
    refine ⟨_, _, eval_step word, fun s pc regs => ?_⟩
    have seg := (here.count _ _).seg there
    rw [Site.place_count, ← pc] at seg
    rw [(here.count _ _).place_add, Site.place_count, ← pc]
    by_cases pre : (op = .preInc || op = .preDec) = true
    · simp only [varLines, if_pos pre] at seg ⊢
      refine (stepBefore_reaches distinct hid wa.2 regs amount (Nat.lt_succ_self _) seg).mono ?_
      simp [stepLines_register wa.2, readLines_register wa.2]
    · have post : (op = .postInc || op = .postDec) = true := by
        simp only [List.mem_cons, List.not_mem_nil, or_false] at hop
        simp only [Bool.or_eq_true, decide_eq_true_eq] at pre ⊢
        tauto
      simp only [varLines, if_neg pre, if_pos post] at seg ⊢
      refine (stepAfter_reaches distinct hid wa.2 regs amount (Nat.lt_succ_self _) seg).mono ?_
      simp [stepLines_register wa.2, readLines_register wa.2]
  | _ => cases isVar

lemma widen_simulated (la : a.Loaded) (ha : Simulated T site ss cells a) :
    Simulated T site ss cells (.widen i a) := by
  refine ⟨nofun, fun h _ _ _ _ _ lower => ?_⟩
  simp only [words, Bool.and_eq_true, decide_eq_true_eq] at h
  obtain ⟨⟨target, source⟩, wa⟩ := h
  obtain ⟨x, e1, h1, h⟩ := bind_eq_ok.mp lower
  obtain ⟨x, rfl, da⟩ := ha.delivers wa la h1
  rw [source, target] at h
  obtain ⟨wide, -⟩ | ⟨-, c, d, hc, hd, rfl, rfl⟩ := widen_eq_ok h
  · cases wide
  · obtain rfl := Except.ok.inj (hd.symm.trans rfl)
    refine ⟨_, rfl, da.unary (fun u => (u.setWidth 8).setWidth 32) rfl ?_ (by simp) ?_ fun s => ?_⟩
    · have := da.before.temps
      omega
    · exact fun σ w σ' hw => eval_widen source target hw
    · refine ⟨_, rfl, (T.low_pad _).trans ?_⟩
      simp only [extension, if_true, Extend.apply]
      rw [BitVec.setWidth_setWidth_of_le _ (show 32 ≤ 64 by decide),
        BitVec.setWidth_setWidth_of_le _ (show 8 ≤ 32 by decide)]

lemma unary_simulated (la : a.Loaded) (ha : Simulated T site ss cells a) :
    Simulated T site ss cells (.unary i op a) := by
  refine ⟨nofun, fun h _ _ _ _ _ lower => ?_⟩
  simp only [words, Bool.and_eq_true, decide_eq_true_eq] at h
  obtain ⟨⟨hi, hop⟩, wa⟩ := h
  obtain ⟨x, e1, h1, h⟩ := bind_eq_ok.mp lower
  obtain ⟨x, rfl, da⟩ := ha.delivers wa la h1
  obtain ⟨c, rhs, hc, hrhs, rfl, rfl⟩ := unary_eq_ok.mp h
  obtain rfl := Except.ok.inj (hc.symm.trans (cls_of_words wa))
  refine ⟨x, rfl, da.unary (unaryWord op) (congrArg (Emitter.add · _) (Emitter.count_zero e1).symm)
    da.new (by simpa using da.given) ?_ fun s => ?_⟩
  · exact fun σ w σ' hw => eval_unary (CType.cls_of_isWord hi) hop hw
  · simp only [List.mem_cons, List.not_mem_nil, or_false] at hop
    rcases hop with rfl | rfl | rfl <;> cases hrhs
    · exact ⟨_, rfl, (T.low_pad _).trans (BitVec.zero_sub _)⟩
    · have ones : (s.value (.int (-1))).setWidth 32 = BitVec.allOnes 32 := by
        rw [State.value]
        decide
      refine ⟨_, rfl, (T.low_pad _).trans ?_⟩
      rw [ones]
      exact BitVec.xor_allOnes
    · refine ⟨_, rfl, (State.low_fit_ite T .word _).trans ?_⟩
      simp [unaryWord, Relation.test, Relation.holds, State.value]

/-! ## Conditions -/

/-- What is shown of the code of a condition with the test behind it: it goes on there if the condition
holds, and else at the label. -/
def Decided (T : Target) (site : Site) (ss : Symbols) (cells : SymId → Prop) (c : Tree) : Prop :=
  ∀ {ctx : Context} {op : Op} {l : Int} {e e1 : Emitter} {x : Temp}, op.leaps true = false →
    c.lower ss (ctx.condition op l) e = .ok x e1 → e.Before e1 ∧
    ∀ {k p : Nat}, site.Holds e → site.Holds ((e1.count k 1).add (unlessLines x l e1)) →
      site.code[p]? = some (.label l) →
      ∀ σ, ∃ (w : BitVec 32) (σ' : _), c.eval .registers σ = some (w.signExtend 64, σ') ∧
        ∀ s : State T, s.pc = site.place e → ss.Matches cells σ s → s.Reaches site.code fun s' =>
          s'.pc = (if w = 0 then p else site.place ((e1.count k 1).add (unlessLines x l e1))) ∧
          ss.Matches cells σ' s' ∧ ∀ m ≤ e.temps, s'.temps (some m) = s.temps (some m)

lemma unless_lands (h : Lands ss cells q k n w σ s s1) (hw : w = 0 ∨ w = 1) (hk : k ≤ e.temps)
    (hn : n ≤ e.temps) (seg : Seg site.code q (unlessLines (some n) l e))
    (hp : site.code[p]? = some (.label l)) :
    s1.Reaches site.code fun s' => s'.pc = (if w = 0 then p else q + 4) ∧
      ss.Matches cells σ s' ∧ ∀ m ≤ k, s'.temps (some m) = s.temps (some m) := by
  obtain rfl := h.pc
  refine (State.unless_reaches site.nodup hn seg hp).mono fun s2 ⟨alike, pc⟩ => ?_
  have after := h.alike alike hk (m := 0) rfl
  refine ⟨?_, after.cells, after.kept⟩
  rw [pc, h.value]
  obtain rfl | rfl := hw <;> rfl

lemma comparison_decided (hw : c.words ss = true) (compares : c.op.isComparison = true)
    (hc : Simulated T site ss cells c) : Decided T site ss cells c := by
  have loaded : c.Loaded := by
    intro location
    cases c with
    | ident | deref => cases compares
    | _ => cases location
  intro ctx op l e e1 x _ lower
  obtain ⟨n, rfl, d⟩ := hc.delivers hw loaded lower
  refine ⟨d.before, fun {k p} here there hp σ => ?_⟩
  have holds := here.between there d.before (Emitter.Before.refl e1).count.add
  have seg := (holds.count k 1).seg there
  rw [(holds.count k 1).place_add]
  obtain ⟨w, σ', hw', run⟩ := d.run here holds σ
  refine ⟨w, σ', hw', fun s pc regs => (run s pc regs).bind fun s1 l1 => ?_⟩
  exact unless_lands l1 (eval_comparison hw compares hw') d.before.temps d.given seg hp

lemma test_differs (h : (s.temps x).setWidth 32 = u) :
    Relation.ne.test .word (s.temps x) 0 = decide (u ≠ 0) := by
  simp only [Relation.test, Relation.holds, h]
  rfl

lemma truth_lands {parent : Op} (h : Lands ss cells q k n u σ s s1) (hk : k ≤ e.temps)
    (seg : Seg site.code q (truthLines parent (some n) .word l e)) (hp : site.code[p]? = some (.label l)) :
    s1.Reaches site.code (Lands ss cells (if parent.leaps (decide (u ≠ 0)) then p
      else q + (truthLines parent (some n) .word l e).length) k (e.temps + 1)
      (if u = 0 then 0 else 1) σ s) := by
  obtain rfl := h.pc
  refine (State.truth_reaches site.nodup seg hp).mono fun s2 ⟨alike, pc, value⟩ => ?_
  rw [test_differs h.value] at pc value
  rw [← pc]
  refine h.alike alike hk (value.trans ?_)
  by_cases zero : u = 0 <;> simp [zero]

lemma toBool_decided (hw : (toBool i a).words ss = true) (ha : Simulated T site ss cells a)
    (loaded : a.Loaded) : Decided T site ss cells (.toBool i a) := by
  intro ctx op l e e1 x stays lower
  simp only [words, Bool.and_eq_true] at hw
  obtain ⟨x, e2, c, h1, hc, rfl, rfl⟩ := lower_toBool lower
  obtain rfl := Except.ok.inj (hc.symm.trans (cls_of_words hw.2))
  obtain ⟨n, rfl, d⟩ := ha.delivers hw.2 loaded h1
  refine ⟨d.before.count.add, fun {k p} here there hp σ => ?_⟩
  have holds1 := here.between there d.before.count.add (Emitter.Before.refl _).count.add
  have holds2 := here.between holds1 d.before (Emitter.Before.refl e2).count.add
  have seg := (holds1.count k 1).seg there
  have seg2 := (holds2.count 1 1).seg holds1
  rw [(holds1.count k 1).place_add]
  obtain ⟨u, σ', hu, run⟩ := d.run here holds2 σ
  refine ⟨_, σ', eval_toBool hu, fun s pc regs => (run s pc regs).bind fun s1 l1 => ?_⟩
  refine (truth_lands l1 d.before.temps seg2 hp).bind fun s2 l2 => ?_
  by_cases leaps : op.leaps (decide (u ≠ 0)) = true
  · have zero : u = 0 := by
      by_contra differs
      rw [decide_eq_true differs, stays] at leaps
      cases leaps
    refine .here ⟨?_, l2.cells, l2.kept⟩
    rw [l2.pc, if_pos zero]
    exact if_pos leaps
  · rw [if_neg (show ¬ (ctx.condition op l).parent.leaps _ = true from leaps),
      ← Site.place_count 1 1, ← (holds2.count 1 1).place_add] at l2
    refine unless_lands l2 ?_ ?_ ?_ seg hp
    · split_ifs
      · exact .inl rfl
      · exact .inr rfl
    · simpa using d.before.temps.trans (Nat.le_succ _)
    · simp

/-! ## Choices -/

lemma ternary_simulated (hc : c.words ss = true → Decided T site ss cells c) (la : a.Loaded)
    (ha : Simulated T site ss cells a) (lb : b.Loaded) (hb : Simulated T site ss cells b) :
    Simulated T site ss cells (.ternary i c a b) := by
  refine ⟨by simp, fun h _ ctx e e' r lower => ?_⟩
  simp only [words, Bool.and_eq_true] at h
  obtain ⟨⟨⟨hi, wc⟩, wa⟩, wb⟩ := h
  obtain ⟨x, e1, y, e2, d, z, e3, f, h1, h2, hd, h3, hf, rfl, rfl⟩ := lower_ternary lower
  obtain rfl := Except.ok.inj (hd.symm.trans (cls_of_words wa))
  obtain rfl := Except.ok.inj (hf.symm.trans (cls_of_words wb))
  obtain ⟨before1, runC⟩ := hc wc rfl h1
  obtain ⟨y, rfl, da⟩ := ha.delivers wa la h2
  obtain ⟨z, rfl, db⟩ := hb.delivers wb lb h3
  have before1 := (Emitter.Before.refl e).count.trans before1
  have before2 := before1.count.add.trans da.before
  have before3 := before2.add.trans db.before
  have temps1 := before1.temps
  have temps2 : e1.temps + 3 ≤ e2.temps := da.before.temps
  have temps3 : e2.temps ≤ e3.temps := db.before.temps
  refine ⟨_, rfl, before3.add, by omega, by simp only [Emitter.add_temps]; omega,
    fun here there σ => ?_⟩
  have holds3 := here.between there before3 (Emitter.Before.refl e3).add
  have holdsB := here.between holds3 before2.add db.before
  have holds2 := here.between holdsB before2 (Emitter.Before.refl e2).add
  have holdsA := here.between holds2 before1.count.add da.before
  have seg2 := holds2.seg holdsB
  have seg3 := holds3.seg there
  rw [holds3.place_add]
  obtain ⟨w, σ1, hw, run⟩ := runC (here.count 0 2) holdsA seg2.tail.tail.head σ
  have value := eval_ternary (i := i) (a := a) (b := b) hw
  by_cases zero : w = 0
  · obtain ⟨v, σ2, hv, runB⟩ := db.run holdsB holds3 σ1
    rw [if_pos zero, hv] at value
    refine ⟨v, σ2, value, fun s pc regs => (run s pc regs).bind ?_⟩
    rintro s1 ⟨pc1, regs1, kept1⟩
    rw [if_pos zero] at pc1
    have l1 : Lands ss cells _ e.temps 0 _ σ1 s s1 := ⟨pc1, regs1, kept1, rfl⟩
    refine .label (pc1 ▸ seg2.tail.tail) ?_
    refine (runB s1.next (by rw [holds2.place_add]; exact l1.next.pc) l1.cells).bind fun s2 l2 => ?_
    rw [← l2.pc] at seg3
    refine .set seg3 rfl (.label seg3.tail (.here ?_))
    exact ((l1.next.trans l2 (by simp; omega)).set (by omega) ((T.low_pad _).trans l2.value)).next
  · obtain ⟨v, σ2, hv, runA⟩ := da.run holdsA holds2 σ1
    rw [if_neg zero, hv] at value
    refine ⟨v, σ2, value, fun s pc regs => (run s pc regs).bind ?_⟩
    rintro s1 ⟨pc1, regs1, kept1⟩
    rw [if_neg zero] at pc1
    have l1 : Lands ss cells _ e.temps 0 _ σ1 s s1 := ⟨pc1, regs1, kept1, rfl⟩
    refine (runA s1 pc1 regs1).bind fun s2 l2 => ?_
    rw [← l2.pc] at seg2
    refine .set seg2 rfl (.jump site.nodup seg2.tail.head seg3.tail.head (.label seg3.tail (.here ?_)))
    exact (((l1.trans l2 (by simp; omega)).set (by omega) ((T.low_pad _).trans l2.value)).goto _).next

lemma meet_reaches {short last : Int} (isShort : Bool)
    (seg : Seg site.code q (meetLines op (some n) .word short last)) (new : k < n)
    (h : Lands ss cells (if isShort then q + 2 else q) k m w σ s s1) :
    s1.Reaches site.code (Lands ss cells (q + 5) k n
      (if decide (op = .logOr) = isShort then 1 else 0) σ s) := by
  unfold meetLines at seg
  cases isShort with
  | true =>
    have pc : s1.pc = q + 2 := h.pc
    have start := seg.tail.tail
    rw [← pc] at start
    refine .label start (.set (s := s1.next) start.tail rfl (.label start.tail.tail (.here ?_)))
    refine (h.next.set new ((T.low_pad _).trans ?_)).next
    by_cases or : op = .logOr <;> simp [or, State.value]
  | false =>
    obtain rfl : s1.pc = q := h.pc
    refine .set seg rfl (.jump site.nodup seg.tail.head seg.tail.tail.tail.tail.head
      (.label seg.tail.tail.tail.tail (.here ?_)))
    refine ((h.set new ((T.low_pad _).trans ?_)).goto _).next
    by_cases or : op = .logOr <;> simp [or, State.value]

lemma leaps_logical (hop : op = .logAnd ∨ op = .logOr) (u : BitVec 32) :
    op.leaps (decide (u ≠ 0)) = decide (¬ (u = 0 ↔ op = .logOr)) := by
  obtain rfl | rfl := hop
  · simp [Op.leaps]
  · simp [Op.leaps]

lemma logical_simulated (la : a.Loaded) (ha : Simulated T site ss cells a) (lb : b.Loaded)
    (hb : Simulated T site ss cells b) : Simulated T site ss cells (.logical i op a b) := by
  refine ⟨nofun, fun h _ ctx e e' r lower => ?_⟩
  simp only [words, Bool.and_eq_true, Bool.or_eq_true, decide_eq_true_eq] at h
  obtain ⟨⟨⟨hi, hop⟩, wa⟩, wb⟩ := h
  obtain ⟨x, e1, c, y, e2, d, h1, hc, h2, hd, rfl, rfl⟩ := lower_logical lower
  obtain rfl := Except.ok.inj (hc.symm.trans (cls_of_words wa))
  obtain rfl := Except.ok.inj (hd.symm.trans (cls_of_words wb))
  obtain ⟨x, rfl, da⟩ := ha.delivers wa la h1
  obtain ⟨y, rfl, db⟩ := hb.delivers wb lb h2
  have before1 := (Emitter.Before.refl e).count.trans da.before
  have before2 := before1.count.add.trans db.before
  have temps1 := before1.temps
  have new : e.temps < y := by
    have : e1.temps + 1 < y := db.new
    omega
  refine ⟨_, rfl, before2.count.add, new, ?_, fun here there σ => ?_⟩
  · simpa using db.given.trans (Nat.le_succ _)
  have holds2 := here.between there before2 (Emitter.Before.refl e2).count.add
  have holdsB := here.between holds2 before1.count.add db.before
  have holds1 := here.between holdsB before1 (Emitter.Before.refl e1).count.add
  have seg1 := (holds1.count 1 1).seg holdsB
  obtain ⟨seg2, meet⟩ := ((holds2.count 1 1).seg there).append
  rw [(holds2.count 1 1).place_add, List.length_append, ← Nat.add_assoc]
  have short := meet.tail.tail.head
  obtain ⟨u, σ1, hu, runA⟩ := da.run (here.count 0 2) holds1 σ
  by_cases decided : u = 0 ↔ op = .logOr
  · obtain ⟨v, σ2, hv, runB⟩ := db.run holdsB holds2 σ1
    refine ⟨_, σ2, eval_logical_long hu decided hv, fun s pc regs => ?_⟩
    refine (runA s pc regs).bind fun s1 l1 => (truth_lands l1 temps1 seg1 short).bind fun s2 l2 => ?_
    rw [leaps_logical hop, if_neg (by simpa using decided)] at l2
    refine (runB s2 (l2.pc.trans ((holds1.count 1 1).place_add _).symm) l2.cells).bind fun s3 l3 => ?_
    have l3 := l2.trans l3 (temps1.trans (Nat.le_succ _))
    have temps3 : e.temps ≤ e2.temps := before2.temps
    refine (truth_lands l3 temps3 seg2 short).bind fun s4 l4 => ?_
    have value : (if decide (op = .logOr) = op.leaps (decide (v ≠ 0)) then (1 : BitVec 32) else 0) =
        if v = 0 then 0 else 1 := by
      rw [leaps_logical hop]
      by_cases zero : v = 0 <;> by_cases or : op = .logOr <;> simp [zero, or]
    have outcome := meet_reaches _ meet new l4
    rwa [value] at outcome
  · refine ⟨_, σ1, eval_logical_short hu decided, fun s pc regs => ?_⟩
    refine (runA s pc regs).bind fun s1 l1 => (truth_lands l1 temps1 seg1 short).bind fun s2 l2 => ?_
    rw [leaps_logical hop, if_pos (by simpa using decided)] at l2
    simpa [meetLines] using meet_reaches true meet new l2

lemma simulated_of_not_words (h : t.words ss = false) (other : t.isVariable = false) :
    Simulated T site ss cells t := by
  refine ⟨fun j s ht => ?_, fun hw => ?_⟩
  · rw [ht] at other
    cases other
  · rw [h] at hw
    cases hw

theorem IsExpression.simulated (distinct : ss.Distinct scope.sees) (ht : IsExpression ss scope t) :
    Simulated T site ss scope.sees t :=
  ht.located (P := Simulated T site ss scope.sees) intLit_simulated
    (simulated_of_not_words rfl rfl) (fun _ visible => ident_simulated visible)
    (fun _ _ _ => simulated_of_not_words rfl rfl) (fun _ _ => simulated_of_not_words rfl rfl)
    (fun _ _ => simulated_of_not_words rfl rfl) binary_simulated logical_simulated
    (assign_simulated distinct) (fun location ha _ => compound_simulated distinct location ha)
    widen_simulated (fun _ _ => simulated_of_not_words rfl rfl)
    (fun _ _ => simulated_of_not_words rfl rfl) (fun la ha _ => unary_simulated la ha)
    (fun _ ha _ => step_simulated distinct ha)
    (fun compares hc => ternary_simulated fun hw => comparison_decided hw compares hc)
    (fun lc hc => ternary_simulated fun hw => toBool_decided hw hc lc)
    (fun _ _ => simulated_of_not_words rfl rfl)

lemma IsCondition.decided (distinct : ss.Distinct scope.sees) (hc : IsCondition ss scope c)
    (hw : c.words ss = true) : Decided T site ss scope.sees c := by
  rcases hc with ⟨he, compares⟩ | ⟨j, a, rfl, ha, la⟩
  · exact comparison_decided hw compares (he.simulated distinct)
  · exact toBool_decided hw (ha.simulated distinct) la

end Tree
end SmallC
