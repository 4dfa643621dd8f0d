import SmallC.Proofs.Labels
import SmallC.Proofs.Lowering.Runs

/-!
# What functions on words return

A function on words is one whose parameters, locals and result are ints in registers, and whose body
computes with nothing else. Whatever its registers hold at the beginning, running its code returns a
value exactly if running its tree does, and it is the same value.
-/

namespace SmallC

open Ir

namespace Ir.State

variable {T : Target} {code : List Line} {s a b : State T} {m n : Nat}

lemma run_of_stuck (hn : s.run code n = some a) (stuck : a.step code = none)
    (hm : s.run code m = some b) : ∃ k, n = m + k ∧ b.run code k = some a := by
  by_cases le : m ≤ n
  · obtain ⟨k, rfl⟩ := Nat.exists_eq_add_of_le le
    rw [run_add, hm, Option.bind_some] at hn
    exact ⟨k, rfl, hn⟩
  · obtain ⟨k, rfl⟩ := Nat.exists_eq_add_of_lt (Nat.lt_of_not_le le)
    rw [Nat.add_assoc, run_add, hn, Option.bind_some, run, stuck] at hm
    cases hm

lemma stuck_unique (hn : s.run code n = some a) (ha : a.step code = none)
    (hm : s.run code m = some b) (hb : b.step code = none) : a = b := by
  obtain ⟨k, -, hk⟩ := run_of_stuck hn ha hm
  cases k with
  | zero => exact (Option.some.inj hk).symm
  | succ k =>
    rw [run, hb] at hk
    cases hk

lemma step_ret {w : Bool} (h : code[s.pc]? = some (.ret w)) : s.step code = none := by
  rw [step, h]

lemma returns_iff_of_run {v : BitVec 32}
    (h : ((s.run code n).map fun s' => (code[s'.pc]?, s'.result.setWidth 32)) = some (some (.ret true), v))
    (w : BitVec 32) : s.Returns code w ↔ w = v := by
  obtain ⟨s1, run1, out⟩ := Option.map_eq_some_iff.mp h
  obtain ⟨ret1, rfl⟩ := Prod.mk.inj out
  constructor
  · rintro ⟨m, s2, run2, ret2, rfl⟩
    rw [stuck_unique run1 (step_ret ret1) run2 (step_ret ret2)]
  · rintro rfl
    exact ⟨n, s1, run1, ret1, rfl⟩

lemma step_jump_nowhere {l : Int} (h : code[s.pc]? = some (.instr (.jump l))) (hl : l ∉ labelsOf code) :
    s.step code = none := by
  have none : code.findIdx? (· = .label l) = none := by
    rw [List.findIdx?_eq_none_iff]
    intro line mem
    rw [decide_eq_false_iff_not]
    rintro rfl
    exact hl (mem_labelsOf.mpr mem)
  rw [step, h]
  simp only [exec, goto, none]
  rfl

end Ir.State

namespace Tree

variable {S : Store} {fuel : Nat} {exit : Exit} {σ σ' : S.World} {t a : Tree} {ts : List Tree} {ss : Symbols}

lemma execAll_ne_next {i : Info} (last : ts.getLast? = some (.result i a))
    (h : execAll S fuel ts σ = some (exit, σ')) : exit ≠ .next := by
  induction ts generalizing σ with
  | nil => cases last
  | cons t ts ih =>
    rw [execAll, bind_at, Option.bind_eq_some_iff] at h
    obtain ⟨⟨out, σ1⟩, first, rest⟩ := h
    cases ts with
    | nil =>
      obtain rfl : t = .result i a := by simpa using last
      have returns : ∃ v, out = .returned v := by
        rw [exec] at first
        split_ifs at first
        · cases first
          exact ⟨none, rfl⟩
        · rw [bind_at, Option.bind_eq_some_iff] at first
          obtain ⟨p, -, first⟩ := first
          cases first
          exact ⟨some p.1, rfl⟩
      obtain ⟨v, rfl⟩ := returns
      cases rest
      simp
    | cons t' ts =>
      cases out with
      | next => exact ih (by simpa [List.getLast?_cons_cons] using last) rest
      | breakOut | continueOn | returned v =>
        cases rest
        simp

lemma finalValue?_eq_some (h : t.finalValue? = some a) :
    ∃ i ts j, t = .block i ts ∧ ts.getLast? = some (.result j a) := by
  cases t with
  | block i ts =>
    rw [finalValue?] at h
    split at h
    · rename_i j b last
      cases h
      exact ⟨i, ts, j, rfl, last⟩
    · cases h
  | _ => cases h

lemma exec_ne_next (ends : t.endsInResult = true) (h : t.exec S fuel σ = some (exit, σ')) : exit ≠ .next := by
  obtain ⟨a, final⟩ := Option.isSome_iff_exists.mp ends
  obtain ⟨i, ts, j, rfl, last⟩ := finalValue?_eq_some final
  exact execAll_ne_next last h

lemma worksOnWordsAll_mem (h : worksOnWordsAll ss ts = true) : ∀ t ∈ ts, t.worksOnWords ss = true := by
  induction ts with
  | nil => exact fun t ht => nomatch ht
  | cons t ts ih =>
    rw [worksOnWordsAll, Bool.and_eq_true] at h
    exact List.forall_mem_cons.mpr ⟨h.1, ih h.2⟩

lemma endsInValue_of_worksOnWords (works : t.worksOnWords ss = true) (ends : t.endsInResult = true) :
    t.endsInValue = true := by
  obtain ⟨a, final⟩ := Option.isSome_iff_exists.mp ends
  obtain ⟨i, ts, j, rfl, last⟩ := finalValue?_eq_some final
  rw [worksOnWords] at works
  have words : a.words ss = true := worksOnWordsAll_mem works _ (List.mem_of_getLast? last)
  rw [endsInValue, final]
  cases a with
  | empty => cases words
  | _ => rfl

end Tree

namespace Definition

def onWords (d : Definition) : Bool := d.info.type = .int && d.symbol.type = .int &&
    (d.symbol.members ++ d.locals).all (fun id => (d.symbols.get id).isRegister) &&
    d.body.worksOnWords d.symbols

def words (d : Definition) {T : Target} (s : State T) : SymId → BitVec 32 :=
  fun id => (s.frame (d.symbols.get id).name).setWidth 32

lemma onWords_iff {d : Definition} : d.onWords = true ↔ d.info.type = .int ∧ d.symbol.type = .int ∧
    (∀ id ∈ d.symbol.members ++ d.locals, (d.symbols.get id).isRegister = true) ∧
    d.body.worksOnWords d.symbols = true := by
  simp only [onWords, Bool.and_eq_true, decide_eq_true_eq, List.all_eq_true, and_assoc]

variable {d : Definition} {text : List Line} {T : Target}

lemma Written.bare (h : d.Written text) (hw : d.onWords = true) : ∃ (e e' : Emitter) (r : Temp) (head : Line)
    (entry : Int), d.body.lower d.symbols { function := d.symbol }
      ((e.count 0 1).add [head, .label entry]) = .ok r e' ∧
      (e'.add [.label d.symbol.endLabel, .ret true, .closing]).lines.toList = e.lines.toList ++ text := by
  obtain ⟨-, htype, vars, -⟩ := onWords_iff.mp hw
  have inRegister : ∀ id ∈ d.symbol.members ++ d.locals,
      (d.symbols.get id).hasAddr = false ∧ (d.symbols.get id).type ≠ .char := by
    intro id hid
    have reg := vars id hid
    simp only [Symbol.isRegister, Symbol.inMemory, Bool.and_eq_true, decide_eq_true_eq,
      Bool.not_eq_true', Bool.or_eq_false_iff] at reg
    exact ⟨reg.2.1, by rw [reg.1]; decide⟩
  have locals := fun id hid => inRegister id (List.mem_append_right _ hid)
  have slots : Lower.slotLines d.symbols (d.symbols.get d.sym) d.locals = [] :=
    Lower.slotLines_eq_nil (fun id hid => (inRegister id (List.mem_append_left _ hid)).1) locals
  have value : (d.symbols.get d.sym).type ≠ .void := by
    rw [show (d.symbols.get d.sym).type = .int from htype]
    decide
  obtain ⟨e, e', he, htext, -⟩ := h.emitted
  obtain ⟨settled, c, params, r, e2, -, lower, rfl⟩ := Emitter.function_eq_ok he
  rw [Lower.localSlots_eq locals] at settled
  rw [settled, slots] at lower
  rw [decide_eq_true value] at htext
  exact ⟨e, e2, r, _, _, lower, htext⟩

/-- Where the run of a function stands once control has left its body: at the return, with a value, or
at a jump that goes nowhere. -/
structure Leaves (text : List Line) (exit : Exit) (s : State T) : Prop where
  strays : exit = .breakOut ∨ exit = .continueOn → text[s.pc]? = some (.instr (.jump 0))
  returned : ∀ v, exit = .returned v →
    text[s.pc]? = some (.ret true) ∧ v = some ((s.result.setWidth 32).signExtend 64)

lemma Written.follows (h : d.Written text) (hw : d.onWords = true) (nodup : (labelsOf text).Nodup)
    {s : State T} (pc : s.pc = 1) (fuel : Nat) :
    Follows text fuel (fun exit _ => Leaves text exit) (d.body.exec .registers fuel (d.words s)) s := by
  obtain ⟨hinfo, htype, -, works⟩ := onWords_iff.mp hw
  have ends := h.returns (by rw [hinfo]; decide)
  obtain ⟨e, e', r, head, entry, lower, htext⟩ := h.bare hw
  obtain ⟨scope, shape, -, distinct⟩ := h.shape
  have distinct := distinct (Tree.endsInValue_of_worksOnWords works ends)
  let site : Site := ⟨e.lines.toList, text, nodup⟩
  have executed : Tree.Executed T site d.symbols scope.sees d.body := shape.fold.executed distinct
  obtain ⟨before, run⟩ := executed works lower (by rw [htype]; rfl)
  have start : site.Holds (e.count 0 1) := ⟨Nat.le_refl _, List.prefix_append _ _⟩
  have finish : site.Holds (e'.add [.label d.symbol.endLabel, .ret true, .closing]) := by
    refine ⟨?_, htext ▸ List.prefix_refl _⟩
    exact (start.begun.trans (Emitter.Before.refl _).add.size).trans before.add.size
  have opened := start.between finish (Emitter.Before.refl _).add before.add
  have closed := opened.between finish before (Emitter.Before.refl _).add
  have place : site.place (e.count 0 1) = 0 := Nat.sub_self _
  have top := start.seg opened
  have bottom := closed.seg finish
  rw [place] at top
  have entered : Seg text s.pc [.label entry] := by
    rw [pc]
    exact top.tail
  have arrived : s.next.pc = site.place ((e.count 0 1).add [head, .label entry]) := by
    rw [start.place_add, place, State.next_pc, pc]
    rfl
  refine .reach (.label entered (.here rfl)) fun s1 hs1 => ?_
  obtain rfl : s.next = s1 := hs1
  refine (run opened closed fuel (d.words s) _ arrived fun id _ _ => rfl).andThen ?_
  rintro exit σ s2 arrives
  cases exit with
  | next => exact .here ⟨nofun, nofun⟩
  | breakOut => exact .here ⟨fun _ => arrives.breakOut rfl, nofun⟩
  | continueOn => exact .here ⟨fun _ => arrives.continueOn rfl, nofun⟩
  | returned v =>
    obtain ⟨jump, value⟩ := arrives.returned v rfl
    refine .jump nodup jump bottom.head (.label bottom (.here ⟨nofun, ?_⟩))
    rintro v' ⟨⟩
    exact ⟨bottom.tail.head, value⟩

lemma Written.returns_iff (h : d.Written text) (hw : d.onWords = true) (nodup : (labelsOf text).Nodup)
    (none : 0 ∉ labelsOf text) {s : State T} (pc : s.pc = 1) (v : BitVec 32) :
    s.Returns text v ↔ ∃ fuel σ,
      d.body.exec .registers fuel (d.words s) = some (.returned (some (v.signExtend 64)), σ) := by
  constructor
  · rintro ⟨n, s', hn, ret, value⟩
    have stuck := State.step_ret ret
    have follows := h.follows hw nodup pc (n + 1)
    cases out : d.body.exec .registers (n + 1) (d.words s) with
    | none =>
      -- A run that lasts for more than `n` steps does not end after `n`.
      rw [out] at follows
      obtain ⟨m, s1, longer, hm⟩ := follows
      obtain ⟨k, rfl, -⟩ := State.run_of_stuck hn stuck hm
      omega
    | some p =>
      obtain ⟨exit, σ⟩ := p
      rw [out] at follows
      obtain ⟨m, s1, hm, leaves⟩ := follows
      have stray : text[s1.pc]? ≠ some (.instr (.jump 0)) := by
        intro jump
        obtain rfl := State.stuck_unique hn stuck hm (State.step_jump_nowhere jump none)
        rw [ret] at jump
        cases jump
      cases exit with
      | next =>
        have ends := h.returns (by rw [(onWords_iff.mp hw).1]; decide)
        exact absurd rfl (Tree.exec_ne_next ends out)
      | breakOut => exact absurd (leaves.strays (.inl rfl)) stray
      | continueOn => exact absurd (leaves.strays (.inr rfl)) stray
      | returned w =>
        obtain ⟨ret', rfl⟩ := leaves.returned w rfl
        obtain rfl := State.stuck_unique hn stuck hm (State.step_ret ret')
        exact ⟨n + 1, σ, by rw [out, value]⟩
  · rintro ⟨fuel, σ, out⟩
    have follows := h.follows hw nodup pc fuel
    rw [out] at follows
    obtain ⟨n, s', hn, leaves⟩ := follows
    obtain ⟨ret, value⟩ := leaves.returned _ rfl
    refine ⟨n, s', hn, ret, ?_⟩
    have same := congrArg (BitVec.setWidth 32) (Option.some.inj value)
    simpa using same.symm

end Definition

/-- The code of a function on words, which is entered at its second line, returns a value exactly if
its tree does, whatever its parameters and locals hold at the beginning, and it is the same value. -/
theorem compile_executes {file source code : Text}
    (h : (Session.compile { file } source).1.outcome = .ok code) :
    List.Forall₂ (fun (d : Definition) text => d.onWords = true →
      (∃ entry, text[1]? = some (.label entry)) ∧
      ∀ (T : Target) (s : State T) (v : BitVec 32), s.pc = 1 →
        (s.Returns text v ↔ ∃ fuel σ, d.body.exec .registers fuel (d.words s) =
          some (.returned (some (v.signExtend 64)), σ)))
      (Session.compile { file } source).1.functions
      (texts (Session.compile { file } source).2.out.lines.toList) := by
  obtain ⟨s, leads, hfunctions, hout, rfl⟩ := compile_leads h
  simp only [hfunctions, hout]
  have sound := leads.sound
  refine sound.layout.written.imp fun d text ⟨hd, piece⟩ hw => ⟨?_, fun T s v pc => ?_⟩
  · obtain ⟨_, _, _, _, _, _, rfl, ⟨entry, rest, rfl⟩, -⟩ := hd.lines
    exact ⟨entry, rfl⟩
  · have part : (labelsOf text).Sublist (labelsOf _) := piece.sublist.filterMap _
    refine hd.returns_iff hw (sound.nodup.sublist part) ?_ pc v
    intro zero
    have := sound.labels 0 (part.subset zero)
    omega

/-- Loops that are left and gone on with, shortcuts and choices: for 9, the code returns -171. -/
theorem compile_executes_loops :
    let source : Text := "int f(int n) \x7b int i; int s; s = 0; i = 0; while (i++ < n) \x7b if (i == 2 || !i) continue; if (s > 40 && i & 1) break; s += i * 3 - (i << 1 ^ 5); \x7d for (i = s; i < 50; s *= 2) i = i & 1 ? s + 7 : -~i; return -i ^ s; \x7d"
    let s := State.entered fun name => if name = "n" then 9 else 0
    (∃ code, (Session.compile { file := "t.c" } source).1.outcome = .ok code) ∧
      (Session.compile { file := "t.c" } source).1.functions.length = 1 ∧
      List.Forall₂ (fun d text => d.onWords = true ∧ s.Returns text (-171))
        (Session.compile { file := "t.c" } source).1.functions
        (texts (Session.compile { file := "t.c" } source).2.out.lines.toList) := by
  intro source s
  obtain ⟨code, ok⟩ := exists_of_isSome (x := (Session.compile { file := "t.c" } source).1.outcome)
    (by decide +kernel)
  have runs : ∀ d ∈ (Session.compile { file := "t.c" } source).1.functions, d.onWords = true ∧
      (d.body.exec .registers 10 (d.words s)).map Prod.fst =
        some (.returned (some ((-171 : BitVec 32).signExtend 64))) := by decide +kernel
  refine ⟨⟨code, ok⟩, by decide +kernel, ?_⟩
  refine ((List.forall₂_and_left _ _).mpr ⟨runs, compile_executes ok⟩).imp ?_
  rintro d text ⟨⟨words, value⟩, executes⟩
  obtain ⟨⟨exit, σ⟩, out, rfl⟩ := Option.map_eq_some_iff.mp value
  exact ⟨words, ((executes words).2 .bare s (-171) rfl).mpr ⟨10, σ, out⟩⟩

end SmallC
