import SmallC.Proofs.Narrowing

/-!
# Offsets from a pointer

An index beside a pointer counts things of the size that the pointer points at. Where they are of one byte
it is made as wide as a pointer, else it is multiplied: by a shift for the sizes 2, 4 and 8, and by a
product for all others. Both ways agree on an `int` and on a `long`. They differ for a `char` that a register
holds with more than eight bits: to widen it cuts it to a byte, to multiply it keeps the whole word.
-/

namespace SmallC

open Ir Lower Conversion

/-- What an index of an integer type in a register is once it is as wide as a pointer. -/
def CType.widened (t : CType) (v : BitVec 64) : BitVec 64 :=
  if t = .long then v else if t = .char then (v.setWidth 8).setWidth 64 else (v.setWidth 32).signExtend 64

/-- What it counts as where it is multiplied. -/
def CType.counted (t : CType) (v : BitVec 64) : BitVec 64 :=
  if t = .long then v else (v.setWidth 32).signExtend 64

/-- The code that a conversion adds behind that of a value in `r`. -/
def Conversion.code (way : Conversion) (source target : CType) (r : Temp) : Lower Temp :=
  match way with
  | .keep => return r
  | .widen => Lower.widen r source target
  | .scale size =>
    match Tree.shiftOf? size with
    | some k => shiftLeft r k source
    | none => timesConstant r size source

/-- A number of lines later a temporary has the value, and the memory is as it was. -/
structure Ir.State.Holds {T : Target} (s s' : State T) (lines : Nat) (r : Temp) (v : BitVec 64) : Prop where
  pc : s'.pc = s.pc + lines
  value : s'.temps r = v
  frame : s'.frame = s.frame
  world : s'.world = s.world

/-- Where the code stands that is written for a value in one of the temporaries given out, it runs to its end
and leaves what `f` makes of the value. -/
def Lower.Turns (T : Target) (x : Temp → Lower Temp) (f : BitVec 64 → BitVec 64) : Prop :=
  ∀ (r : Temp) (e : Emitter), (∀ n ∈ r, n ≤ e.temps) → ∃ r' e' lines, x r e = .ok r' e' ∧
    e'.lines.toList = e.lines.toList ++ lines ∧ ∀ (code : List Line) (s : State T), Seg code s.pc lines →
      s.Reaches code fun s' => s.Holds s' lines.length r' (f (s.temps r))

variable {T : Target} {t target : CType}

namespace Lower

section
variable (int : t.isInt = true) (k : Int64)
include int

lemma turns_widen (pointer : target.isPointer = true) :
    Turns T (fun r => widen r t target) t.widened := by
  intro r e _
  have wide : target.cls = .ok .long := by simp [CType.cls, pointer]
  have word : CType.char.cls = .ok .word ∧ CType.int.cls = .ok .word := ⟨rfl, rfl⟩
  have plain : CType.char.isPointer = false ∧ CType.int.isPointer = false := ⟨rfl, rfl⟩
  rcases CType.isInt_cases int with rfl | rfl | rfl
  · refine ⟨some (e.temps + 1), (e.count 1 0).add
      [.instr (.set (.temp (some (e.temps + 1))) .long (.extend .byte r))], _,
      by simp [widen, wide, word, plain], Emitter.add_lines .., fun code s seg => ?_⟩
    exact .set seg rfl (.here ⟨rfl, by simp [CType.widened, Target.fit, Extend.apply], rfl, rfl⟩)
  · refine ⟨some (e.temps + 1), (e.count 1 0).add
      [.instr (.set (.temp (some (e.temps + 1))) .long (.extend (.signed .word) r))], _,
      by simp [widen, wide, word, plain], Emitter.add_lines .., fun code s seg => ?_⟩
    exact .set seg rfl (.here ⟨rfl, by simp [CType.widened, Target.fit, Extend.apply], rfl, rfl⟩)
  · exact ⟨r, e, [], rfl, by simp, fun code s _ => .here ⟨rfl, rfl, rfl, rfl⟩⟩

lemma exists_scalarSize : ∃ size, t.scalarSize = .ok size ∧ (size < 8 ↔ t ≠ .long) := by
  rcases CType.isInt_cases int with rfl | rfl | rfl
  · exact ⟨1, rfl, by decide⟩
  · exact ⟨4, rfl, by decide⟩
  · exact ⟨8, rfl, by decide⟩

lemma turns_shiftLeft :
    Turns T (fun r => shiftLeft r k t) fun v => t.counted v <<< (k.toBitVec.toNat % 64) := by
  intro r e old
  obtain ⟨size, sized, small⟩ := exists_scalarSize int
  by_cases long : t = .long
  · have large : ¬ size < 8 := fun lt => small.mp lt long
    refine ⟨some (e.temps + 2), (e.count 2 0).add
      [.instr (.set (.temp (some (e.temps + 2))) .long (.arith .shl (.temp r) (.int k)))], _,
      by simp [shiftLeft, sized, large], Emitter.add_lines .., fun code s seg => ?_⟩
    exact .set seg rfl (.here ⟨rfl, by simp [CType.counted, long, State.value], rfl, rfl⟩)
  · have lt := small.mpr long
    refine ⟨some (e.temps + 2), (e.count 2 0).add
      [.instr (.set (.temp (some (e.temps + 1))) .long (.extend (.signed .word) r)),
        .instr (.set (.temp (some (e.temps + 2))) .long (.arith .shl (.temp (some (e.temps + 1))) (.int k)))],
      _, by simp [shiftLeft, sized, lt], Emitter.add_lines .., fun code s seg => ?_⟩
    refine .set seg rfl (.set seg.tail rfl (.here ⟨rfl, ?_, rfl, rfl⟩))
    simp [CType.counted, long, State.value, Target.fit, Extend.apply]

lemma turns_timesConstant :
    Turns T (fun r => timesConstant r k t) fun v => k.toBitVec * t.counted v := by
  intro r e old
  obtain ⟨size, sized, small⟩ := exists_scalarSize int
  have wide : CType.long.cls = .ok .long := rfl
  by_cases long : t = .long
  · have large : ¬ size < 8 := fun lt => small.mp lt long
    -- The product replaces the index, so the factor must not stand in the temporary of the index.
    have apart : r ≠ some (e.temps + 1) := fun same => by
      have := old _ (Option.mem_def.mpr same)
      omega
    refine ⟨r, (e.count 1 0).add [.instr (.set (.temp (some (e.temps + 1))) .long (.copy (.int k))),
        .instr (.set (.temp r) .long (.arith .mul (.temp r) (.temp (some (e.temps + 1)))))],
      _, by simp [timesConstant, asLong, sized, large, wide, Op.arith?], Emitter.add_lines ..,
      fun code s seg => ?_⟩
    refine .set seg rfl (.set seg.tail rfl (.here ⟨rfl, ?_, rfl, rfl⟩))
    simp [CType.counted, long, State.value, Target.fit, apart, BitVec.mul_comm]
  · have lt := small.mpr long
    refine ⟨some (e.temps + 1), (e.count 2 0).add
      [.instr (.set (.temp (some (e.temps + 1))) .long (.extend (.signed .word) r)),
        .instr (.set (.temp (some (e.temps + 2))) .long (.copy (.int k))),
        .instr (.set (.temp (some (e.temps + 1))) .long
          (.arith .mul (.temp (some (e.temps + 1))) (.temp (some (e.temps + 2)))))],
      _, by simp [timesConstant, asLong, sized, lt, wide, Op.arith?], Emitter.add_lines ..,
      fun code s seg => ?_⟩
    refine .set seg rfl (.set seg.tail rfl (.set seg.tail.tail rfl (.here ⟨rfl, ?_, rfl, rfl⟩)))
    simp [CType.counted, long, State.value, Target.fit, Extend.apply, BitVec.mul_comm]

end

end Lower

lemma Tree.twoPow_of_shiftOf {size k : Int64} (h : shiftOf? size = some k) :
    BitVec.twoPow 64 (k.toBitVec.toNat % 64) = size.toBitVec := by
  unfold shiftOf? at h
  split_ifs at h with two four eight
  · cases h
    rw [two]
    decide
  · cases h
    rw [four]
    decide
  · cases h
    rw [eight]
    decide

lemma Conversion.turns_scale (int : t.isInt = true) (size : Int64) :
    Turns T ((scale size).code t target) fun v => size.toBitVec * t.counted v := by
  cases shift : Tree.shiftOf? size with
  | none =>
    rw [show (scale size).code t target = fun r => timesConstant r size t by funext r; simp only [code, shift]]
    exact turns_timesConstant int size
  | some k =>
    rw [show (scale size).code t target = fun r => shiftLeft r k t by funext r; simp only [code, shift]]
    have turns := turns_shiftLeft (T := T) int k
    simp only [BitVec.shiftLeft_eq_mul_twoPow, Tree.twoPow_of_shiftOf shift,
      BitVec.mul_comm _ size.toBitVec] at turns
    exact turns

lemma CType.counted_char (size : Int64) (low : 1 < size) (high : size < 2 ^ 32) (v : BitVec 64) :
    size.toBitVec * CType.char.counted v = size.toBitVec * CType.char.widened v ↔
      (v.setWidth 32).toNat < 256 := by
  have byte : (CType.char.widened v).toInt = ((v.setWidth 32).toNat % 256 : Nat) := by
    have whole : ((v.setWidth 8).setWidth 64).toNat = (v.setWidth 32).toNat % 256 := by
      simp only [BitVec.toNat_setWidth]
      omega
    rw [show CType.char.widened v = (v.setWidth 8).setWidth 64 from rfl, BitVec.toInt_eq_toNat_of_lt, whole]
    omega
  have word : (CType.char.counted v).toInt = (v.setWidth 32).toInt := BitVec.toInt_signExtend_of_le (by decide)
  have bounds := BitVec.toInt_eq_toNat_cond (v.setWidth 32)
  have fits := (v.setWidth 32).isLt
  constructor
  · intro same
    have same := congrArg (fun x : BitVec 64 => x.toInt % (2 ^ 64 : Nat)) same
    simp only [BitVec.toInt_mul, byte, word, Int.bmod_emod] at same
    have divides := Int.dvd_of_emod_eq_zero (Int.emod_eq_emod_iff_emod_sub_eq_zero.mp same)
    rw [← Int.mul_sub] at divides
    have low : 1 < size.toBitVec.toInt := Int64.lt_iff_toInt_lt.mp low
    have high : size.toBitVec.toInt < 2 ^ 32 := Int64.lt_iff_toInt_lt.mp high
    have less : Int.natAbs ((v.setWidth 32).toInt - ((v.setWidth 32).toNat % 256 : Nat)) < 2 ^ 32 := by
      split_ifs at bounds <;> omega
    have small : size.toBitVec.toInt.natAbs < 2 ^ 32 := by omega
    have zero := Int.eq_zero_of_dvd_of_natAbs_lt_natAbs divides (by
      rw [Int.natAbs_mul, Int.natAbs_natCast]
      exact Nat.lt_of_lt_of_eq (Nat.mul_lt_mul'' small less) rfl)
    rcases Int.mul_eq_zero.mp zero with zero | zero
    · omega
    · split_ifs at bounds <;> omega
  · intro small
    refine congrArg _ (BitVec.eq_of_toInt_eq ?_)
    rw [byte, word, bounds]
    omega

/-- The offset that is computed for an index beside a pointer is the size of what is pointed at times the index,
whatever the register of the index holds. For `int` and `long`, and where the size is 1, the index counts as
what it would be widened to. A char counts as its whole word: that is what it would be widened to exactly if
it is less than 256. -/
theorem index_scales (T : Target) {pointer : CType} {defined : Option Int64} {size : Int64}
    (isPointer : pointer.isPointer = true) (sized : pointer.pointee.size defined = .ok size)
    (positive : 1 ≤ size) :
    ∃ way, toPointer pointer defined = .ok way ∧ ∀ index : Tree, index.type.isInt = true →
      (∀ ss ctx ctype, ∃ op, (index.converted way pointer ctype).lower ss ctx =
        index.lower ss (ctx.under op) >>= way.code index.type pointer) ∧
      Turns T (fun r => Lower.widen r index.type pointer) index.type.widened ∧
      ∃ counted : BitVec 64 → BitVec 64,
        Turns T (way.code index.type pointer) (fun v => size.toBitVec * counted v) ∧
        (index.type ≠ .char ∨ size = 1 → counted = index.type.widened) ∧
        (index.type = .char → 1 < size → size < 2 ^ 32 → ∀ v,
          size.toBitVec * counted v = size.toBitVec * index.type.widened v ↔ (v.setWidth 32).toNat < 256) := by
  by_cases one : 1 < size
  · refine ⟨.scale size, by simp [toPointer, sized, one], fun index int => ⟨fun ss ctx ctype => ⟨.scale, ?_⟩,
      turns_widen int isPointer, index.type.counted, turns_scale int size, fun plain => ?_, fun char => ?_⟩⟩
    · simp only [Tree.converted, Tree.lower]
      rfl
    · rcases plain with plain | rfl
      · funext v
        simp [CType.counted, CType.widened, plain]
      · exact absurd one (by decide)
    · rw [char]
      exact fun _ => CType.counted_char size one
  · obtain rfl : size = 1 := by
      rw [Int64.lt_iff_toInt_lt] at one
      rw [Int64.le_iff_toInt_le] at positive
      exact Int64.toInt_inj.mp (Int.le_antisymm (Int.not_lt.mp one) positive)
    refine ⟨.widen, by simp [toPointer, sized], fun index int => ⟨fun ss ctx ctype => ⟨.widen, ?_⟩,
      turns_widen int isPointer, index.type.widened, ?_, fun _ => rfl, fun _ one => absurd one (by decide)⟩⟩
    · simp only [Tree.converted, Tree.lower]
      rfl
    · rw [show (fun v => (1 : Int64).toBitVec * index.type.widened v) = index.type.widened from
        funext fun v => BitVec.one_mul _]
      exact turns_widen int isPointer

theorem index_scales_ints :
    let pointer : CType := { base := .int, depth := 1 }
    ∃ way, toPointer pointer none = .ok way ∧ ∃ counted : BitVec 64 → BitVec 64,
      Turns .bare (way.code .int pointer) (fun v => 4 * counted v) ∧ counted = CType.int.widened := by
  intro pointer
  obtain ⟨way, made, all⟩ := index_scales .bare (rfl : pointer.isPointer = true)
    (rfl : pointer.pointee.size none = .ok 4) (by decide)
  obtain ⟨-, -, counted, turns, same, -⟩ := all (.intLit { type := .int } 0) rfl
  exact ⟨way, made, counted, turns, same (.inl (by decide))⟩

/-- A char that a register holds as 300 is 44 once it is widened, but it counts as 300. -/
theorem compile_counts_word :
    let source : Text := "int f(char c, int *p, int *q) \x7b return p + (c + 200) == q; \x7d"
    let s (q : BitVec 64) := State.entered fun name => if name = "c" then 100 else if name = "q" then q else 0
    (∃ code, (Session.compile { file := "t.c" } source).1.outcome = .ok code) ∧
      (texts (Session.compile { file := "t.c" } source).2.out.lines.toList).length = 1 ∧
      ∀ text ∈ texts (Session.compile { file := "t.c" } source).2.out.lines.toList,
        (s (4 * 300)).Returns text 1 ∧ (s (4 * 44)).Returns text 0 := by
  intro source s
  obtain ⟨code, ok⟩ := exists_of_isSome (x := (Session.compile { file := "t.c" } source).1.outcome)
    (by decide +kernel)
  have run : ∀ text ∈ texts (Session.compile { file := "t.c" } source).2.out.lines.toList,
      ((s (4 * 300)).run text 13).map (fun s' => (text[s'.pc]?, s'.result.setWidth 32)) = some (some (.ret true), 1) ∧
      ((s (4 * 44)).run text 13).map (fun s' => (text[s'.pc]?, s'.result.setWidth 32)) = some (some (.ret true), 0) := by
    decide +kernel
  refine ⟨⟨code, ok⟩, by decide +kernel, fun text mem => ?_⟩
  exact ⟨(State.returns_iff_of_run (run text mem).1 1).mpr rfl,
    (State.returns_iff_of_run (run text mem).2 0).mpr rfl⟩

end SmallC
