import SmallC.Proofs.Lowering.Homes
import SmallC.Proofs.Refinement

/-!
# Chars are cut to a byte in memory only

A char in memory is read as a byte, so whatever is written to it comes back modulo 256. A parameter whose
address is not taken is a register, which keeps 32 bits, and so does a conversion to char: it is a copy
of a word.
-/

namespace SmallC

open Conversion (isScalar)

namespace Ir

abbrev Memory := BitVec 64 → BitVec 8

namespace Memory

variable (m : Memory) (a : BitVec 64)

def read : Nat → BitVec 64
  | 0 => 0
  | n + 1 => read n ||| (m (a + n)).setWidth 64 <<< (8 * n)

/-- The memory after the `n` lowest bytes of a value were written to an address. -/
def write (n : Nat) (v : BitVec 64) : Memory := fun b =>
  if (b - a).toNat < n then (v >>> (8 * (b - a).toNat)).setWidth 8 else m b

variable {m a} {n : Nat} {v : BitVec 64}

lemma read_write_byte (h : 0 < n) : (m.write a n v).read a 1 = (v.setWidth 8).setWidth 64 := by
  simp [read, write, h]

lemma write_outside {b : BitVec 64} (h : n ≤ (b - a).toNat) : m.write a n v b = m b :=
  if_neg (Nat.not_lt.mpr h)

end Memory

/-- The machine with a memory of bytes, which reserves nothing and has no functions to call. -/
abbrev Target.bytes (T : Target) : Target := { T with
    World := Memory
    load := fun
      | .byte, a, m => some (m.read a 1)
      | .word, a, m => some (((m.read a 4).setWidth 32).signExtend 64)
      | .long, a, m => some (m.read a 8)
    store := fun w v a m => some (m.write a w.bytes.toNat v)
    alloc := fun _ _ _ => none
    call := fun _ _ _ => none }

lemma State.Reaches.store {T : Target} {code rest : List Line} {s : State T} {P : State T → Prop} {w : Width}
    {v address : Value} {world : T.World} (h : Seg code s.pc (.instr (.store w v address) :: rest))
    (hw : T.store w (s.value v) (s.value address) s.world = some world)
    (k : { s with world }.next.Reaches code P) : s.Reaches code P :=
  .step (by rw [State.step, h.head]; simp only [exec, hw]; rfl) k

end Ir

open Ir

/-- Where the code that is written stands, it runs to its end, and what is then in the temporary with the
outcome is as `Q` says. -/
def Lower.Does (T : Target) (x : Lower Temp) (Q : BitVec 64 → State T → State T → Prop) : Prop :=
  ∀ e : Emitter, ∃ r e' lines, x e = .ok r e' ∧ e'.lines.toList = e.lines.toList ++ lines ∧
    ∀ (code : List Line) (s : State T), Seg code s.pc lines →
      s.Reaches code fun s' => s'.pc = s.pc + lines.length ∧ Q (s'.temps r) s s'

/-- How many bytes are written to a char in memory. -/
def Symbol.charBytes (s : Symbol) : Nat := if s.isFileScope then 1 else 4

namespace Lower

variable {T : Target} {code : List Line} {s : State T.bytes} {sym : Symbol} {r : Temp} {n : Nat} {e : Emitter}

lemma storeVar_loadVar {ss : Symbols} (char : sym.type = .char) :
    (do storeVar r sym; loadVar ss sym .ident : Lower Temp) e = .ok (some (e.temps + 1))
      ((e.count 1 0).add (.instr (storeInstr sym .word r) :: readLines (some (e.temps + 1)) sym .word)) := by
  have hc : sym.type.cls = .ok .word := by rw [char]; rfl
  have step : stepSize ss sym.type sym.ctype .ident = .ok 1 := by rw [char]; rfl
  simp [bind_eq_ok, storeVar_eq_ok, loadVar, hc, step, stepVarIf_eq_ok, readVar_eq_ok]

lemma char_inMemory (char : sym.type = .char) (size : sym.size = 1) (memory : sym.inMemory = true)
    (seg : Seg code s.pc (.instr (storeInstr sym .word r) :: readLines (some n) sym .word)) :
    s.Reaches code fun s' => s'.pc = s.pc + (readLines (some n) sym .word).length + 1 ∧
      (s'.temps (some n)).setWidth 32 = ((s.temps r).setWidth 8).setWidth 32 ∧ s'.frame = s.frame ∧
      ∀ a, sym.charBytes ≤ (a - s.value (.named sym.storageName)).toNat → s'.world a = s.world a := by
  have read : readLines (some n) sym .word =
      [.instr (.set (.temp (some n)) .word (.load .byte (.named sym.storageName)))] := by
    simp [readLines, memory, loadLines, size, Load.ofSize?]
  have stored : storeInstr sym .word r = .store (if sym.isFileScope then .byte else .cls .word) (.temp r)
      (.named sym.storageName) := by
    unfold storeInstr Symbol.storageName
    cases file : sym.isFileScope with
    | true => simp [char]
    | false =>
      have addr : sym.hasAddr = true := by simpa [Symbol.inMemory, file] using memory
      simp [addr]
  rw [read] at seg ⊢
  rw [stored] at seg
  have width : (if sym.isFileScope then Width.byte else .cls .word).bytes.toNat = sym.charBytes := by
    unfold Symbol.charBytes
    split_ifs <;> rfl
  have positive : 0 < sym.charBytes := by
    unfold Symbol.charBytes
    split_ifs <;> decide
  -- The address of the variable is the same before and after it is written.
  have address (m : T.bytes.World) : ({ s with world := m } : State T.bytes).next.value (.named sym.storageName) =
      s.value (.named sym.storageName) := by
    cases sym.storageName <;> rfl
  refine .store seg rfl (.set seg.tail rfl (.here ⟨rfl, ?_, rfl, fun a outside => ?_⟩))
  · rw [State.next_temps, State.setTemp_temps, if_pos rfl, address, State.next_world, width,
      Memory.read_write_byte positive]
    simp [State.value, Target.fit]
  · exact Memory.write_outside (width ▸ outside)

lemma char_inRegister (register : sym.inMemory = false)
    (seg : Seg code s.pc (.instr (storeInstr sym .word r) :: readLines (some n) sym .word)) :
    s.Reaches code fun s' => s'.pc = s.pc + (readLines (some n) sym .word).length + 1 ∧
      (s'.temps (some n)).setWidth 32 = (s.temps r).setWidth 32 ∧ s'.world = s.world ∧
      ∀ name, name ≠ sym.name → s'.frame name = s.frame name := by
  obtain ⟨addr, file⟩ : sym.hasAddr = false ∧ sym.isFileScope = false := by
    simpa [Symbol.inMemory] using register
  simp only [readLines, register, storeInstr, addr, file, Symbol.storageName] at seg ⊢
  refine .setFrame seg rfl (.set seg.tail rfl (.here ⟨rfl, ?_, rfl, fun name other => ?_⟩))
  · simp [State.value, Target.fit]
  · simp [other]

lemma cast_char {source : CType} {size : Int64} (h : source.scalarSize = .ok size) :
    Lower.cast r source .char e = if size = 1 then .ok r (e.count 1 0) else .ok (some (e.temps + 1))
      ((e.count 1 0).add [.instr (.set (.temp (some (e.temps + 1))) .word (.copy (.temp r)))]) := by
  have plain : CType.char.isPointer = false := rfl
  have word : CType.char.cls = .ok .word := rfl
  have byte : CType.char.scalarSize = .ok 1 := rfl
  rcases scalarSize_cases h with rfl | rfl | rfl <;> simp [Lower.cast, h, plain, word, byte]

end Lower

open Lower

/-- Chars among the locals stand in memory. Whatever is written to a char in memory is read modulo 256, and
no other byte changes but, in a frame, the three behind it; in a register 32 bits are kept. Neither does a
conversion to char cut what it is given. -/
theorem char_narrows (T : Target) (r : Temp) :
    (∀ d : Definition, ∀ id ∈ d.locals, (d.settled.get id).type = .char → (d.settled.get id).inMemory = true) ∧
    (∀ (ss : Symbols) (sym : Symbol), sym.type = .char → sym.size = 1 →
      Does T.bytes (do storeVar r sym; loadVar ss sym .ident) fun v s s' =>
        if sym.inMemory then
          v.setWidth 32 = ((s.temps r).setWidth 8).setWidth 32 ∧ s'.frame = s.frame ∧
            ∀ a, sym.charBytes ≤ (a - s.value (.named sym.storageName)).toNat → s'.world a = s.world a
        else
          v.setWidth 32 = (s.temps r).setWidth 32 ∧ s'.world = s.world ∧
            ∀ name, name ≠ sym.name → s'.frame name = s.frame name) ∧
    ∀ source, isScalar source = true → Does T.bytes (cast r source .char) fun v s s' =>
      v.setWidth 32 = (s.temps r).setWidth 32 ∧ s'.frame = s.frame ∧ s'.world = s.world := by
  refine ⟨?_, ?_, ?_⟩
  · intro d id mem char
    rw [Definition.settled_type] at char
    simp [Symbol.inMemory, Definition.settled_get, Symbol.addressed, mem, char]
  · intro ss sym char size e
    refine ⟨_, _, _, storeVar_loadVar char, Emitter.add_lines .., fun code s seg => ?_⟩
    cases memory : sym.inMemory with
    | true => exact char_inMemory char size memory seg
    | false => exact char_inRegister memory seg
  · intro source scalar e
    obtain ⟨n, size⟩ := (CType.ok_of_isScalar scalar).2
    by_cases one : n = 1
    · exact ⟨_, _, [], (cast_char size).trans (if_pos one), by simp, fun code s _ => .here ⟨rfl, rfl, rfl, rfl⟩⟩
    · refine ⟨_, _, _, (cast_char size).trans (if_neg one), Emitter.add_lines .., fun code s seg =>
        .set seg rfl (.here ⟨rfl, ?_, rfl, rfl⟩)⟩
      simp [State.value, Target.fit]

theorem char_narrows_homes :
    let source : Text := "char f(char a, char b) \x7b char c; char *p; p = &b; c = a; return c; \x7d"
    let functions := (Session.compile { file := "t.c" } source).1.functions
    (functions.flatMap fun d => (d.symbol.members ++ d.locals).map fun id =>
        ((d.settled.get id).type, (d.settled.get id).inMemory)) =
      [(.char, false), (.char, true), (.char, true), (.charPointer, false)] ∧
    ∀ d ∈ functions, ∀ id ∈ d.symbol.members ++ d.locals, (d.settled.get id).type = .char →
      Does Target.bare.bytes (do storeVar (some 1) (d.settled.get id); loadVar d.settled (d.settled.get id) .ident)
        fun v s _ => (d.settled.get id).inMemory = true →
          v.setWidth 32 = ((s.temps (some 1)).setWidth 8).setWidth 32 := by
  intro source functions
  have sizes : ∀ d ∈ functions, ∀ id ∈ d.symbol.members ++ d.locals, (d.settled.get id).type = .char →
      (d.settled.get id).size = 1 := by decide +kernel
  refine ⟨by decide +kernel, fun d hd id hid char e => ?_⟩
  obtain ⟨r, e', lines, run, written, runs⟩ :=
    (char_narrows .bare (some 1)).2.1 d.settled _ char (sizes d hd id hid char) e
  refine ⟨r, e', lines, run, written, fun code s seg => (runs code s seg).mono ?_⟩
  rintro s' ⟨pc, reads⟩
  refine ⟨pc, fun memory => ?_⟩
  rw [if_pos memory] at reads
  exact reads.1

/-- What is left of 256 as a char is 0, but it is not less than 10. -/
theorem compile_keeps_word :
    let source : Text := "int f(int x) \x7b return (char)x < 10; \x7d"
    let s := State.entered fun _ => 256
    (∃ code, (Session.compile { file := "t.c" } source).1.outcome = .ok code) ∧
      (texts (Session.compile { file := "t.c" } source).2.out.lines.toList).length = 1 ∧
      ∀ text ∈ texts (Session.compile { file := "t.c" } source).2.out.lines.toList,
        s.Returns text 0 ∧ ¬ s.Returns text 1 := by
  intro source s
  obtain ⟨code, ok⟩ := exists_of_isSome (x := (Session.compile { file := "t.c" } source).1.outcome)
    (by decide +kernel)
  have run : ∀ text ∈ texts (Session.compile { file := "t.c" } source).2.out.lines.toList,
      ((s.run text 8).map fun s' => (text[s'.pc]?, s'.result.setWidth 32)) =
        some (some (.ret true), 0) := by decide +kernel
  refine ⟨⟨code, ok⟩, by decide +kernel, fun text mem => ?_⟩
  have returns := State.returns_iff_of_run (run text mem)
  exact ⟨(returns 0).mpr rfl, fun one => absurd ((returns 1).mp one) (by decide)⟩

end SmallC
