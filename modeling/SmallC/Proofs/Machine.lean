import SmallC.Proofs.Ir.Lines

/-!
# Running code

A machine that runs the lines of one function. Temporaries and variables of the frame hold 64 bits. An
instruction on words looks at the lower 32 bits of its operands and wraps; what the upper half of a register
holds after it is up to the machine. Comparisons are signed, a shift is by the amount modulo the width, and a
branch is taken by whether a word is zero. Memory, calls and the addresses of names are a parameter.
-/

namespace SmallC.Ir

structure Target where
  World : Type
  load : Load → BitVec 64 → World → Option (BitVec 64)
  store : Width → BitVec 64 → BitVec 64 → World → Option World
  alloc : Nat → Int64 → World → Option (BitVec 64 × World)
  call : Text → List (BitVec 64) → World → Option (BitVec 64 × World)
  global : Text → BitVec 64
  string : Int → BitVec 64
  /-- The register that a word is written to. -/
  pad : BitVec 32 → BitVec 64
  low_pad : ∀ v, (pad v).setWidth 32 = v

attribute [simp] Target.low_pad

structure State (T : Target) where
  pc : Nat
  temps : Temp → BitVec 64
  frame : Text → BitVec 64
  incoming : Text → BitVec 64
  result : BitVec 64
  world : T.World

def Target.bare : Target where
  World := Unit
  load _ _ _ := none
  store _ _ _ _ := none
  alloc _ _ _ := none
  call _ _ _ := none
  global _ := 0
  string _ := 0
  pad v := v.setWidth 64
  low_pad v := by simp

/-- A function is entered at its second line, below its head. -/
def State.entered (frame : Text → BitVec 64) : State .bare :=
  { pc := 1, temps := fun _ => 0, frame, incoming := fun _ => 0, result := 0, world := () }

/-! ## Operations -/

def Arith.apply {w : Nat} (op : Arith) (a b : BitVec w) : Option (BitVec w) :=
  match op with
  | .add => some (a + b)
  | .sub => some (a - b)
  | .mul => some (a * b)
  | .div => if b = 0 then none else some (a.sdiv b)
  | .rem => if b = 0 then none else some (a.srem b)
  | .and => some (a &&& b)
  | .or => some (a ||| b)
  | .xor => some (a ^^^ b)
  | .shl => some (a <<< (b.toNat % w))
  | .shr => some (a >>> (b.toNat % w))

def Relation.holds {w : Nat} (r : Relation) (a b : BitVec w) : Bool :=
  match r with
  | .eq => a = b
  | .ne => a ≠ b
  | .lt => a.slt b
  | .gt => b.slt a
  | .le => a.sle b
  | .ge => b.sle a

def Relation.test (r : Relation) (c : Cls) (a b : BitVec 64) : Bool :=
  match c with
  | .word => r.holds (a.setWidth 32) (b.setWidth 32)
  | _ => r.holds a b

def Extend.apply (k : Extend) (v : BitVec 64) : BitVec 64 :=
  match k with
  | .byte => (v.setWidth 8).setWidth 64
  | .signed .word => (v.setWidth 32).signExtend 64
  | .signed _ => v

namespace Target

variable (T : Target)

def fit (c : Cls) (v : BitVec 64) : BitVec 64 :=
  match c with
  | .word => T.pad (v.setWidth 32)
  | _ => v

def arith (c : Cls) (op : Arith) (a b : BitVec 64) : Option (BitVec 64) :=
  match c with
  | .word => (op.apply (a.setWidth 32) (b.setWidth 32)).map T.pad
  | .long => op.apply a b
  | .blank => none

end Target

namespace State

variable {T : Target}

def value (s : State T) : Value → BitVec 64
  | .temp t => s.temps t
  | .named (.global name) => T.global name
  | .named (.frame name) => s.frame name
  | .int v => v.toBitVec
  | .string l => T.string l
  | .incoming name => s.incoming name

/-- The outcome of the right side of an instruction of a class. -/
def compute (s : State T) (c : Cls) : Rhs → Option (BitVec 64 × T.World)
  | .copy v => some (T.fit c (s.value v), s.world)
  | .load k address => (T.load k (s.value address) s.world).map fun v => (T.fit c v, s.world)
  | .arith op a b => (T.arith c op (s.value a) (s.value b)).map fun v => (v, s.world)
  | .compare r d a b =>
    some (T.fit c (if r.test d (s.value a) (s.value b) then 1 else 0), s.world)
  | .extend k t => some (T.fit c (k.apply (s.temps t)), s.world)
  | .alloc align count => T.alloc align count s.world
  | .call f args => T.call f (args.map fun a => T.fit a.1 (s.temps a.2)) s.world

@[simps pc temps frame world result]
def next (s : State T) : State T := { s with pc := s.pc + 1 }

@[simps pc frame world]
def setTemp (s : State T) (t : Temp) (v : BitVec 64) : State T :=
  { s with temps := Function.update s.temps t v }

@[simps pc temps]
def setFrame (s : State T) (name : Text) (v : BitVec 64) : State T :=
  { s with frame := Function.update s.frame name v }

def set (s : State T) (v : BitVec 64) : Dest → Option (State T)
  | .temp t => some (s.setTemp t v)
  | .named (.frame name) => some (s.setFrame name v)
  | .named (.global _) => none
  | .result => some { s with result := v }

def goto (s : State T) (code : List Line) (l : Int) : Option (State T) :=
  (code.findIdx? (· = .label l)).map fun p => { s with pc := p }

def exec (s : State T) (code : List Line) : Instr → Option (State T)
  | .set dest c rhs =>
    (s.compute c rhs).bind fun (v, world) => ({ s with world }.set v dest).map next
  | .call f args =>
    (T.call f (args.map fun a => T.fit a.1 (s.temps a.2)) s.world).map
      fun (_, world) => { s with world }.next
  | .store w v address =>
    (T.store w (s.value v) (s.value address) s.world).map fun world => { s with world }.next
  | .jump l => s.goto code l
  | .branch t yes no => s.goto code (if (s.temps t).setWidth 32 = (0 : BitVec 32) then no else yes)

def step (code : List Line) (s : State T) : Option (State T) :=
  match code[s.pc]? with
  | some (.label _) => some s.next
  | some (.instr i) => s.exec code i
  | _ => none

def run (code : List Line) : Nat → State T → Option (State T)
  | 0, s => some s
  | n + 1, s => (s.step code).bind (run code n)

/-- The run comes to a return, with a word as the outcome. -/
def Returns (code : List Line) (s : State T) (v : BitVec 32) : Prop :=
  ∃ n s', s.run code n = some s' ∧ code[s'.pc]? = some (.ret true) ∧ s'.result.setWidth 32 = v

/-! ## Runs -/

def Reaches (code : List Line) (s : State T) (P : State T → Prop) : Prop :=
  ∃ n s', s.run code n = some s' ∧ P s'

def Lasts (code : List Line) (s : State T) (n : Nat) : Prop :=
  ∃ m s', n ≤ m ∧ s.run code m = some s'

variable {code : List Line} {s s' : State T} {P Q : State T → Prop}
variable {n : Nat}

lemma run_add (m n : Nat) (s : State T) :
    s.run code (m + n) = (s.run code m).bind (run code n) := by
  induction m generalizing s with
  | zero => simp [run]
  | succ m ih =>
    rw [Nat.add_right_comm, run, run]
    cases s.step code with
    | none => rfl
    | some s1 => exact ih s1

namespace Reaches

lemma here (h : P s) : s.Reaches code P := ⟨0, s, rfl, h⟩

lemma step (hs : s.step code = some s') (h : s'.Reaches code P) : s.Reaches code P := by
  obtain ⟨n, s2, hr, hp⟩ := h
  exact ⟨n + 1, s2, by rw [run, hs]; exact hr, hp⟩

lemma bind (h : s.Reaches code P) (k : ∀ s1, P s1 → s1.Reaches code Q) : s.Reaches code Q := by
  obtain ⟨m, s1, h1, hp⟩ := h
  obtain ⟨n, s2, h2, hq⟩ := k s1 hp
  exact ⟨m + n, s2, by rw [run_add, h1]; exact h2, hq⟩

lemma mono (h : s.Reaches code P) (k : ∀ s1, P s1 → Q s1) : s.Reaches code Q :=
  h.bind fun s1 hp => here (k s1 hp)

end Reaches

namespace Lasts

lemma zero (s : State T) : s.Lasts code 0 := ⟨0, s, Nat.le_refl 0, rfl⟩

lemma step (hs : s.step code = some s') (h : s'.Lasts code n) : s.Lasts code (n + 1) := by
  obtain ⟨m, s2, hm, hr⟩ := h
  exact ⟨m + 1, s2, by omega, by rw [run, hs]; exact hr⟩

lemma mono {m : Nat} (h : s.Lasts code n) (hm : m ≤ n) : s.Lasts code m := by
  obtain ⟨k, s2, hk, hr⟩ := h
  exact ⟨k, s2, by omega, hr⟩

end Lasts

lemma Reaches.lasts (h : s.Reaches code fun s1 => s1.Lasts code n) : s.Lasts code n := by
  obtain ⟨m, s1, h1, k, s2, hk, h2⟩ := h
  exact ⟨m + k, s2, by omega, by rw [run_add, h1]; exact h2⟩

end State
end SmallC.Ir
