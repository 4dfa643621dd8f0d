import SmallC.Proofs.Lowering.Effect
import SmallC.Proofs.Outcome
import SmallC.Proofs.Tree.Flow

/-!
# The lines of operations

An operation takes the next temporaries and labels and writes a few lines. For each one, which ones. Its
definition needs no second look then.
-/

namespace SmallC.Lower

open Ir

variable {k size step v : Int64} {op : Op} {f : Symbol} {cs : List (Cls × Temp)} {source target : CType}
variable {α : Type} {e e' : Emitter} {r a : Temp}
variable {u : Unit} {t : CType} {s : Symbol} {args : List (Temp × CType)} {l : Int} {c : Cls}
  {b : Temp} {n : Nat}

/-! ## The writer's own steps -/

@[simp] lemma line_eq_ok {l : Line} : line l e = .ok u e' ↔ e' = e.add [l] := by
  have h : line l e = .ok () (e.add [l]) := by
    simp only [line, Emitter.add]
    rfl
  rw [h]
  simp [eq_comm]

@[simp] lemma newTemp_eq_ok : newTemp e = .ok n e' ↔ n = e.temps + 1 ∧ e' = e.count 1 0 := by
  have h : newTemp e = .ok (e.temps + 1) (e.count 1 0) := by
    simp only [Emitter.count, Int.natCast_zero, Int.add_zero]
    rfl
  rw [h]
  simp [eq_comm]

@[simp] lemma newLabel_eq_ok : newLabel e = .ok l e' ↔ l = e.labels + 1 ∧ e' = e.count 0 1 := by
  have h : newLabel e = .ok (e.labels + 1) (e.count 0 1) := by
    simp only [Emitter.count, Nat.add_zero]
    rfl
  rw [h]
  simp [eq_comm]

lemma newLabels_eq_ok {ls : List Int} (h : newLabels n e = .ok ls e') :
    ls.length = n ∧ ls.Nodup ∧ (∀ l, l ∈ ls ↔ e.labels < l ∧ l ≤ e.labels + n) ∧
      e' = e.count 0 n := by
  induction n generalizing e e' ls with
  | zero =>
    obtain ⟨rfl, rfl⟩ := pure_eq_ok.mp h
    refine ⟨rfl, .nil, fun l => ?_, by simp⟩
    simp
  | succ n ih =>
    obtain ⟨l, e1, h1, h⟩ := bind_eq_ok.mp h
    obtain ⟨ms, e2, h2, h⟩ := bind_eq_ok.mp h
    obtain ⟨rfl, rfl⟩ := newLabel_eq_ok.mp h1
    obtain ⟨length, nodup, mem, rfl⟩ := ih h2
    obtain ⟨rfl, rfl⟩ := pure_eq_ok.mp h
    simp only [Emitter.count_labels] at mem
    refine ⟨by simp [length], List.nodup_cons.mpr ⟨?_, nodup⟩, fun l => ?_, by simp [Nat.add_comm]⟩
    · rw [mem]
      omega
    · rw [List.mem_cons, mem]
      omega

lemma two_newLabels {m : Int} {e1 : Emitter} (h1 : newLabel e = .ok l e1)
    (h2 : newLabel e1 = .ok m e') : l = e.labels + 1 ∧ m = e.labels + 2 ∧ e' = e.count 0 2 := by
  obtain ⟨rfl, rfl⟩ := newLabel_eq_ok.mp h1
  obtain ⟨rfl, rfl⟩ := newLabel_eq_ok.mp h2
  refine ⟨rfl, ?_, by simp⟩
  simp only [Emitter.count_labels]
  omega

@[simp] lemma ofType_eq_ok {x : Except TypeFault α} {a : α} :
    ofType x e = .ok a e' ↔ x = .ok a ∧ e' = e := by
  unfold ofType
  cases x with
  | ok d => simp [eq_comm]
  | error f => simp

@[simp] lemma cls_eq_ok : cls t e = .ok c e' ↔ t.cls = .ok c ∧ e' = e := ofType_eq_ok

@[simp] lemma instr_eq_ok {i : Instr} : instr i e = .ok u e' ↔ e' = e.add [.instr i] := line_eq_ok

@[simp] lemma setTemp_eq_ok {rhs : Rhs} :
    setTemp r c rhs e = .ok u e' ↔ e' = e.add [.instr (.set (.temp r) c rhs)] :=
  line_eq_ok

@[simp] lemma label_eq_ok : label l e = .ok u e' ↔ e' = e.add [.label l] := line_eq_ok

@[simp] lemma jump_eq_ok : jump l e = .ok u e' ↔ e' = e.add [.instr (.jump l)] := line_eq_ok

/-! ## The lines of operations -/

@[simp] lemma loadInt_eq_ok : loadInt v t e = .ok r e' ↔ ∃ c, t.cls = .ok c ∧
      e' = (e.count 1 0).add [.instr (.set (.temp (some (e.temps + 1))) c (.copy (.int v)))] ∧
      r = some (e.temps + 1) := by
  simp [loadInt]

@[simp] lemma compare_eq_ok {rel : Relation} : compare rel a b t e = .ok r e' ↔ ∃ c, t.cls = .ok c ∧
      e' = (e.count 1 0).add
        [.instr (.set (.temp (some (e.temps + 1))) c (.compare rel c (.temp a) (.temp b)))] ∧
      r = some (e.temps + 1) := by
  simp [compare]

@[simp] lemma setConstant_eq_ok : setConstant r v t e = .ok u e' ↔ ∃ c, t.cls = .ok c ∧
      e' = e.add [.instr (.set (.temp r) c (.copy (.int v)))] := by
  simp [setConstant]

@[simp] lemma move_eq_ok {target : Temp} : move r target t e = .ok u e' ↔ ∃ c, t.cls = .ok c ∧
      e' = e.add [.instr (.set (.temp target) c (.copy (.temp r)))] := by
  simp [move]

@[simp] lemma arith_eq_ok :
    arith op a b t e = .ok r e' ↔ ∃ c f, t.cls = .ok c ∧ op.arith? = some f ∧
      e' = e.add [.instr (.set (.temp a) c (.arith f (.temp a) (.temp b)))] ∧ r = a := by
  unfold arith
  cases op.arith? <;> simp

def unaryRhs (op : Op) (c : Cls) (a : Temp) : Option Rhs :=
  match op with
  | .negate => some (.arith .sub (.int 0) (.temp a))
  | .invert => some (.arith .xor (.temp a) (.int (-1)))
  | .logNot => some (.compare .eq c (.temp a) (.int 0))
  | _ => none

@[simp] lemma unary_eq_ok :
    unary op a t e = .ok r e' ↔ ∃ c rhs, t.cls = .ok c ∧ unaryRhs op c a = some rhs ∧
      e' = e.add [.instr (.set (.temp a) c rhs)] ∧ r = a := by
  cases op <;> simp [unary, unaryRhs]

@[simp] lemma jumpUnlessEqual_eq_ok : jumpUnlessEqual a b l t e = .ok u e' ↔ ∃ c, t.cls = .ok c ∧
      e' = (e.count 1 1).add
        [.instr (.set (.temp (some (e.temps + 1))) c (.compare .ne c (.temp a) (.temp b))),
          .instr (.branch (some (e.temps + 1)) l (e.labels + 1)), .label (e.labels + 1)] := by
  simp [jumpUnlessEqual]

lemma jumpUnlessTrue_eq_ok : jumpUnlessTrue r l e = .ok u e' ↔ e' = (e.count 2 1).add
        [.instr (.set (.temp (some (e.temps + 1))) .word (.copy (.int 1))),
          .instr (.set (.temp (some (e.temps + 2))) .word
            (.compare .ne .word (.temp r) (.temp (some (e.temps + 1))))),
          .instr (.branch (some (e.temps + 2)) l (e.labels + 1)), .label (e.labels + 1)] := by
  simp [jumpUnlessTrue, CType.cls, CType.isPointer]

/-- The jump that a value that was tested against zero decides, where `next` is the line after. -/
def decision (parent : Op) (outcome : Temp) (l next : Int) : List Line :=
  match parent with
  | .ifElse | .whileLoop | .logAnd => [.instr (.branch outcome next l)]
  | .logOr => [.instr (.branch outcome l next)]
  | _ => []

lemma truth_eq_ok {parent : Op} : truth a parent l t e = .ok r e' ↔ ∃ c, t.cls = .ok c ∧
      e' = (e.count 1 1).add
        ([.instr (.set (.temp (some (e.temps + 1))) .long (.compare .ne c (.temp a) (.int 0)))] ++
          decision parent (some (e.temps + 1)) l (e.labels + 1) ++ [.label (e.labels + 1)]) ∧
      r = some (e.temps + 1) := by
  cases parent <;> simp [truth, decision]

def storeInstr (s : Symbol) (c : Cls) (r : Temp) : Instr :=
  if s.isFileScope then
    .store (if s.type = .char then .byte else .cls c) (.temp r) (.named (.global s.name))
  else if s.hasAddr then .store (.cls c) (.temp r) (.named (.frame s.name))
  else .set (.named (.frame s.name)) c (.copy (.temp r))

@[simp] lemma storeVar_eq_ok : storeVar r s e = .ok u e' ↔ ∃ c, s.type.cls = .ok c ∧
      e' = e.add [.instr (storeInstr s c r)] := by
  unfold storeVar storeInstr
  by_cases h : s.isFileScope
  · simp [h]
  · by_cases ha : s.hasAddr <;> simp [h, ha]

lemma leave_eq_ok (h : leave r f e = .ok u e') :
    r = none ∧ e' = e.add [.instr (.jump f.endLabel)] ∨ ∃ n c, r = some n ∧ f.type.cls = .ok c ∧
      e' = e.add [.instr (.set .result c (.copy (.temp r))), .instr (.jump f.endLabel)] := by
  cases r with
  | none => exact .inl ⟨rfl, by simpa [leave] using h⟩
  | some n =>
    obtain ⟨c, hc, he⟩ : ∃ c, f.type.cls = .ok c ∧ e' = _ := by simpa [leave] using h
    exact .inr ⟨n, c, rfl, hc, he⟩

/-! ## Variables -/

def loadLines (r : Temp) (size : Int64) (address : Value) : List Line :=
  match Load.ofSize? size with
  | some (c, k) => [.instr (.set (.temp r) c (.load k address))]
  | none => []

def storeLines (size : Int64) (value address : Value) : List Line :=
  match Width.ofSize? size with
  | some w => [.instr (.store w value address)]
  | none => []

lemma loadSized_eq_ok {address : Value} :
    loadSized r size address e = .ok u e' ↔ e' = e.add (loadLines r size address) := by
  unfold loadSized loadLines
  cases Load.ofSize? size with
  | some k => simp
  | none => simp

lemma storeSized_eq_ok {value address : Value} :
    storeSized size value address e = .ok u e' ↔ e' = e.add (storeLines size value address) := by
  unfold storeSized storeLines
  cases Width.ofSize? size with
  | some w => simp
  | none => simp

/-- Adding to a variable in memory by way of the temporary `n`. -/
def bumpLines (s : Symbol) (offset : Int64) (n : Nat) : List Line :=
  loadLines (some n) s.size (.named s.storageName) ++ (match Load.ofSize? s.size with
      | some (c, _) => [.instr (.set (.temp (some n)) c (.arith .add (.temp (some n)) (.int offset)))]
      | none => []) ++
    storeLines s.size (.temp (some n)) (.named s.storageName)

/-- Moving a variable by a step; one in memory takes the temporary `n`. -/
def stepLines (s : Symbol) (c : Cls) (step : Int64) (n : Nat) : List Line :=
  if s.inMemory then bumpLines s step n
  else [.instr (.set (.named s.storageName) c (.arith .add (.named s.storageName) (.int step)))]

def readLines (r : Temp) (s : Symbol) (c : Cls) : List Line :=
  if s.inMemory then loadLines r s.size (.named s.storageName)
  else [.instr (.set (.temp r) c (.copy (.named s.storageName)))]

lemma bumpSlot_eq_ok {offset : Int64} :
    bumpSlot s offset e = .ok u e' ↔ e' = (e.count 1 0).add (bumpLines s offset (e.temps + 1)) := by
  unfold bumpSlot bumpLines
  cases h : Load.ofSize? s.size with
  | some k => simp [loadSized_eq_ok, storeSized_eq_ok]
  | none => simp [loadSized_eq_ok, storeSized_eq_ok]

def stepTemps (s : Symbol) : Nat := if s.inMemory then 1 else 0

lemma stepVar_eq_ok : stepVar s c step e = .ok u e' ↔
      e' = (e.count (stepTemps s) 0).add (stepLines s c step (e.temps + 1)) := by
  unfold stepVar stepLines stepTemps
  by_cases hm : s.inMemory = true
  · simp [hm, bumpSlot_eq_ok]
  · simp [hm]

lemma stepVarIf_eq_ok {now : Bool} : stepVarIf now s c step e = .ok u e' ↔ e' = if now then
      (e.count (stepTemps s) 0).add (stepLines s c step (e.temps + 1)) else e := by
  cases now with
  | true => exact stepVar_eq_ok
  | false => simp [stepVarIf]

lemma readVar_eq_ok : readVar r s c e = .ok u e' ↔ e' = e.add (readLines r s c) := by
  unfold readVar readLines
  by_cases hm : s.inMemory = true
  · simp [hm, loadSized_eq_ok]
  · simp [hm]

/-- The lines of reading a variable into `n`, with a step before or after. -/
def varLines (s : Symbol) (op : Op) (c : Cls) (step : Int64) (n : Nat) : List Line :=
  if op = .preInc || op = .preDec then stepLines s c step (n + 1) ++ readLines (some n) s c
  else if op = .postInc || op = .postDec then readLines (some n) s c ++ stepLines s c step (n + 1)
  else readLines (some n) s c

lemma forall_mem_varLines {P : Line → Prop} (read : ∀ l ∈ readLines (some n) s c, P l)
    (moved : ∀ l ∈ stepLines s c step (n + 1), P l) : ∀ l ∈ varLines s op c step n, P l := by
  unfold varLines
  split_ifs
  · exact List.forall_mem_append.mpr ⟨moved, read⟩
  · exact List.forall_mem_append.mpr ⟨read, moved⟩
  · exact read

/-- How many temporaries it takes. -/
def varTemps (s : Symbol) (op : Op) : Nat :=
  if op = .preInc || op = .preDec || op = .postInc || op = .postDec then 1 + stepTemps s else 1

lemma loadVar_eq_ok {ss : Symbols} (h : loadVar ss s op e = .ok r e') :
    ∃ c step, s.type.cls = .ok c ∧ stepSize ss s.type s.ctype op = .ok step ∧
      r = some (e.temps + 1) ∧
      e' = (e.count (varTemps s op) 0).add (varLines s op c step (e.temps + 1)) := by
  unfold loadVar at h
  simp only [bind_eq_ok] at h
  obtain ⟨c, e1, h1, n, e2, h2, step, e3, h3, _, e4, h4, _, e5, h5, _, e6, h6, h⟩ := h
  obtain ⟨hc, rfl⟩ := cls_eq_ok.mp h1
  obtain ⟨rfl, rfl⟩ := newTemp_eq_ok.mp h2
  obtain ⟨hstep, rfl⟩ := ofType_eq_ok.mp h3
  obtain ⟨rfl, rfl⟩ := pure_eq_ok.mp h
  refine ⟨c, step, hc, hstep, rfl, ?_⟩
  obtain rfl := stepVarIf_eq_ok.mp h4
  obtain rfl := readVar_eq_ok.mp h5
  obtain rfl := stepVarIf_eq_ok.mp h6
  -- The step stands before the reading, after it, or nowhere.
  by_cases pre : op = .preInc ∨ op = .preDec
  · have post : ¬ (op = .postInc ∨ op = .postDec) := by
      rcases pre with rfl | rfl <;> decide
    simp [varLines, varTemps, pre, post]
  · by_cases post : op = .postInc ∨ op = .postDec
    · simp [varLines, varTemps, pre, post]
    · simp [varLines, varTemps, pre, post]

/-! ## Memory and functions -/

@[simp] lemma loadString_eq_ok : loadString l e = .ok r e' ↔ r = some (e.temps + 1) ∧
      e' = (e.count 1 0).add [.instr (.set (.temp (some (e.temps + 1))) .long (.copy (.string l)))] := by
  simp [loadString, and_comm]

@[simp] lemma address_eq_ok :
    address s e = .ok r e' ↔ r = some (e.temps + 1) ∧ e' = (e.count 1 0).add
      [.instr (.set (.temp (some (e.temps + 1))) .long (.copy (.named s.storageName)))] := by
  simp [address, and_comm]

lemma ofSize?_scalarSize (h : t.scalarSize = .ok size) : (Load.ofSize? size).isNone = false := by
  unfold CType.scalarSize at h
  split at h
  · obtain rfl := Except.ok.inj h; rfl
  · split at h
    · obtain rfl := Except.ok.inj h; rfl
    · obtain rfl := Except.ok.inj h; rfl
    · obtain rfl := Except.ok.inj h; rfl
    · cases h

lemma loadThrough_eq_ok (h : loadThrough a t e = .ok r e') :
    ∃ u size c k, t.valueAt = .ok u ∧ u.scalarSize = .ok size ∧ Load.ofSize? size = some (c, k) ∧
      r = some (e.temps + 1) ∧ e' = (e.count 1 0).add
        [.instr (.set (.temp (some (e.temps + 1))) c (.load k (.temp a)))] := by
  unfold loadThrough at h
  simp only [bind_eq_ok] at h
  obtain ⟨u, e1, h1, h⟩ := h
  obtain ⟨hu, rfl⟩ := ofType_eq_ok.mp h1
  cases hs : u.scalarSize with
  | error f => simp [hs] at h
  | ok size =>
    rw [hs] at h
    simp only [bind_eq_ok] at h
    obtain ⟨n, e2, h2, _, e3, h3, h⟩ := h
    obtain ⟨rfl, rfl⟩ := newTemp_eq_ok.mp h2
    obtain rfl := loadSized_eq_ok.mp h3
    obtain ⟨rfl, rfl⟩ := pure_eq_ok.mp h
    cases hk : Load.ofSize? size with
    | none => simpa [hk] using ofSize?_scalarSize hs
    | some k => exact ⟨u, size, k.1, k.2, hu, hs, hk, rfl, by simp [loadLines, hk]⟩

lemma storeThrough_eq_ok (h : storeThrough r a t e = .ok u e') : ∃ size, t.scalarSize = .ok size ∧
      e' = e.add (storeLines size (.temp r) (.temp a)) := by
  unfold storeThrough at h
  cases hs : t.scalarSize with
  | error f => simp [hs] at h
  | ok size =>
    rw [hs] at h
    exact ⟨size, rfl, storeSized_eq_ok.mp h⟩

lemma argClasses_eq_ok (h : argClasses args e = .ok cs e') : e' = e := by
  induction args generalizing e cs with
  | nil => exact (pure_eq_ok.mp h).2
  | cons arg args ih =>
    unfold argClasses at h
    simp only [bind_eq_ok] at h
    obtain ⟨c, e1, h1, rest, e2, h2, h⟩ := h
    obtain ⟨-, rfl⟩ := cls_eq_ok.mp h1
    obtain ⟨-, rfl⟩ := pure_eq_ok.mp h
    exact ih h2

lemma argClasses_temps (h : argClasses args e = .ok cs e') : cs.map Prod.snd = args.map Prod.fst := by
  induction args generalizing e cs with
  | nil =>
    obtain ⟨rfl, -⟩ := pure_eq_ok.mp h
    rfl
  | cons arg args ih =>
    unfold argClasses at h
    simp only [bind_eq_ok] at h
    obtain ⟨c, e1, h1, rest, e2, h2, h⟩ := h
    obtain ⟨rfl, rfl⟩ := pure_eq_ok.mp h
    simp [ih h2]

/-- The line of a call: a function without a value sets nothing. -/
def callLine (f : Symbol) (n : Nat) (c : Cls) (cs : List (Cls × Temp)) : Line :=
  if f.type = .void then .instr (.call f.name cs)
  else .instr (.set (.temp (some n)) c (.call f.name cs))

lemma call_eq_ok (h : call f args e = .ok r e') :
    ∃ c cs, f.type.cls = .ok c ∧ cs.map Prod.snd = args.map Prod.fst ∧ r = some (e.temps + 1) ∧
      e' = (e.count 1 0).add [callLine f (e.temps + 1) c cs] := by
  unfold call at h
  simp only [bind_eq_ok] at h
  obtain ⟨n, e1, h1, h⟩ := h
  obtain ⟨rfl, rfl⟩ := newTemp_eq_ok.mp h1
  unfold callLine
  by_cases hv : f.type = .void
  · rw [if_pos hv] at h
    simp only [bind_eq_ok] at h
    obtain ⟨cs, e2, h2, _, e3, h3, h⟩ := h
    have temps := argClasses_temps h2
    obtain rfl := argClasses_eq_ok h2
    obtain rfl := instr_eq_ok.mp h3
    obtain ⟨rfl, rfl⟩ := pure_eq_ok.mp h
    exact ⟨.blank, cs, by rw [hv]; rfl, temps, rfl, by simp [hv]⟩
  · rw [if_neg hv] at h
    simp only [bind_eq_ok] at h
    obtain ⟨c, e2, h2, cs, e3, h3, _, e4, h4, h⟩ := h
    obtain ⟨hc, rfl⟩ := cls_eq_ok.mp h2
    have temps := argClasses_temps h3
    obtain rfl := argClasses_eq_ok h3
    obtain rfl := setTemp_eq_ok.mp h4
    obtain ⟨rfl, rfl⟩ := pure_eq_ok.mp h
    exact ⟨c, cs, hc, temps, rfl, by simp [hv]⟩

/-! ## Conversions -/

def extension (t : CType) (c : Cls) : Extend := if t = .char then .byte else .signed c

lemma widen_eq_ok (h : widen a source target e = .ok r e') : source.isWide = true ∧ r = a ∧ e' = e ∨
    source.isWide = false ∧ ∃ c d, source.cls = .ok c ∧ target.cls = .ok d ∧
      r = some (e.temps + 1) ∧ e' = (e.count 1 0).add
        [.instr (.set (.temp (some (e.temps + 1))) d (.extend (extension source c) a))] := by
  unfold widen at h
  by_cases hs : source.isWide = true
  · rw [if_pos (by simpa [CType.isWide] using hs)] at h
    obtain ⟨rfl, rfl⟩ := pure_eq_ok.mp h
    exact .inl ⟨hs, rfl, rfl⟩
  · rw [if_neg (by simpa [CType.isWide] using hs)] at h
    rw [Bool.not_eq_true] at hs
    simp only [bind_eq_ok] at h
    obtain ⟨c, e1, h1, d, e2, h2, m, e3, h3, h⟩ := h
    obtain ⟨hc, rfl⟩ := cls_eq_ok.mp h1
    obtain ⟨hd, rfl⟩ := cls_eq_ok.mp h2
    obtain ⟨rfl, rfl⟩ := newTemp_eq_ok.mp h3
    refine .inr ⟨hs, c, d, hc, hd, ?_⟩
    unfold extension
    split at h
    · rename_i hchar
      simpa [hchar, and_comm] using h
    · rename_i hchar
      simpa [hchar, and_comm] using h

lemma inType_eq_ok (h : inType a source target e = .ok r e') :
    source = target ∧ r = a ∧ e' = e ∨ source ≠ target ∧ widen a source target e = .ok r e' := by
  rcases ite_eq_ok.mp h with ⟨same, h⟩ | ⟨differ, h⟩
  · obtain ⟨rfl, rfl⟩ := pure_eq_ok.mp h
    exact .inl ⟨same, rfl, rfl⟩
  · exact .inr ⟨differ, h⟩

lemma scalarSize_le {m n : Int64} (hm : source.scalarSize = .ok m) (hn : target.scalarSize = .ok n)
    (wide : source.isWide = true) (ne : n ≠ m) : n < m := by
  have hm8 : m = 8 := by
    rw [CType.isWide, Bool.or_eq_true, decide_eq_true_iff] at wide
    rcases wide with rfl | wide
    · exact (Except.ok.inj hm).symm
    · rw [CType.scalarSize, if_pos wide] at hm
      exact (Except.ok.inj hm).symm
  subst hm8
  unfold CType.scalarSize at hn
  split at hn
  · exact absurd (Except.ok.inj hn).symm ne
  · split at hn
    · obtain rfl := Except.ok.inj hn; decide
    · obtain rfl := Except.ok.inj hn; decide
    · exact absurd (Except.ok.inj hn).symm ne
    · cases hn

lemma cast_eq_ok (h : cast a source target e = .ok r e') :
    source.castsFreely target = true ∧ r = a ∧ e' = e.count 1 0 ∨
    source.castsFreely target = false ∧ ∃ k c rhs, target.cls = .ok c ∧ (k = 1 ∨ k = 2) ∧
      (rhs = .copy (.temp a) ∨ ∃ x, rhs = .extend x a) ∧ r = some (e.temps + k) ∧
      e' = (e.count k 0).add [.instr (.set (.temp (some (e.temps + k))) c rhs)] := by
  unfold cast at h
  unfold CType.castsFreely
  simp only [bind_eq_ok] at h
  obtain ⟨n, e1, h1, h⟩ := h
  obtain ⟨rfl, rfl⟩ := newTemp_eq_ok.mp h1
  -- Widening after the temporary that was given out for a copy.
  have widened : ∀ {source target : CType}, source.isWide = false →
      widen a source target (e.count 1 0) = .ok r e' →
      ∃ k c rhs, target.cls = .ok c ∧ (k = 1 ∨ k = 2) ∧
        (rhs = .copy (.temp a) ∨ ∃ x, rhs = Rhs.extend x a) ∧ r = some (e.temps + k) ∧
        e' = (e.count k 0).add [.instr (.set (.temp (some (e.temps + k))) c rhs)] := by
    intro source target narrow h
    rcases widen_eq_ok h with ⟨wide, -⟩ | ⟨-, c, d, -, hd, rfl, rfl⟩
    · rw [narrow] at wide
      cases wide
    · exact ⟨2, d, .extend (extension source c) a, hd, .inr rfl, .inr ⟨_, rfl⟩, rfl, by simp⟩
  by_cases ht : target.isPointer = true
  · rw [if_pos ht] at h
    rw [if_pos ht]
    by_cases hs : source.isPointer = true
    · rw [if_pos hs] at h
      obtain ⟨rfl, rfl⟩ := pure_eq_ok.mp h
      exact .inl ⟨by simp [hs], rfl, rfl⟩
    · rw [if_neg hs] at h
      by_cases wide : source.isWide = true
      · rcases widen_eq_ok h with ⟨-, rfl, rfl⟩ | ⟨narrow, -⟩
        · exact .inl ⟨by simpa [CType.isWide, or_comm] using wide, rfl, rfl⟩
        · rw [wide] at narrow
          cases narrow
      · rw [Bool.not_eq_true] at wide
        exact .inr ⟨by simpa [CType.isWide, and_comm] using wide, widened wide h⟩
  · rw [if_neg ht] at h
    rw [if_neg ht]
    simp only [bind_eq_ok] at h
    obtain ⟨c, e2, h2, old, e3, h3, new, e4, h4, h⟩ := h
    obtain ⟨hc, rfl⟩ := cls_eq_ok.mp h2
    obtain ⟨hold, rfl⟩ := ofType_eq_ok.mp h3
    obtain ⟨hnew, rfl⟩ := ofType_eq_ok.mp h4
    rw [hold, hnew]
    by_cases heq : new = old
    · rw [if_pos heq] at h
      obtain ⟨rfl, rfl⟩ := pure_eq_ok.mp h
      exact .inl ⟨by simp [heq], rfl, rfl⟩
    · rw [if_neg heq] at h
      refine .inr ⟨by simpa [Except.toOption] using Ne.symm heq, ?_⟩
      by_cases hlt : new < old
      · rw [if_pos hlt] at h
        obtain ⟨rfl, rfl⟩ : e' = _ ∧ r = _ := by simpa using h
        exact ⟨1, c, _, hc, .inl rfl, .inl rfl, rfl, rfl⟩
      · rw [if_neg hlt] at h
        refine widened ?_ h
        by_contra hw
        rw [Bool.not_eq_false] at hw
        exact hlt (scalarSize_le hold hnew hw heq)

lemma shiftLeft_eq_ok (h : shiftLeft a k t e = .ok r e') :
    r = some (e.temps + 2) ∧ ∃ lines, e' = (e.count 2 0).add lines ∧
      (lines = [.instr (.set (.temp (some (e.temps + 1))) .long (.extend (.signed .word) a)),
          .instr (.set (.temp (some (e.temps + 2))) .long
            (.arith .shl (.temp (some (e.temps + 1))) (.int k)))] ∨
        lines = [.instr (.set (.temp (some (e.temps + 2))) .long (.arith .shl (.temp a) (.int k)))]) := by
  unfold shiftLeft at h
  simp only [bind_eq_ok] at h
  obtain ⟨size, e1, h1, n, e2, h2, m, e3, h3, h⟩ := h
  obtain ⟨-, rfl⟩ := ofType_eq_ok.mp h1
  obtain ⟨rfl, rfl⟩ := newTemp_eq_ok.mp h2
  obtain ⟨rfl, rfl⟩ := newTemp_eq_ok.mp h3
  split at h
  · obtain ⟨rfl, rfl⟩ : e' = _ ∧ r = _ := by simpa using h
    exact ⟨rfl, _, rfl, .inl rfl⟩
  · obtain ⟨rfl, rfl⟩ : e' = _ ∧ r = _ := by simpa using h
    exact ⟨rfl, _, rfl, .inr rfl⟩

lemma timesConstant_eq_ok (h : timesConstant a k t e = .ok r e') : ∃ size, t.scalarSize = .ok size ∧
      (size < 8 ∧ r = some (e.temps + 1) ∧ e' = (e.count 2 0).add
        [.instr (.set (.temp (some (e.temps + 1))) .long (.extend (.signed .word) a)),
          .instr (.set (.temp (some (e.temps + 2))) .long (.copy (.int k))),
          .instr (.set (.temp (some (e.temps + 1))) .long
            (.arith .mul (.temp (some (e.temps + 1))) (.temp (some (e.temps + 2)))))] ∨
      ¬ size < 8 ∧ r = a ∧ e' = (e.count 1 0).add
        [.instr (.set (.temp (some (e.temps + 1))) .long (.copy (.int k))),
          .instr (.set (.temp a) .long (.arith .mul (.temp a) (.temp (some (e.temps + 1)))))]) := by
  have long : CType.long.cls = .ok .long := rfl
  unfold timesConstant at h
  simp only [bind_eq_ok] at h
  obtain ⟨size, e1, h1, wide, e2, h2, factor, e3, h3, h4⟩ := h
  obtain ⟨hsize, rfl⟩ := ofType_eq_ok.mp h1
  obtain ⟨c, hc, rfl, rfl⟩ := loadInt_eq_ok.mp h3
  obtain ⟨d, f, hd, hf, rfl, rfl⟩ := arith_eq_ok.mp h4
  obtain rfl := Except.ok.inj (long.symm.trans hc)
  obtain rfl := Except.ok.inj (long.symm.trans hd)
  obtain rfl := Option.some.inj ((show Op.multiply.arith? = some .mul from rfl).symm.trans hf)
  refine ⟨size, hsize, ?_⟩
  unfold asLong at h2
  split at h2
  · rename_i lt
    obtain ⟨rfl, rfl⟩ : e2 = _ ∧ r = _ := by simpa using h2
    exact .inl ⟨lt, rfl, by simp⟩
  · rename_i ge
    obtain ⟨rfl, rfl⟩ := pure_eq_ok.mp h2
    exact .inr ⟨ge, rfl, by simp⟩

end SmallC.Lower
