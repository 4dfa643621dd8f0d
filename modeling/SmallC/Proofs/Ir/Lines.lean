import Mathlib
import SmallC.Ir

/-!
# Labels and jumps in lines of code

Which labels stand in a list of lines, where its jumps go, and what can follow what. A jump or a
branch ends a run of instructions, and only a label begins another one: `scan` follows a list of
lines with the one bit that this needs, whether the line before was such an end.
-/

namespace SmallC.Ir

variable {inner : List Line} (c : Bool) (line : Line) (a code b : List Line)

def Line.placed? : Line → Option Int
  | .label l => some l
  | _ => none

def Instr.targets : Instr → List Int
  | .jump l => [l]
  | .branch _ yes no => [yes, no]
  | _ => []

def Line.targets : Line → List Int
  | .instr i => i.targets
  | _ => []

def labelsOf (code : List Line) : List Int := code.filterMap Line.placed?

def jumpsOf (code : List Line) : List Int := code.flatMap Line.targets

@[simp] lemma labelsOf_nil : labelsOf [] = [] := rfl

@[simp] lemma labelsOf_cons : labelsOf (line :: code) = line.placed?.toList ++ labelsOf code := by
  cases h : line.placed? <;> simp [labelsOf, h]

@[simp] lemma labelsOf_append : labelsOf (a ++ b) = labelsOf a ++ labelsOf b :=
  List.filterMap_append

@[simp] lemma jumpsOf_nil : jumpsOf [] = [] := rfl

@[simp] lemma jumpsOf_cons : jumpsOf (line :: code) = line.targets ++ jumpsOf code := rfl

@[simp] lemma jumpsOf_append : jumpsOf (a ++ b) = jumpsOf a ++ jumpsOf b := List.flatMap_append

lemma mem_labelsOf {l : Int} {code : List Line} : l ∈ labelsOf code ↔ Line.label l ∈ code := by
  simp only [labelsOf, List.mem_filterMap]
  constructor
  · rintro ⟨line, mem, h⟩
    cases line with
    | label m =>
      obtain rfl := Option.some.inj h
      exact mem
    | _ => cases h
  · intro mem
    exact ⟨.label l, mem, rfl⟩

/-- A line of the code between the head and the end of a function. -/
def Line.IsInner : Line → Prop
  | .label _ | .instr _ => True
  | _ => False

def Line.isTerminator : Line → Bool
  | .instr (.jump _) | .instr (.branch ..) | .ret _ => true
  | _ => false

/-- Whether a line ends a run of instructions, where `closed` says that the one before it did;
none if it must not stand there. -/
def Line.flow (closed : Bool) : Line → Option Bool
  | .label _ => some false
  | line => if closed then none else some line.isTerminator

def scan (closed : Bool) (code : List Line) : Option Bool := code.foldlM Line.flow closed

@[simp] lemma scan_nil : scan c [] = some c := rfl

@[simp] lemma scan_cons : scan c (line :: code) = (line.flow c).bind fun d => scan d code := rfl

lemma scan_append : scan c (a ++ b) = (scan c a).bind fun d => scan d b := List.foldlM_append

/-! ## Functions in a file -/

def Line.isOpening : Line → Bool
  | .opening .. => true
  | _ => false

def Line.IsData : Line → Prop
  | .data .. | .string .. => True
  | _ => False

/-- The functions in the lines of a file, each from its head to the next closing brace; `text` is
the one begun. -/
def textsFrom : (text : Option (List Line)) → List Line → List (List Line)
  | none, [] => []
  | some text, [] => [text]
  | none, line :: lines => textsFrom (if line.isOpening then some [line] else none) lines
  | some text, line :: lines =>
    if line = .closing then (text ++ [line]) :: textsFrom none lines
    else textsFrom (some (text ++ [line])) lines

def texts (lines : List Line) : List (List Line) := textsFrom none lines

lemma texts_data {line : Line} (h : line.IsData) (lines : List Line) :
    texts (line :: lines) = texts lines := by
  cases line with
  | data | string => rfl
  | _ => exact h.elim

lemma textsFrom_inner (h : .closing ∉ inner) (text rest : List Line) :
    textsFrom (some text) (inner ++ .closing :: rest) =
      (text ++ inner ++ [.closing]) :: textsFrom none rest := by
  induction inner generalizing text with
  | nil => simp [textsFrom]
  | cons line inner ih =>
    rw [List.mem_cons, not_or] at h
    rw [List.cons_append, textsFrom, if_neg (Ne.symm h.1), ih h.2]
    simp

lemma texts_function {head : Line} (hh : head.isOpening) (h : .closing ∉ inner) (rest : List Line) :
    texts (head :: inner ++ .closing :: rest) = (head :: inner ++ [.closing]) :: texts rest := by
  rw [texts, List.cons_append, textsFrom, if_pos hh, textsFrom_inner h]
  rfl

/-! ## Flow -/

/-- What instructions one after another do to the flow, or no lines at all. -/
def through (silent closed : Bool) : Option Bool :=
  if silent then some closed else if closed then none else some false

end SmallC.Ir
