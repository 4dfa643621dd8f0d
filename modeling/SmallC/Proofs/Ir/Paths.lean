import SmallC.Proofs.Ir.Lines

/-!
# Temporaries along paths

Which temporaries a line reads and which it sets, and the paths that control can take through the
code of a function, whatever the values of conditions are. A temporary must have been set on every
path to a line that reads it.

`Checked` is a way to show this that looks at each line once. It takes an annotation: for each label,
the temporaries that are set whenever control comes to it.
-/

namespace SmallC.Ir

open Set

variable {start : Nat} {passed : List Line} (a : List Line) (line : Line) (b : List Line)

def Value.temps : Value → List Temp
  | .temp t => [t]
  | _ => []

def Rhs.temps : Rhs → List Temp
  | .copy v | .load _ v => v.temps
  | .arith _ a b | .compare _ _ a b => a.temps ++ b.temps
  | .extend _ t => [t]
  | .alloc .. => []
  | .call _ args => args.map Prod.snd

def Instr.reads : Instr → List Temp
  | .set _ _ rhs => rhs.temps
  | .call _ args => args.map Prod.snd
  | .store _ v address => v.temps ++ address.temps
  | .jump _ => []
  | .branch t _ _ => [t]

def Line.reads : Line → List Temp
  | .instr i => i.reads
  | _ => []

/-- The temporary that a line sets, and the class it sets it with. -/
def Line.sets? : Line → Option (Temp × Cls)
  | .instr (.set (.temp t) c _) => some (t, c)
  | _ => none

def Line.temps (line : Line) : List Temp := line.reads ++ (line.sets?.map Prod.fst).toList

def setsOf (code : List Line) : List (Temp × Cls) := code.filterMap Line.sets?

@[simp] lemma setsOf_nil : setsOf [] = [] := rfl

@[simp] lemma setsOf_cons (code : List Line) : setsOf (line :: code) = line.sets?.toList ++ setsOf code := by
  cases h : line.sets? <;> simp [setsOf, h]

@[simp] lemma setsOf_append : setsOf (a ++ b) = setsOf a ++ setsOf b := List.filterMap_append

/-! ## Paths -/

/-- Where control can be after a place: at the next line, or at a label that the line goes to. -/
inductive Follows (code : List Line) (p : Nat) : Nat → Prop
  | label {l} (here : code[p]? = some (.label l)) : Follows code p (p + 1)
  | next {i} (here : code[p]? = some (.instr i)) (on : i.targets = []) : Follows code p (p + 1)
  | jump {i l q} (here : code[p]? = some (.instr i)) (goes : l ∈ i.targets)
      (there : code[q]? = some (.label l)) : Follows code p q

/-- A path from `start`: the lines that are passed and the place come to. -/
inductive Path (code : List Line) (start : Nat) : List Line → Nat → Prop
  | here : Path code start [] start
  | step {passed p q line} (path : Path code start passed p) (passing : code[p]? = some line)
      (follows : Follows code p q) : Path code start (passed ++ [line]) q

def Line.goesOn : Line → Bool
  | .label _ => true
  | .instr i => i.targets = []
  | _ => false

lemma Path.straight (start k : Nat) (on : ∀ line ∈ (code.drop start).take k, line.goesOn = true)
    (long : start + k ≤ code.length) : Path code start ((code.drop start).take k) (start + k) := by
  induction k with
  | zero => exact .here
  | succ k ih =>
    have lt : start + k < code.length := by omega
    have here : (code.drop start)[k]? = some code[start + k] := by simp [lt]
    rw [List.take_add_one, here, Option.toList_some] at on ⊢
    have path := ih (fun line hl => on line (List.mem_append_left _ hl)) (by omega)
    have passing : code[start + k]? = some code[start + k] := List.getElem?_eq_getElem lt
    have goesOn := on code[start + k] (by simp)
    refine path.step passing ?_
    cases hline : code[start + k] with
    | label l => exact .label (hline ▸ passing)
    | instr i =>
      rw [hline] at goesOn
      exact .next (hline ▸ passing) (of_decide_eq_true goesOn)
    | _ =>
      rw [hline] at goesOn
      cases goesOn

/-- On every path from `start` a temporary is set before it is read. -/
def SetBeforeRead (code : List Line) (start : Nat) : Prop :=
  ∀ passed p line, Path code start passed p → code[p]? = some line →
    ∀ t ∈ line.reads, t ∈ (setsOf passed).map Prod.fst

lemma SetBeforeRead.straight (h : SetBeforeRead code start) (k : Nat)
    (on : ∀ line ∈ (code.drop start).take k, line.goesOn = true) (long : start + k ≤ code.length) :
    ∀ line ∈ code[start + k]?, ∀ t ∈ line.reads,
      t ∈ (setsOf ((code.drop start).take k)).map Prod.fst := by
  intro line hl t ht
  exact h _ _ line (.straight start k on long) hl t ht

/-! ## Annotations -/

/-- The temporaries known to be set after a line, from those before it. After a line that does not
go on, nothing has to be true. -/
def Line.known (ann : Int → Set Nat) (A : Set Nat) : Line → Set Nat
  | .label l => ann l
  | .instr (.set (.temp (some n)) _ _) => insert n A
  | .instr (.jump _) | .instr (.branch ..) | .ret _ => univ
  | _ => A

/-- The line reads what is known to be set, and what the labels that it goes to ask for is set. -/
structure Line.Allowed (ann : Int → Set Nat) (A : Set Nat) (line : Line) : Prop where
  reads : ∀ t ∈ line.reads, ∃ n ∈ A, t = some n
  targets : ∀ l ∈ line.targets, ann l ⊆ A
  placed : ∀ l, line.placed? = some l → ann l ⊆ A

/-- Every line is allowed, from what is known before the first one. -/
def Checked (ann : Int → Set Nat) : Set Nat → List Line → Prop
  | _, [] => True
  | A, line :: code => line.Allowed ann A ∧ Checked ann (line.known ann A) code

def knownAfter (ann : Int → Set Nat) (A : Set Nat) (code : List Line) : Set Nat :=
  code.foldl (Line.known ann) A

variable {ann : Int → Set Nat} {A B : Set Nat} {code : List Line} {line : Line}

@[simp] lemma checked_nil : Checked ann A [] := trivial

@[simp] lemma checked_cons :
    Checked ann A (line :: code) ↔ line.Allowed ann A ∧ Checked ann (line.known ann A) code := Iff.rfl

@[simp] lemma knownAfter_nil : knownAfter ann A [] = A := rfl

@[simp] lemma knownAfter_cons :
    knownAfter ann A (line :: code) = knownAfter ann (line.known ann A) code := rfl

lemma knownAfter_append :
    knownAfter ann A (a ++ b) = knownAfter ann (knownAfter ann A a) b := List.foldl_append

lemma checked_append : Checked ann A (a ++ b) ↔ Checked ann A a ∧ Checked ann (knownAfter ann A a) b := by
  induction a generalizing A with
  | nil => simp
  | cons line a ih => simp [ih, and_assoc]

lemma Line.known_mono (h : A ⊆ B) (line : Line) : line.known ann A ⊆ line.known ann B := by
  unfold Line.known
  split
  · exact subset_rfl
  · exact insert_subset_insert h
  · exact subset_rfl
  · exact subset_rfl
  · exact subset_rfl
  · exact h

lemma Line.Allowed.mono (h : A ⊆ B) (ha : line.Allowed ann A) : line.Allowed ann B where
  reads t ht := by
    obtain ⟨n, hn, rfl⟩ := ha.reads t ht
    exact ⟨n, h hn, rfl⟩
  targets l hl := (ha.targets l hl).trans h
  placed l hl := (ha.placed l hl).trans h

lemma knownAfter_mono (h : A ⊆ B) : knownAfter ann A code ⊆ knownAfter ann B code := by
  induction code generalizing A B with
  | nil => exact h
  | cons line code ih => exact ih (line.known_mono h)

lemma Checked.mono (h : A ⊆ B) (hc : Checked ann A code) : Checked ann B code := by
  induction code generalizing A B with
  | nil => trivial
  | cons line code ih => exact ⟨hc.1.mono h, ih (line.known_mono h) hc.2⟩

lemma Checked.congr (hc : Checked ann A code) (ann' : Int → Set Nat)
    (same : ∀ l, l ∈ labelsOf code ∨ l ∈ jumpsOf code → ann' l = ann l) :
    Checked ann' A code ∧ knownAfter ann' A code = knownAfter ann A code := by
  induction code generalizing A with
  | nil => exact ⟨trivial, rfl⟩
  | cons line code ih =>
    have here : line.known ann' A = line.known ann A := by
      unfold Line.known
      split
      · exact same _ (.inl (.head _))
      all_goals rfl
    have allowed : line.Allowed ann' A := by
      refine ⟨hc.1.reads, fun l hl => ?_, fun l hl => ?_⟩
      · rw [same l (.inr (List.mem_append_left _ hl))]
        exact hc.1.targets l hl
      · rw [same l (.inl (by rw [labelsOf_cons, hl]; exact .head _))]
        exact hc.1.placed l hl
    obtain ⟨rest, known⟩ := ih hc.2 fun l hl => same l (by simp; tauto)
    rw [checked_cons, knownAfter_cons, knownAfter_cons, here]
    exact ⟨⟨allowed, rest⟩, known⟩

variable {p : Nat}

lemma Checked.allowed (hc : Checked ann A code) (hp : code[p]? = some line) :
    line.Allowed ann (knownAfter ann A (code.take p)) := by
  obtain ⟨lt, rfl⟩ := List.getElem?_eq_some_iff.mp hp
  rw [← List.take_append_drop p code, checked_append, List.drop_eq_getElem_cons lt] at hc
  exact hc.2.1

lemma knownAfter_take_succ (hp : code[p]? = some line) :
    knownAfter ann A (code.take (p + 1)) = line.known ann (knownAfter ann A (code.take p)) := by
  obtain ⟨lt, rfl⟩ := List.getElem?_eq_some_iff.mp hp
  rw [List.take_add_one, hp, Option.toList_some, knownAfter_append]
  rfl

def passedSets (passed : List Line) : Set Nat := {n | some n ∈ (setsOf passed).map Prod.fst}

lemma passedSets_append (passed : List Line) (line : Line) :
    passedSets passed ⊆ passedSets (passed ++ [line]) := by
  intro n hn
  simp only [passedSets, mem_ofPred_eq, setsOf_append, List.map_append, List.mem_append] at hn ⊢
  exact .inl hn

lemma Line.known_subset (h : A ⊆ passedSets passed) (on : ∀ l, line ≠ .label l)
    (goes : line.isTerminator = false) : line.known ann A ⊆ passedSets (passed ++ [line]) := by
  have later := h.trans (passedSets_append passed line)
  unfold Line.known
  split
  · exact absurd rfl (on _)
  · refine insert_subset ?_ later
    simp [passedSets, Line.sets?]
  · cases goes
  · cases goes
  · cases goes
  · exact later

/-- What is known at a place is set on every path to it. -/
lemma Checked.path (hc : Checked ann A code) (begins : knownAfter ann A (code.take start) = ∅)
    (path : Path code start passed p) :
    knownAfter ann A (code.take p) ⊆ passedSets passed ∨
      ∃ l, code[p]? = some (.label l) ∧ ann l ⊆ passedSets passed := by
  induction path with
  | here => exact .inl (by simp [begins])
  | @step passed p q line path passing follows ih =>
    have allowed := hc.allowed passing
    -- At a label both cases come to the same.
    have label : ∀ l, line = .label l → ann l ⊆ passedSets passed := by
      rintro l rfl
      rcases ih with known | ⟨m, hm, known⟩
      · exact (allowed.placed l rfl).trans known
      · rw [passing] at hm
        cases hm
        exact known
    have other : (∀ l, line ≠ .label l) → knownAfter ann A (code.take p) ⊆ passedSets passed := by
      intro no
      rcases ih with known | ⟨m, hm, -⟩
      · exact known
      · rw [passing] at hm
        cases hm
        exact absurd rfl (no m)
    cases follows with
    | @label l here =>
      obtain rfl : line = .label l := Option.some.inj (passing.symm.trans here)
      rw [knownAfter_take_succ passing]
      exact .inl ((label l rfl).trans (passedSets_append passed _))
    | @next i here on =>
      obtain rfl : line = .instr i := Option.some.inj (passing.symm.trans here)
      rw [knownAfter_take_succ passing]
      refine .inl (Line.known_subset (other nofun) nofun ?_)
      cases i with
      | jump | branch => cases on
      | _ => rfl
    | @jump i l q here goes there =>
      obtain rfl : line = .instr i := Option.some.inj (passing.symm.trans here)
      refine .inr ⟨l, there, ?_⟩
      exact ((allowed.targets l goes).trans (other nofun)).trans (passedSets_append passed _)

/-- Code that passes the check sets temporaries before it reads them. -/
theorem Checked.setBeforeRead (hc : Checked ann A code) (begins : knownAfter ann A (code.take start) = ∅) :
    SetBeforeRead code start := by
  intro passed p line path passing t ht
  obtain ⟨n, hn, rfl⟩ := (hc.allowed passing).reads t ht
  rcases hc.path begins path with known | ⟨l, hl, -⟩
  · exact known hn
  · rw [passing] at hl
    cases hl
    cases ht

attribute [simp] Value.temps Rhs.temps Instr.reads Line.reads Line.known

end SmallC.Ir
