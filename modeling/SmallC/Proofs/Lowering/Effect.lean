import SmallC.Lowering.Emitter
import SmallC.Proofs.Ir.Lines

/-!
# What writing code does

Every step of code generation adds lines, temporaries and labels. An `Effect` says what is known of the lines
without reading them: the labels given out before that they place, the labels that they jump to and do not
place, whether they jump to label 0, and how they take up the flow of control. `Wrote` says that a step had an
effect; labels that are given out and placed do not show outside.
-/

namespace SmallC

variable {l : Line}

namespace Emitter

@[simps temps labels]
def add (e : Emitter) (ls : List Ir.Line) : Emitter := { e with lines := e.lines ++ ls.toArray }

@[simps temps labels lines]
def count (e : Emitter) (temps labels : Nat) : Emitter :=
  { e with temps := e.temps + temps, labels := e.labels + labels }

section
variable (e : Emitter) (ls : List Ir.Line) (m n : Nat)

@[simp] lemma add_lines : (e.add ls).lines.toList = e.lines.toList ++ ls := by simp [add]
@[simp] lemma add_nil : e.add [] = e := by simp [add]
@[simp] lemma count_zero : e.count 0 0 = e := by simp [count]
@[simp] lemma add_add (a b : List Ir.Line) : (e.add a).add b = e.add (a ++ b) := by simp [add]
@[simp] lemma count_add : (e.add ls).count m n = (e.count m n).add ls := rfl
@[simp] lemma count_count (k l : Nat) : (e.count m n).count k l = e.count (m + k) (n + l) := by
  simp [count, Nat.add_assoc, Int.add_assoc]

end
end Emitter

namespace Ir

def Line.Spares (base : Nat) : Line → Prop
  | .instr (.set (.temp (some n)) _ _) => base < n
  | _ => True

/-- An instruction that goes on to the next line and sets no temporary up to `base`. -/
def Line.Plain (base : Nat) : Line → Prop
  | .instr (.set (.temp (some n)) _ _) => base < n
  | .instr (.set ..) | .instr (.call ..) | .instr (.store ..) => True
  | _ => False

structure Effect where
  /-- Labels given out before that are placed. -/
  places : Set Int
  /-- Labels not placed that may be jumped to. -/
  leaves : Set Int
  /-- Label 0 is jumped to. -/
  strays : Bool
  /-- Whether the end of the lines is closed, as their beginning is. -/
  flow : Bool → Option Bool

namespace Effect

@[simps]
def plain (silent : Bool) : Effect := ⟨∅, ∅, false, through silent⟩

@[simps]
def seq (f g : Effect) : Effect where
  places := f.places ∪ g.places
  leaves := f.leaves ∪ g.leaves
  strays := f.strays || g.strays
  flow c := (f.flow c).bind g.flow

@[simps]
def exiting (l : Int) : Effect := ⟨∅, {l}, false, through false⟩

@[simps]
def placing (l : Int) : Effect := ⟨{l}, ∅, false, fun _ => some false⟩

@[simps]
def jumping (l : Int) : Effect := ⟨∅, {l}, l = 0, fun c => if c then none else some true⟩

lemma plain_seq_plain (a b : Bool) : (plain a).seq (plain b) = plain (a && b) := by
  simp only [seq, plain, Set.union_self, Bool.or_self, mk.injEq, true_and]
  funext c
  cases a <;> cases b <;> cases c <;> rfl

end Effect

/-- The lines have an effect, where labels up to `lo` were given out before them and those up to
`hi` after. -/
structure Has (base : Nat) (lo hi : Int) (fx : Effect) (code : List Line) : Prop where
  inner : ∀ line ∈ code, line.IsInner
  spares : ∀ line ∈ code, line.Spares base
  nodup : (labelsOf code).Nodup
  placed : ∀ l ∈ fx.places, l ∈ labelsOf code
  fresh : ∀ l ∈ labelsOf code, l ∈ fx.places ∨ lo < l ∧ l ≤ hi
  old : ∀ l ∈ fx.places, l ≤ lo
  closed : ∀ l ∈ jumpsOf code, l ∈ labelsOf code ∨ l ∈ fx.leaves
  strays : fx.strays = true ↔ 0 ∈ jumpsOf code
  flow : ∀ c, scan c code = fx.flow c

namespace Has

variable {base : Nat} {lo mid hi : Int} {fx fy : Effect} {a b : List Line}

lemma nil : Has base lo hi (.plain true) [] := by
  constructor <;> simp [Effect.plain, through]

lemma line (inner : l.IsInner) (spares : l.Spares base) (old : ∀ m, l.placed? = some m → m ≤ lo) :
    Has base lo hi
      ⟨{m | l.placed? = some m}, {m | m ∈ l.targets}, decide (0 ∈ l.targets), (l.flow ·)⟩ [l] where
  inner := by simpa using inner
  spares := by simpa using spares
  nodup := by cases h : l.placed? <;> simp [h]
  placed m h := by simpa using h
  fresh m h := .inl (by simpa using h)
  old := old
  closed m h := .inr (by simpa using h)
  strays := by simp
  flow c := by simp

attribute [simp] Line.placed? Instr.targets Line.targets

lemma seq (ha : Has base lo mid fx a) (hb : Has base mid hi fy b) (h1 : lo ≤ mid) (h2 : mid ≤ hi)
    (old : ∀ l ∈ fy.places, l ≤ lo) (apart : ∀ l ∈ fx.places, l ∉ fy.places) :
    Has base lo hi (fx.seq fy) (a ++ b) where
  inner line h := (List.mem_append.mp h).elim (ha.inner line) (hb.inner line)
  spares line h := (List.mem_append.mp h).elim (ha.spares line) (hb.spares line)
  nodup := by
    rw [labelsOf_append, List.nodup_append]
    refine ⟨ha.nodup, hb.nodup, ?_⟩
    rintro l hl m hm rfl
    -- A label of both parts is neither placed by both nor fresh in both.
    rcases ha.fresh l hl with pa | fa <;> rcases hb.fresh l hm with pb | fb
    · exact apart l pa pb
    · have := ha.old l pa; omega
    · have := old l pb; omega
    · omega
  placed l h := by
    rw [labelsOf_append, List.mem_append]
    exact h.elim (fun h => .inl (ha.placed l h)) (fun h => .inr (hb.placed l h))
  fresh l h := by
    rw [labelsOf_append, List.mem_append] at h
    rcases h with h | h
    · rcases ha.fresh l h with p | f
      · exact .inl (.inl p)
      · exact .inr (by omega)
    · rcases hb.fresh l h with p | f
      · exact .inl (.inr p)
      · exact .inr (by omega)
  old l h := h.elim (ha.old l) (old l)
  closed l h := by
    rw [jumpsOf_append, List.mem_append] at h
    rw [labelsOf_append, List.mem_append]
    rcases h with h | h
    · exact (ha.closed l h).elim (fun h => .inl (.inl h)) (fun h => .inr (.inl h))
    · exact (hb.closed l h).elim (fun h => .inl (.inr h)) (fun h => .inr (.inr h))
  strays := by
    rw [Effect.seq, Bool.or_eq_true, ha.strays, hb.strays, jumpsOf_append, List.mem_append]
  flow c := by
    rw [scan_append, ha.flow]
    exact congrArg _ (funext hb.flow)

lemma plain (h : l.Plain base) : Has base lo hi (.plain false) [l] := by
  unfold Line.Plain at h
  split at h
  case h_5 => exact h.elim
  all_goals
    constructor <;>
      simp_all [Effect.plain, through, Line.IsInner, Line.Spares, Line.flow, Line.isTerminator]

lemma scope (ha : Has base mid hi fx a) (h1 : lo ≤ mid) (h2 : mid ≤ hi)
    (old : ∀ l ∈ fy.places, l ≤ lo)
    (places : ∀ l, l ∈ fx.places ↔ l ∈ fy.places ∨ lo < l ∧ l ≤ mid)
    (leaves : ∀ l ∈ fx.leaves, l ∈ fy.leaves ∨ lo < l ∧ l ≤ mid)
    (strays : fy.strays = fx.strays) (flow : ∀ c, fy.flow c = fx.flow c) :
    Has base lo hi fy a where
  inner := ha.inner
  spares := ha.spares
  nodup := ha.nodup
  placed l h := ha.placed l ((places l).mpr (.inl h))
  fresh l h := by
    rcases ha.fresh l h with p | f
    · exact ((places l).mp p).imp_right fun f => by omega
    · exact .inr (by omega)
  old := old
  closed l h := by
    rcases ha.closed l h with h | h
    · exact .inl h
    · rcases leaves l h with h | h
      · exact .inr h
      · exact .inl (ha.placed l ((places l).mpr (.inr h)))
  strays := strays ▸ ha.strays
  flow c := (ha.flow c).trans (flow c).symm

lemma weaken (ha : Has base lo hi fx a) (places : ∀ l, l ∈ fy.places ↔ l ∈ fx.places)
    (leaves : ∀ l ∈ fx.leaves, l ∈ fy.leaves ∨ l ∈ fx.places) (strays : fy.strays = fx.strays)
    (flow : ∀ c, fy.flow c = fx.flow c) : Has base lo hi fy a where
  inner := ha.inner
  spares := ha.spares
  nodup := ha.nodup
  placed l h := ha.placed l ((places l).mp h)
  fresh l h := (ha.fresh l h).imp_left (places l).mpr
  old l h := ha.old l ((places l).mp h)
  closed l h := by
    rcases ha.closed l h with h | h
    · exact .inl h
    · exact (leaves l h).symm.imp_left (ha.placed l)
  strays := strays ▸ ha.strays
  flow c := (ha.flow c).trans (flow c).symm

end Has
end Ir

namespace Lower

open Ir

/-- The step from `e` to `e'` wrote lines that have an effect. -/
structure Wrote (base : Nat) (fx : Effect) (e e' : Emitter) : Prop where
  temps : e.temps ≤ e'.temps
  labels : e.labels ≤ e'.labels
  lines : ∃ code, e'.lines.toList = e.lines.toList ++ code ∧ Has base e.labels e'.labels fx code

namespace Wrote

variable {base : Nat} {fx fy : Effect} {e e1 e2 : Emitter} {a : Bool}

lemma seq (h : Wrote base fx e e1) (k : Wrote base fy e1 e2)
    (old : ∀ l ∈ fy.places, l ≤ e.labels) (apart : ∀ l ∈ fx.places, l ∉ fy.places) :
    Wrote base (fx.seq fy) e e2 := by
  obtain ⟨a, ha, hasa⟩ := h.lines
  obtain ⟨b, hb, hasb⟩ := k.lines
  refine ⟨h.temps.trans k.temps, h.labels.trans k.labels, a ++ b, ?_, ?_⟩
  · rw [hb, ha, List.append_assoc]
  · exact hasa.seq hasb h.labels k.labels old apart

lemma andThen (h : Wrote base fx e e1) (k : Wrote base fy e1 e2) (none : fy.places = ∅) :
    Wrote base (fx.seq fy) e e2 :=
  h.seq k (by simp [none]) (by simp [none])

lemma plain {b : Bool} (h : Wrote base (.plain a) e e1) (k : Wrote base (.plain b) e1 e2) :
    Wrote base (.plain (a && b)) e e2 :=
  Effect.plain_seq_plain a b ▸ h.andThen k rfl

lemma andLine (h : Wrote base (.plain a) e e1) (k : Wrote base (.plain false) e1 e2) :
    Wrote base (.plain false) e e2 :=
  Bool.and_false a ▸ h.plain k

lemma weaken (h : Wrote base fx e e1) (places : ∀ l, l ∈ fy.places ↔ l ∈ fx.places)
    (leaves : ∀ l ∈ fx.leaves, l ∈ fy.leaves ∨ l ∈ fx.places) (strays : fy.strays = fx.strays)
    (flow : ∀ c, fy.flow c = fx.flow c) : Wrote base fy e e1 := by
  obtain ⟨code, hc, has⟩ := h.lines
  exact ⟨h.temps, h.labels, code, hc, has.weaken places leaves strays flow⟩

lemma scope {n : Nat} (h : Wrote base fx (e.count 0 n) e1) (old : ∀ l ∈ fy.places, l ≤ e.labels)
    (places : ∀ l, l ∈ fx.places ↔ l ∈ fy.places ∨ e.labels < l ∧ l ≤ e.labels + n)
    (leaves : ∀ l ∈ fx.leaves, l ∈ fy.leaves ∨ e.labels < l ∧ l ≤ e.labels + n)
    (strays : fy.strays = fx.strays) (flow : ∀ c, fy.flow c = fx.flow c) :
    Wrote base fy e e1 := by
  obtain ⟨code, hc, has⟩ := h.lines
  have hl := h.labels
  simp only [Emitter.count_labels] at hl has
  exact ⟨h.temps, by omega, code, hc, has.scope (by omega) hl old places leaves strays flow⟩

lemma counted (k : Nat) : Wrote base (.plain true) e (e.count k 0) :=
  ⟨by simp, by simp, [], by simp, .nil⟩

lemma refl : Wrote base (.plain true) e e := by
  simpa using counted (e := e) 0

lemma line (h : l.Plain base) : Wrote base (.plain false) e (e.add [l]) :=
  ⟨by simp, by simp, [l], by simp, .plain h⟩

lemma label {l : Int} (old : l ≤ e.labels) : Wrote base (.placing l) e (e.add [.label l]) := by
  refine ⟨by simp, by simp, [.label l], by simp, ?_⟩
  refine (Has.line (by trivial) (by trivial) ?_).weaken ?_ ?_ ?_ ?_
  · simpa using old
  · simp [Effect.placing, eq_comm]
  · simp
  · simp [Effect.placing]
  · simp [Effect.placing, Line.flow]

lemma jump {l : Int} : Wrote base (.jumping l) e (e.add [.instr (.jump l)]) := by
  refine ⟨by simp, by simp, [.instr (.jump l)], by simp, ?_⟩
  refine (Has.line (by trivial) (by trivial) ?_).weaken ?_ ?_ ?_ ?_
  · simp
  · simp [Effect.jumping]
  · simp [Effect.jumping]
  · simp [Effect.jumping, eq_comm]
  · simp [Effect.jumping, Line.flow, Line.isTerminator]

/-- Two ways that meet: the code of the first jumps over that of the second, which begins at a
label that the first may leave by. -/
lemma fork {first second : Int} (outside : Set Int) (hfirst : first = e.labels + 1)
    (hsecond : second = e.labels + 2) (pos : 0 ≤ e.labels)
    (h : Wrote base fx (e.count 0 2) e1) (hplaces : fx.places = ∅)
    (hleaves : ∀ l ∈ fx.leaves, l = first ∨ l ∈ outside)
    (k : Wrote base fy ((e1.add [.instr (.jump second)]).add [.label first]) e2)
    (kplaces : fy.places = ∅) (kleaves : ∀ l ∈ fy.leaves, l ∈ outside) :
    Wrote base ⟨∅, outside, fx.strays || fy.strays, fun c =>
        (fx.flow c).bind fun d => if d then none else (fy.flow false).bind fun _ => some false⟩
      e (e2.add [.label second]) := by
  have hl := h.labels
  have kl := k.labels
  simp only [Emitter.count_labels, Emitter.add_labels] at hl kl
  have jump : Wrote base (.jumping second) e1 _ := .jump
  have begin2 : Wrote base (.placing first) (e1.add [.instr (.jump second)]) _ :=
    .label (by simp only [Emitter.add_labels]; omega)
  have meet : Wrote base (.placing second) e2 _ := .label (by omega)
  have to2 := (h.andThen jump rfl).seq begin2 (by simp [hfirst]) (by simp [hplaces])
  have w := (to2.andThen k kplaces).seq meet (by simp [hsecond])
    (by simp [hplaces, kplaces, hfirst, hsecond])
  refine w.scope ?_ ?_ ?_ ?_ ?_
  · simp
  · simp [hplaces, kplaces]
    omega
  · simp only [Effect.seq_leaves, Effect.jumping_leaves, Effect.placing_leaves, Set.mem_union,
      Set.mem_singleton_iff, Set.mem_empty_iff_false, or_false]
    rintro l ((hl | rfl) | hl)
    · rcases hleaves l hl with rfl | hl
      · exact .inr (by omega)
      · exact .inl hl
    · exact .inr (by omega)
    · exact .inl (kleaves l hl)
  · have : ¬ second = 0 := by omega
    simp [this]
  · intro c
    simp only [Effect.seq_flow]
    cases fx.flow c with
    | none => rfl
    | some d =>
      cases d with
      | true => rfl
      | false => cases h : fy.flow false <;> simp [h]

end Wrote
end Lower
end SmallC
