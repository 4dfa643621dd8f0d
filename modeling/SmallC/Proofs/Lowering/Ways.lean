import SmallC.Proofs.Switches

/-!
# Ways out of a statement

How control can leave a statement before the function has been given its value: at the end, by `break` or
`continue`, or by a `return` without a value. Nothing is asked of the values of conditions. The end of a switch
is come to from its last arm, unless that is a `default` that is always taken and does not come to its end.
-/

namespace SmallC

open Ir Lower

namespace Ir

variable {i : Instr} {code : List Line} {done last : Nat} {ts : List Tree} {k : Cls}
variable {arms : List (ArmHead × Tree)}

def Line.assigns : Line → Bool
  | .instr (.set .result ..) => true
  | _ => false

/-- Control can come from one place to another by a line that gives no value. -/
structure Passes (code : List Line) (p q : Nat) : Prop where
  follows : Follows code p q
  blank : ∀ line, code[p]? = some line → line.assigns = false

/-- Control that comes to a place and gives no value stays at lines inside a function, or it comes to an
exit. -/
def Confines (code : List Line) (E : Nat → Prop) (p : Nat) : Prop :=
  ∃ R : Nat → Prop, (R p ∨ E p) ∧ (∀ q, R q → ∃ line, code[q]? = some line ∧ line.IsInner) ∧
    ∀ q r, R q → Passes code q r → R r ∨ E r

variable {code : List Line} {p q r : Nat} {l : Int} {E E' : Nat → Prop}

lemma Passes.label (h : Passes code p q) (here : code[p]? = some (.label l)) : q = p + 1 := by
  obtain ⟨follows, -⟩ := h
  cases follows with
  | label => rfl
  | next => rfl
  | jump here' => cases here.symm.trans here'

lemma Passes.next (h : Passes code p q) (here : code[p]? = some (.instr i)) (on : i.targets = []) :
    q = p + 1 := by
  obtain ⟨follows, -⟩ := h
  cases follows with
  | label => rfl
  | next => rfl
  | jump here' goes =>
    cases here.symm.trans here'
    rw [on] at goes
    cases goes

lemma Passes.jump (h : Passes code p q) (here : code[p]? = some (.instr i)) (away : i.targets ≠ []) :
    ∃ l ∈ i.targets, code[q]? = some (.label l) := by
  obtain ⟨follows, -⟩ := h
  cases follows with
  | label here' => cases here.symm.trans here'
  | next here' on =>
    cases here.symm.trans here'
    exact absurd on away
  | jump here' goes there =>
    cases here.symm.trans here'
    exact ⟨_, goes, there⟩

lemma label_unique (nodup : (labelsOf code).Nodup) (hp : code[p]? = some (.label l))
    (hq : code[q]? = some (.label l)) : p = q :=
  Option.some.inj ((findIdx?_label nodup hp).symm.trans (findIdx?_label nodup hq))

namespace Confines

lemma exit (h : E p) : Confines code E p := ⟨fun _ => False, .inr h, nofun, nofun⟩

lemma mono (h : Confines code E p) (k : ∀ q, E q → E' q) : Confines code E' p := by
  obtain ⟨R, start, inner, closed⟩ := h
  exact ⟨R, start.imp_right (k p), inner, fun q r here passes => (closed q r here passes).imp_right (k r)⟩

lemma up_to {R : Nat → Prop} (inner : ∀ q, R q → ∃ line, code[q]? = some line ∧ line.IsInner)
    (closed : ∀ q r, R q → Passes code q r → R r ∨ Confines code (fun s => R s ∨ E s) r) (h : R p) :
    Confines code E p := by
  let S (q : Nat) : Prop := ∃ T : Nat → Prop, T q ∧
    (∀ q, T q → ∃ line, code[q]? = some line ∧ line.IsInner) ∧
    ∀ q r, T q → Passes code q r → T r ∨ R r ∨ E r
  refine ⟨fun q => R q ∨ S q, .inl (.inl h), ?_, ?_⟩
  · rintro q (here | ⟨T, here, innerT, -⟩)
    · exact inner q here
    · exact innerT q here
  · rintro q r (here | ⟨T, here, innerT, closedT⟩) passes
    · rcases closed q r here passes with next | ⟨T, next | next | next, innerT, closedT⟩
      · exact .inl (.inl next)
      · exact .inl (.inr ⟨T, next, innerT, closedT⟩)
      · exact .inl (.inl next)
      · exact .inr next
    · rcases closedT q r here passes with next | next | next
      · exact .inl (.inr ⟨T, next, innerT, closedT⟩)
      · exact .inl (.inl next)
      · exact .inr next

lemma bind (h : Confines code E p) (k : ∀ q, E q → Confines code E' q) : Confines code E' p := by
  obtain ⟨R, start | start, inner, closed⟩ := h
  · refine up_to inner (fun q r here passes => (closed q r here passes).imp_right fun exit => ?_) start
    exact (k r exit).mono fun _ => .inr
  · exact k p start

lemma step {line : Line} (here : code[p]? = some line) (inner : line.IsInner)
    (k : ∀ q, Passes code p q → Confines code (fun r => r = p ∨ E r) q) : Confines code E p := by
  refine up_to (R := (· = p)) ?_ ?_ rfl
  · rintro _ rfl
    exact ⟨line, here, inner⟩
  · rintro _ r rfl passes
    exact .inr (k r passes)

lemma round (here : code[p]? = some (.label l)) (k : Confines code (fun r => r = p ∨ E r) (p + 1)) :
    Confines code E p := by
  refine .step here trivial fun q passes => ?_
  obtain rfl := passes.label here
  exact k

lemma label (here : code[p]? = some (.label l)) (k : Confines code E (p + 1)) : Confines code E p :=
  .round here (k.mono fun _ => .inr)

lemma jump (here : code[p]? = some (.instr (.jump l))) (k : ∀ q, code[q]? = some (.label l) → Confines code E q) :
    Confines code E p := by
  refine .step here trivial fun q passes => ?_
  obtain ⟨m, mem, there⟩ := passes.jump here (by simp)
  obtain rfl : m = l := by simpa using mem
  exact (k q there).mono fun _ => .inr

lemma of_lines {ls : List Line} {L : Set Int} (nodup : (labelsOf code).Nodup) (seg : Seg code p ls)
    (inner : ∀ line ∈ ls, line.IsInner) (closed : ∀ l ∈ jumpsOf ls, l ∈ labelsOf ls ∨ l ∈ L) :
    Confines code (fun q => q = p + ls.length ∨ ∃ l ∈ L, code[q]? = some (.label l)) p := by
  have at_line (q : Nat) (low : p ≤ q) (high : q < p + ls.length) :
      ∃ line ∈ ls, code[q]? = some line := by
    obtain ⟨k, rfl⟩ := Nat.exists_eq_add_of_le low
    have bound : k < ls.length := by omega
    exact ⟨ls[k], List.getElem_mem bound, seg k _ (List.getElem?_eq_getElem bound)⟩
  refine ⟨fun q => p ≤ q ∧ q < p + ls.length, by omega, ?_, ?_⟩
  · rintro q ⟨low, high⟩
    obtain ⟨line, mem, here⟩ := at_line q low high
    exact ⟨line, here, inner line mem⟩
  · rintro q r ⟨low, high⟩ passes
    obtain ⟨line, mem, here⟩ := at_line q low high
    have isInner := inner line mem
    cases line with
    | label l =>
      obtain rfl := passes.label here
      omega
    | instr i =>
      by_cases on : i.targets = []
      · obtain rfl := passes.next here on
        omega
      · obtain ⟨l, goes, there⟩ := passes.jump here on
        rcases closed l (List.mem_flatMap.mpr ⟨_, mem, goes⟩) with placed | leaves
        · obtain ⟨j, hj⟩ := List.mem_iff_getElem?.mp (mem_labelsOf.mp placed)
          obtain rfl := label_unique nodup there (seg j _ hj)
          have := (List.getElem?_eq_some_iff.mp hj).1
          exact .inl (by omega)
        · exact .inr (.inr ⟨l, leaves, there⟩)
    | _ => cases isInner

lemma path {start : Nat} (h : Confines code (fun _ => False) start) {passed : List Line}
    (path : Path code start passed p) (blank : ∀ line ∈ passed, line.assigns = false) :
    ∃ line, code[p]? = some line ∧ line.IsInner := by
  obtain ⟨R, begins, inner, closed⟩ := h
  have stays : R p := by
    induction path with
    | here => exact begins.resolve_right id
    | step path passing follows ih =>
      have here := ih fun line mem => blank line (List.mem_append_left _ mem)
      refine (closed _ _ here ⟨follows, fun line same => ?_⟩).resolve_right id
      rw [passing] at same
      exact blank line (by simp [Option.some.inj same])
  exact inner p stays

end Confines
end Ir

variable {e' e : Emitter}

lemma Lower.Wrote.confines {site : Site} {n : Nat} {fx : Effect} (w : Wrote n fx e e')
    (holds : site.Holds e) (holds' : site.Holds e') :
    Confines site.code (fun q => q = site.place e' ∨ ∃ l ∈ fx.leaves, site.code[q]? = some (.label l))
      (site.place e) := by
  obtain ⟨ls, lines, has⟩ := w.lines
  obtain ⟨seg, place⟩ := Tree.lines_at holds holds' lines
  rw [place]
  exact .of_lines site.nodup seg has.inner has.closed

/-- A way to leave a statement without having given the function a value. -/
inductive Way where
  | through
  | breakOut
  | continueOn
  | bare
  deriving DecidableEq

namespace Tree

mutual

def leaves (w : Way) : Tree → Bool
  | .block _ ts => leavesAll w ts
  | .branch _ _ a b => a.leaves w || b.leaves w
  | .loop _ _ a => w = .through || w = .bare && a.leaves .bare
  | .switch _ _ arms =>
    match w with
    | .through => passesArms arms || leavesArms .breakOut arms
    | .breakOut => false
    | .continueOn => leavesArms .continueOn arms
    | .bare => leavesArms .bare arms
  | .result _ a => w = .bare && a.isEmpty
  | .breakOut _ => w = .breakOut
  | .continueOn _ => w = .continueOn
  | _ => w = .through

def leavesAll (w : Way) : List Tree → Bool
  | [] => w = .through
  | t :: ts => w ≠ .through && t.leaves w || t.leaves .through && leavesAll w ts

def leavesArms (w : Way) : List (ArmHead × Tree) → Bool
  | [] => false
  | (_, body) :: arms => body.leaves w || leavesArms w arms

/-- Control can come behind the last arm from testing the first. -/
def passesArms : List (ArmHead × Tree) → Bool
  | [] => true
  | (head, body) :: arms => (head.value.isSome || body.leaves .through) && passesArms arms

end

end Tree

/-- The place where control is that left a statement in a way. -/
def Way.At (code : List Line) (ctx : Context) (last : Nat) : Way → Nat → Prop
  | .through, e => e = last
  | .breakOut, e => code[e]? = some (.label ctx.loopEnd)
  | .continueOn, e => code[e]? = some (.label ctx.loopTop)
  | .bare, e => code[e]? = some (.label ctx.function.endLabel)

namespace Tree

variable {ss : Symbols} {scope : Scope} {site : Site} {ctx : Context} {n : Nat} {span : Span} {r : Temp} {i : Info}
  {t a b c : Tree} {l : Int} {E : Nat → Prop}

def Emerges (code : List Line) (ctx : Context) (last : Nat) (t : Tree) (e : Nat) : Prop :=
  ∃ w : Way, t.leaves w = true ∧ w.At code ctx last e

def Guides (ss : Symbols) (t : Tree) : Prop :=
  ∀ {site : Site} {ctx : Context} {n : Nat} {span : Span} {r : Temp}, t.Placed site ss ctx n span r →
    ctx.function.endLabel ≠ 0 → Confines site.code (t.Emerges site.code ctx span.last) span.first

lemma At_last {last' : Nat} {w : Way} {e : Nat} (h : w.At code ctx last e) (other : w ≠ .through) :
    w.At code ctx last' e := by
  cases w with
  | through => exact absurd rfl other
  | _ => exact h

lemma Guides.bind (guides : Guides ss t) (h : t.Placed site ss ctx n span r) (hf : ctx.function.endLabel ≠ 0)
    (through : t.leaves .through = true → Confines site.code E span.last)
    (other : ∀ w, w ≠ .through → t.leaves w = true → ∀ q, w.At site.code ctx 0 q → Confines site.code E q) :
    Confines site.code E span.first := by
  refine (guides h hf).bind ?_
  rintro q ⟨w, leaves, at_q⟩
  by_cases same : w = .through
  · subst same
    obtain rfl : q = span.last := at_q
    exact through leaves
  · exact other w same leaves q (At_last at_q same)

lemma IsExpression.leaves_eq (ht : IsExpression ss scope t) (w : Way) : t.leaves w = decide (w = .through) := by
  cases ht <;> rfl

lemma empty_guides : Guides ss .empty := by
  rintro site ctx n span r ⟨e, e', lower, holds, holds', hn, hl, rfl⟩ hf
  obtain ⟨-, rfl⟩ := pure_eq_ok.mp lower
  exact .exit ⟨.through, rfl, rfl⟩

lemma IsExpression.guides (ht : IsExpression ss scope t) (lt : t.Loaded) : Guides ss t := by
  rintro site ctx n span r ⟨e, e', lower, holds, holds', hn, hl, rfl⟩ hf
  obtain ⟨w, -⟩ : Wrote n _ _ _ ∧ _ := ht.computes lower (.inl lt) hn hl
  refine (w.confines holds holds').mono ?_
  rintro q (rfl | ⟨l, leaves, -⟩)
  · exact ⟨.through, by simp [ht.leaves_eq], rfl⟩
  · cases leaves

lemma jump_confines (lower : (do jump l; return none : Lower Temp) e = .ok r e')
    (holds : site.Holds e) (holds' : site.Holds e') (k : ∀ q, site.code[q]? = some (.label l) → E q) :
    Confines site.code E (site.place e) :=
  .jump ((jump_before site lower).2 holds holds') fun q there => .exit (k q there)

lemma breakOut_guides : Guides ss (.breakOut i) := by
  rintro site ctx n span r ⟨e, e', lower, holds, holds', hn, hl, rfl⟩ hf
  exact jump_confines lower holds holds' fun q there => ⟨.breakOut, rfl, there⟩

lemma continueOn_guides : Guides ss (.continueOn i) := by
  rintro site ctx n span r ⟨e, e', lower, holds, holds', hn, hl, rfl⟩ hf
  exact jump_confines lower holds holds' fun q there => ⟨.continueOn, rfl, there⟩

lemma leave_guides : Guides ss (.result i .empty) := by
  rintro site ctx n span r ⟨e, e', lower, holds, holds', hn, hl, rfl⟩ hf
  obtain ⟨_, e1, h1, h⟩ := bind_eq_ok.mp lower
  obtain ⟨rfl, rfl⟩ := pure_eq_ok.mp h1
  obtain ⟨_, e2, h2, h⟩ := bind_eq_ok.mp h
  obtain ⟨-, rfl⟩ := pure_eq_ok.mp h
  rcases leave_eq_ok h2 with ⟨-, rfl⟩ | ⟨_, _, absurd, -⟩
  · exact .jump (holds.seg holds').head fun q there => .exit ⟨.bare, rfl, there⟩
  · cases absurd

lemma result_guides (ha : IsExpression ss scope a) (la : a.Loaded) : Guides ss (.result i a) := by
  rintro site ctx n span r ⟨e, e', lower, holds, holds', hn, hl, rfl⟩ hf
  obtain ⟨x, e1, h1, h⟩ := bind_eq_ok.mp lower
  obtain ⟨_, e2, h2, h⟩ := bind_eq_ok.mp h
  obtain ⟨-, rfl⟩ := pure_eq_ok.mp h
  obtain ⟨w, -⟩ : Wrote 0 _ _ _ ∧ _ := ha.computes h1 (.inl la) (Nat.zero_le _) hl
  obtain ⟨k, rfl, -⟩ := ha.supplies h1 la.valued
  rcases leave_eq_ok h2 with ⟨absurd, -⟩ | ⟨_, c, -, -, rfl⟩
  · cases absurd
  · have holds1 := holds.between holds' w.before (Emitter.Before.refl _).add
    have gives := (holds1.seg holds').head
    refine (w.confines holds holds1).bind ?_
    rintro q (rfl | ⟨l, leaves, -⟩)
    · refine .step gives trivial fun q passes => ?_
      cases passes.blank _ gives
    · cases leaves

/-! ## Statements with statements in them -/

lemma lowerAll_confines (hts : ∀ t ∈ ts, Runs ss t) (guides : ∀ t ∈ ts, Guides ss t) {v : Unit}
    (h : lowerAll ss ctx ts e = .ok v e') (holds : site.Holds e) (holds' : site.Holds e')
    (hf : ctx.function.endLabel ≠ 0) (hl : 0 ≤ e.labels) :
    Confines site.code (fun q => ∃ w : Way, leavesAll w ts = true ∧ w.At site.code ctx (site.place e') q)
      (site.place e) := by
  induction ts generalizing e with
  | nil =>
    obtain ⟨-, rfl⟩ := pure_eq_ok.mp h
    exact .exit ⟨.through, rfl, rfl⟩
  | cons u ts ih =>
    obtain ⟨x, e1, h1, h2⟩ := bind_eq_ok.mp h
    have hts' : ∀ t ∈ ts, Runs ss t := fun t ht => hts t (.tail u ht)
    have w1 : Wrote 0 _ e e1 := hts u (.head ts) h1 hf (Nat.zero_le _) hl
    have hl1 := hl.trans w1.labels
    have w2 : Wrote 0 _ e1 e' := lowerAll_wrote hts' (i := {}) h2 hf (Nat.zero_le _) hl1
    have holds1 := holds.between holds' w1.before w2.before
    have rest := ih hts' (fun t ht => guides t (.tail u ht)) h2 holds1 hl1
    refine Guides.bind (guides u (.head ts)) ⟨e, e1, h1, holds, holds1, Nat.zero_le _, hl, rfl⟩ hf ?_ ?_
    · intro leaves
      refine rest.mono ?_
      rintro q ⟨w, leaves', at_q⟩
      exact ⟨w, by simp [leavesAll, leaves, leaves'], at_q⟩
    · intro w other leaves q at_q
      exact .exit ⟨w, by simp [leavesAll, leaves, other], At_last at_q other⟩

lemma block_guides (hts : ∀ t ∈ ts, Runs ss t) (guides : ∀ t ∈ ts, Guides ss t) :
    Guides ss (.block i ts) := by
  rintro site ctx n span r ⟨e, e', lower, holds, holds', hn, hl, rfl⟩ hf
  obtain ⟨_, e1, h1, h2⟩ := bind_eq_ok.mp lower
  obtain ⟨-, rfl⟩ := pure_eq_ok.mp h2
  refine (lowerAll_confines hts guides h1 holds holds' hf hl).mono ?_
  rintro q ⟨w, leaves, at_q⟩
  exact ⟨w, leaves, by cases w <;> exact at_q⟩

lemma Tested.confines (h : c.Tested site ss l span) (hc : Decides ss c) :
    Confines site.code (fun q => q = span.last ∨ site.code[q]? = some (.label l)) span.first := by
  obtain ⟨ctx, op, e, e1, x, hop, pos, hl, lower, holds, holds', rfl⟩ := h
  have w : Wrote 0 (.exiting l) e _ := hc.wrote lower hop pos (Nat.zero_le _) hl
  refine (w.confines holds holds').mono ?_
  rintro q (same | ⟨m, rfl, there⟩)
  · exact .inl same
  · exact .inr there

lemma branch_guides (hc : Decides ss c) (ha : Runs ss a) (hb : Runs ss b) (guidesA : Guides ss a)
    (guidesB : Guides ss b) : Guides ss (.branch i c a b) := by
  intro site ctx n span r placed hf
  obtain ⟨l, yes, no, laid⟩ := placed.branch hc ha hb hf
  obtain ⟨x, placedA⟩ := laid.taken
  have other {t : Tree} (h : ∀ w, t.leaves w = true → (Tree.branch i c a b).leaves w = true) :
      ∀ w : Way, w ≠ .through → t.leaves w = true → ∀ q, w.At site.code (ctx.condition .ifElse 0) 0 q →
        Confines site.code ((Tree.branch i c a b).Emerges site.code ctx span.last) q := by
    intro w other leaves q at_q
    exact .exit ⟨w, h w leaves, At_last (by cases w <;> exact at_q) other⟩
  have leavesA (w : Way) (h : a.leaves w = true) : (Tree.branch i c a b).leaves w = true := by simp [leaves, h]
  have leavesB (w : Way) (h : b.leaves w = true) : (Tree.branch i c a b).leaves w = true := by simp [leaves, h]
  cases empty : b.isEmpty with
  | true =>
    obtain rfl := eq_empty_of_isEmpty empty
    obtain ⟨meets, last⟩ := laid.one rfl
    have atEnd : Confines site.code ((Tree.branch i c a .empty).Emerges site.code ctx span.last) yes.last :=
      .label meets (.exit ⟨.through, leavesB _ rfl, last.symm⟩)
    refine (laid.test.confines hc).bind ?_
    rintro q (rfl | there)
    · exact guidesA.bind placedA hf (fun _ => atEnd) (other leavesA)
    · exact label_unique site.nodup meets there ▸ atEnd
  | false =>
    obtain ⟨k, m, middle, first, ⟨y, placedB⟩, meets, last⟩ := laid.two empty
    have atEnd (h : (Tree.branch i c a b).leaves .through = true) :
        Confines site.code ((Tree.branch i c a b).Emerges site.code ctx span.last) no.last :=
      .label meets (.exit ⟨.through, h, last.symm⟩)
    refine (laid.test.confines hc).bind ?_
    rintro q (rfl | there)
    · refine guidesA.bind placedA hf (fun leaves => ?_) (other leavesA)
      refine .label middle.head (.jump middle.tail.head fun q there => ?_)
      exact label_unique site.nodup meets there ▸ atEnd (leavesA _ leaves)
    · obtain rfl := label_unique site.nodup middle.tail.tail.head there
      refine .label middle.tail.tail.head ?_
      rw [← first]
      exact guidesB.bind placedB hf (fun leaves => atEnd (leavesB _ leaves)) (other leavesB)

lemma loop_guides (hc : Decides ss c) (ha : Runs ss a) (guides : Guides ss a) : Guides ss (.loop i c a) := by
  intro site ctx n span r placed hf
  obtain ⟨inside, body, x, same, top, tested, placedA, back, last⟩ := placed.loop hc ha hf
  have hf' : inside.function.endLabel ≠ 0 := same ▸ hf
  refine .round top ?_
  have atEnd : Confines site.code (fun q => q = span.first ∨ (Tree.loop i c a).Emerges site.code ctx span.last q)
      (body.last + 1) :=
    .label back.tail.head (.exit (.inr ⟨.through, by simp [leaves], last.symm⟩))
  refine (tested.confines hc).bind ?_
  rintro q (rfl | there)
  · refine guides.bind placedA hf' (fun _ => ?_) fun w other leaves q at_q => ?_
    · exact .jump back.head fun q there => .exit (.inl (label_unique site.nodup there top))
    · cases w with
      | through => exact absurd rfl other
      | breakOut => exact label_unique site.nodup back.tail.head at_q ▸ atEnd
      | continueOn => exact .exit (.inl (label_unique site.nodup at_q top))
      | bare =>
        rw [Way.At, same] at at_q
        exact .exit (.inr ⟨.bare, by simp [Tree.leaves, leaves], at_q⟩)
  · exact label_unique site.nodup back.tail.head there ▸ atEnd

/-! ## Switches -/

/-- The places that control can come to from the arms of a switch, the end of which is at `done`. -/
def ArmsEmerge (code : List Line) (ctx : Context) (done : Nat) (arms : List (ArmHead × Tree)) (q : Nat) : Prop :=
  q = done ∧ passesArms arms = true ∨ ∃ w : Way, w ≠ .through ∧ leavesArms w arms = true ∧ w.At code ctx done q

lemma ArmTested.confines {next here : Int} {first : Nat} {value : Option Int64}
    (h : ArmTested site k n next here first last value) :
    Confines site.code (fun q => q = last ∨ value.isSome = true ∧ site.code[q]? = some (.label next) ∨
      site.code[q]? = some (.label here)) first := by
  cases value with
  | none => exact .exit (.inl (Eq.symm h))
  | some v =>
    obtain ⟨rfl, e, -, seg⟩ := h
    refine (Confines.of_lines (L := {next, here}) site.nodup seg (by simp [unequalLines, Line.IsInner])
      (by simp [unequalLines])).mono ?_
    rintro q (same | ⟨l, rfl | rfl, there⟩)
    · exact .inl same
    · exact .inr (.inl ⟨rfl, there⟩)
    · exact .inr (.inr there)

lemma ArmsEmerge.cons {head : ArmHead} {body : Tree} {q : Nat} (h : ArmsEmerge code ctx done arms q)
    (passes : head.value.isSome = true ∨ body.leaves .through = true) :
    ArmsEmerge code ctx done ((head, body) :: arms) q := by
  rcases h with ⟨same, all⟩ | ⟨w, other, leaves, at_q⟩
  · exact .inl ⟨same, by simpa [passesArms, all] using passes⟩
  · exact .inr ⟨w, other, by simp [leavesArms, leaves], at_q⟩

/-- What is shown of the code of arms, when their first test has a label and the arms before them run into
the code with another. -/
structure ArmsGuide (site : Site) (ctx : Context) (arms : List (ArmHead × Tree)) (test : Int) (code : Option Int)
    (place done : Nat) : Prop where
  tested : ∀ p, site.code[p]? = some (.label test) → Confines site.code (ArmsEmerge site.code ctx done arms) p
  shared : ∀ l, code = some l → ∀ p, site.code[p]? = some (.label l) →
    Confines site.code (ArmsEmerge site.code ctx done arms) p
  begins : Confines site.code (ArmsEmerge site.code ctx done arms) place

lemma ArmsAt.guide {test : Int} {code : Option Int} {place : Nat}
    (h : ArmsAt site ss ctx k n done arms test code place) (guides : ∀ arm ∈ arms, Guides ss arm.2)
    (hf : ctx.function.endLabel ≠ 0) : ArmsGuide site ctx arms test code place done := by
  induction h with
  | @nil last code place joins behind ends =>
    have atEnd : Confines site.code (ArmsEmerge site.code ctx done []) done := .exit (.inl ⟨rfl, rfl⟩)
    have begins : Confines site.code (ArmsEmerge site.code ctx done []) place := by
      cases code with
      | none => exact behind ▸ atEnd
      | some l => exact .label (joins l rfl) (behind ▸ atEnd)
    refine ⟨fun p there => label_unique site.nodup ends there ▸ atEnd, fun l hl p there => ?_, begins⟩
    exact label_unique site.nodup (joins l hl) there ▸ begins
  | @empty head arms test next here code place q top tested same rest ih =>
    have guide := ih fun arm mem => guides arm (.tail _ mem)
    have lift {p : Nat} (h : Confines site.code (ArmsEmerge site.code ctx done arms) p) :
        Confines site.code (ArmsEmerge site.code ctx done ((head, .empty) :: arms)) p :=
      h.mono fun q emerges => emerges.cons (.inr rfl)
    have begins : Confines site.code (ArmsEmerge site.code ctx done ((head, .empty) :: arms)) place := by
      refine .label top (tested.confines.bind ?_)
      rintro p (rfl | ⟨-, there⟩ | there)
      · exact lift guide.begins
      · exact lift (guide.tested p there)
      · exact lift (guide.shared here rfl p there)
    refine ⟨fun p there => label_unique site.nodup top there ▸ begins, fun l hl p there => ?_, begins⟩
    obtain rfl := same l hl
    exact lift (guide.shared l rfl p there)
  | @full head body arms test next here code place q last r top tested same door full reach placed rest ih =>
    have guide := ih fun arm mem => guides arm (.tail _ mem)
    have lift (passes : head.value.isSome = true ∨ body.leaves .through = true) {p : Nat}
        (h : Confines site.code (ArmsEmerge site.code ctx done arms) p) :
        Confines site.code (ArmsEmerge site.code ctx done ((head, body) :: arms)) p :=
      h.mono fun q emerges => emerges.cons passes
    have taken : Confines site.code (ArmsEmerge site.code ctx done ((head, body) :: arms)) q := by
      refine .label door (Guides.bind (guides _ (.head arms)) placed hf (fun leaves => lift (.inr leaves) guide.begins) ?_)
      intro w other leaves p at_p
      exact .exit (.inr ⟨w, other, by simp [leavesArms, leaves], At_last at_p other⟩)
    have begins : Confines site.code (ArmsEmerge site.code ctx done ((head, body) :: arms)) place := by
      refine .label top (tested.confines.bind ?_)
      rintro p (rfl | ⟨value, there⟩ | there)
      · exact taken
      · exact lift (.inl value) (guide.tested p there)
      · exact label_unique site.nodup door there ▸ taken
    refine ⟨fun p there => label_unique site.nodup top there ▸ begins, fun l hl p there => ?_, begins⟩
    obtain rfl := same l hl
    exact label_unique site.nodup door there ▸ taken

lemma switch_guides (ha : IsExpression ss scope a) (la : a.Loaded) (harms : ∀ arm ∈ arms, Runs ss arm.2)
    (guides : ∀ arm ∈ arms, Guides ss arm.2) : Guides ss (.switch i a arms) := by
  intro site ctx n span r placed hf
  obtain ⟨m, first, done, inside, test, same, top, -, -, last, scrutinee, meets, laid⟩ := placed.switch ha la harms hf
  have guide := laid.guide guides (same ▸ hf)
  have atEnd (h : (Tree.switch i a arms).leaves .through = true) :
      Confines site.code ((Tree.switch i a arms).Emerges site.code ctx span.last) done :=
    .label meets (.exit ⟨.through, h, last.symm⟩)
  change Confines site.code _ (Span.mk span.first first).first
  refine Guides.bind (ha.guides la) scrutinee hf (fun _ => guide.begins.bind ?_) ?_
  · rintro q (⟨rfl, passes⟩ | ⟨w, other, leaves, at_q⟩)
    · exact atEnd (by simp [leaves, passes])
    · cases w with
      | through => exact absurd rfl other
      | breakOut => exact label_unique site.nodup meets at_q ▸ atEnd (by simp [Tree.leaves, leaves])
      | continueOn =>
        rw [Way.At, top] at at_q
        exact .exit ⟨.continueOn, leaves, at_q⟩
      | bare =>
        rw [Way.At, same] at at_q
        exact .exit ⟨.bare, leaves, at_q⟩
  · intro w other leaves
    simp [ha.leaves_eq, other] at leaves

theorem IsStatement.guides (ht : IsStatement ss scope t) : Guides ss t := by
  induction ht with
  | empty => exact empty_guides
  | expression ht lt => exact ht.guides lt
  | block hts ih => exact block_guides (fun t ht => (hts t ht).runs) ih
  | branch hc ha hb iha ihb => exact branch_guides hc.decides ha.runs hb.runs iha ihb
  | loop hc ha ih => exact loop_guides hc.decides ha.runs ih
  | switch ha la some ordered harms ih => exact switch_guides ha la (fun arm mem => (harms arm mem).runs) ih
  | leave => exact leave_guides
  | result ha la typed => exact result_guides ha la
  | breakOut => exact breakOut_guides
  | continueOn => exact continueOn_guides

end Tree
end SmallC
