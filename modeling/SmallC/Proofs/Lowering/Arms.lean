import SmallC.Proofs.Lowering.Execution
import SmallC.Proofs.Lowering.Statement

/-!
# The code of the arms of a switch

Tests and code of arms stand in turn: the test of an arm leads to its code or to the test of the next
arm, and the code of an arm runs into that test. An arm without code leads to the code of the next arm
that has some. So the value is looked for among all arms at first, and among the arms that follow
whenever the code of an arm has come to its end.
-/

namespace SmallC

open Ir Lower

variable {e e1 : Emitter} {l : Int} {r : Temp} {value : Option Int64} {first : Nat}

/-- The arm is for the value, as one of a class. -/
def ArmHead.takes (head : ArmHead) (c : Cls) (v : BitVec 64) : Bool :=
  head.value.all fun w => c.read w.toBitVec = v

/-- Lines from the first up to the last, which is not one of them. -/
structure Span where
  first : Nat
  last : Nat

namespace Tree

def firstCode (arms : List (ArmHead × Tree)) : Option Nat := arms.findIdx? fun arm => !arm.2.isEmpty

/-- The arm whose code is come to by testing a value from the first arm on: that of the first arm for
it, or of the next one with code. -/
def selected (c : Cls) (v : BitVec 64) : List (ArmHead × Tree) → Option Nat
  | [] => none
  | (head, body) :: arms =>
    if head.takes c v then firstCode ((head, body) :: arms) else (selected c v arms).map (· + 1)

section
variable (c : Cls) (v : BitVec 64) (head : ArmHead) {body : Tree} (arms : List (ArmHead × Tree))

@[simp] lemma selected_nil : selected c v [] = none := rfl

lemma firstCode_empty : firstCode ((head, .empty) :: arms) = (firstCode arms).map (· + 1) := by
  rw [firstCode, List.findIdx?_cons]
  rfl

lemma firstCode_body (h : body.isEmpty = false) : firstCode ((head, body) :: arms) = some 0 := by
  rw [firstCode, List.findIdx?_cons, h]
  rfl

end

/-- The code of a tree is a span of a function's code. Temporaries up to `base` were given out before,
and its value is left in `r`. -/
def Placed (site : Site) (ss : Symbols) (ctx : Context) (base : Nat) (t : Tree) (span : Span)
    (r : Temp) : Prop :=
  ∃ e e', t.lower ss ctx e = .ok r e' ∧ site.Holds e ∧ site.Holds e' ∧ base ≤ e.temps ∧ 0 ≤ e.labels ∧
    span = ⟨site.place e, site.place e'⟩

end Tree

/-- Where the code of an arm begins, or the end of the switch. -/
def target (done : Nat) (spans : Nat → Span) (arm : Option Nat) : Nat :=
  arm.elim done fun k => (spans k).first

def pushSpan (span : Span) (spans : Nat → Span) : Nat → Span
  | 0 => span
  | k + 1 => spans k

@[simp] lemma target_push (done : Nat) (span : Span) (spans : Nat → Span) (arm : Option Nat) :
    target done (pushSpan span spans) (arm.map (· + 1)) = target done spans arm := by
  cases arm <;> rfl

lemma Emitter.Before.place (h : e.Before e1) (site : Site) : site.place e ≤ site.place e1 :=
  Nat.sub_le_sub_right h.size _

namespace Lower

lemma Wrote.before {base : Nat} {fx : Effect} (h : Wrote base fx e e1) : e.Before e1 := by
  obtain ⟨ls, lines, -⟩ := h.lines
  exact ⟨h.temps, lines ▸ List.prefix_append _ _⟩

end Lower

namespace Ir.State

variable {T : Target} {code : List Line} {s s1 : State T} {n m p : Nat}

lemma Alike.mono (h : Alike m s s1) (hn : n ≤ m) : Alike n s s1 :=
  { h with temps := fun k hk => h.temps k (hk.trans hn) }

/-- The run comes to a place and changes nothing on its way but temporaries above `n`. -/
def Comes (code : List Line) (n : Nat) (s : State T) (p : Nat) : Prop :=
  s.Reaches code fun s' => s'.pc = p ∧ Alike n s s'

namespace Comes

lemma here (pc : s.pc = p) : s.Comes code n p := Reaches.here ⟨pc, .refl n s⟩

lemma after {P : State T → Prop} (h : s.Reaches code P) (alike : ∀ s1, P s1 → Alike n s s1)
    (k : ∀ s1, P s1 → s1.Comes code n p) : s.Comes code n p := by
  refine h.bind fun s1 h1 => (k s1 h1).mono fun s2 ⟨pc, h2⟩ => ⟨pc, ?_⟩
  exact (alike s1 h1).trans h2 (Nat.le_refl n)

lemma label (h : code[s.pc]? = some (.label l)) (k : s.next.Comes code n p) : s.Comes code n p := by
  have step : s.step code = some s.next := by rw [State.step, h]
  refine after (P := (· = s.next)) (.step step (.here rfl)) ?_ ?_
  · rintro _ rfl
    exact (Alike.refl n s).next
  · rintro _ rfl
    exact k

lemma jump (nodup : (labelsOf code).Nodup) {q : Nat} (h : code[s.pc]? = some (.instr (.jump l)))
    (hq : code[q]? = some (.label l)) (k : { s with pc := q }.Comes code n p) : s.Comes code n p := by
  refine after (P := (· = { s with pc := q })) (.jump nodup h hq (.here rfl)) ?_ ?_
  · rintro _ rfl
    exact (Alike.refl n s).goto q
  · rintro _ rfl
    exact k

end Comes
end Ir.State

namespace Tree

variable {ss : Symbols} {site : Site} {ctx : Context} {c : Cls} {n : Nat}
variable {last : Nat}

/-- The test of an arm, which compares its value with the one in `n` and leads to its code. A `default` does
without. -/
def ArmTested (site : Site) (c : Cls) (n : Nat) (next here : Int) (first last : Nat) : Option Int64 → Prop
  | none => last = first
  | some v => last = first + 5 ∧ ∃ e : Emitter, n ≤ e.temps ∧
      Seg site.code first (unequalLines (some n) v c next e ++ [.instr (.jump here)])

/-- The code of arms from a place on, up to the end of the switch at `done`, when their first test has a
label and the arms before them run into the code with another. -/
inductive ArmsAt (site : Site) (ss : Symbols) (ctx : Context) (c : Cls) (n done : Nat) :
    List (ArmHead × Tree) → Int → Option Int → Nat → Prop
  | nil {last : Int} {code : Option Int} {place : Nat}
      (joins : ∀ l, code = some l → site.code[place]? = some (.label l))
      (behind : done = place + code.toList.length) (ends : site.code[done]? = some (.label last)) :
      ArmsAt site ss ctx c n done [] last code place
  | empty {head : ArmHead} {arms : List (ArmHead × Tree)} {test next here : Int} {code : Option Int} {place q : Nat}
      (top : site.code[place]? = some (.label test))
      (tested : ArmTested site c n next here (place + 1) q head.value) (same : ∀ l, code = some l → l = here)
      (rest : ArmsAt site ss ctx c n done arms next (some here) q) :
      ArmsAt site ss ctx c n done ((head, .empty) :: arms) test code place
  | full {head : ArmHead} {body : Tree} {arms : List (ArmHead × Tree)} {test next here : Int} {code : Option Int}
      {place q last : Nat} {r : Temp} (top : site.code[place]? = some (.label test))
      (tested : ArmTested site c n next here (place + 1) q head.value) (same : ∀ l, code = some l → l = here)
      (door : site.code[q]? = some (.label here)) (full : body.isEmpty = false) (reach : q + 1 ≤ last)
      (placed : body.Placed site ss ctx n ⟨q + 1, last⟩ r) (rest : ArmsAt site ss ctx c n done arms next none last) :
      ArmsAt site ss ctx c n done ((head, body) :: arms) test code place

section
variable {t : CType} {next here : Int} {code : Option Int} {e e1 : Emitter}
variable {u : Unit}

lemma armTest_before (h : armTest r t next here value e = .ok u e1) : e.Before e1 ∧ e.labels ≤ e1.labels := by
  cases value with
  | none =>
    obtain ⟨-, rfl⟩ := pure_eq_ok.mp h
    exact ⟨.refl _, Int.le_refl _⟩
  | some v =>
    obtain ⟨c, -, rfl⟩ := armTest_eq_ok h
    exact ⟨(Emitter.Before.refl e).count.add, Int.le_add_of_nonneg_right (by decide)⟩

lemma armTest_tested (h : armTest (some n) t next here value e = .ok u e1)
    (hc : ∀ c', t.cls = .ok c' → c' = c) (hn : n ≤ e.temps) (holds : site.Holds e) (holds1 : site.Holds e1) :
    ArmTested site c n next here (site.place e) (site.place e1) value := by
  cases value with
  | none =>
    obtain ⟨-, rfl⟩ := pure_eq_ok.mp h
    rfl
  | some v =>
    obtain ⟨c', hc', rfl⟩ := armTest_eq_ok h
    obtain rfl : c = c' := (hc c' hc').symm
    exact ⟨(holds.count 2 1).place_add _, e, hn, (holds.count 2 1).seg holds1⟩

lemma orNewLabel_before (site : Site) (h : orNewLabel code e = .ok here e1) :
    e.Before e1 ∧ e.labels ≤ e1.labels ∧ site.place e1 = site.place e ∧
      ∀ l, code = some l → l = here := by
  rcases orNewLabel_eq_ok h with ⟨rfl, rfl⟩ | ⟨rfl, -, rfl⟩
  · exact ⟨.refl e1, Int.le_refl _, rfl, fun _ h => (Option.some.inj h).symm⟩
  · exact ⟨(Emitter.Before.refl e).count, Int.le_add_of_nonneg_right (by decide), rfl, nofun⟩

lemma lowerArms_at (harms : ∀ arm ∈ arms, Runs ss arm.2) {tests : List Int} {last : Int}
    {k : Option Int} {e2 : Emitter}
    (h1 : lowerArms ss ctx (some n) t arms (tests ++ [last]) code e = .ok k e1)
    (h2 : k.forM label e1 = .ok u e2) (length : tests.length = arms.length)
    (hc : ∀ c', t.cls = .ok c' → c' = c) (hn : n ≤ e.temps) (hf : ctx.function.endLabel ≠ 0)
    (hl : 0 ≤ e.labels) :
    e.Before e2 ∧ (site.Holds e → site.Holds (e2.add [.label last]) →
      ArmsAt site ss ctx c n (site.place e2) arms ((tests ++ [last]).headD 0) code (site.place e)) := by
  induction arms generalizing tests code e with
  | nil =>
    obtain rfl := List.eq_nil_of_length_eq_zero length
    obtain ⟨rfl, rfl⟩ := pure_eq_ok.mp h1
    obtain rfl := forM_label_eq_ok h2
    refine ⟨(Emitter.Before.refl _).add, fun holds holds3 => ?_⟩
    have holds2 := holds.between holds3 (Emitter.Before.refl _).add (Emitter.Before.refl _).add
    refine .nil ?_ ?_ (holds2.seg holds3).head
    · rintro l rfl
      exact (holds.seg holds2).head
    · rw [holds.place_add, List.length_map]
  | cons arm arms ih =>
    obtain ⟨head, body⟩ := arm
    cases tests with
    | nil => cases length
    | cons test tests =>
      obtain ⟨here, e4, e6, h4, h6, h7⟩ := lowerArms_cons h1
      obtain ⟨before4, labels4, place4, same⟩ := orNewLabel_before site h4
      obtain ⟨before6, labels6⟩ := armTest_before h6
      have length' : tests.length = arms.length := by simpa using length
      have harms' : ∀ arm ∈ arms, Runs ss arm.2 := fun arm h => harms arm (.tail _ h)
      have before46 : e4.Before e6 := (Emitter.Before.refl _).add.trans before6
      have before : e.Before e6 := before4.trans before46
      have hn6 : n ≤ e6.temps := hn.trans before.temps
      have hl6 : 0 ≤ e6.labels := hl.trans (labels4.trans labels6)
      have begins (holds : site.Holds e) (holds6 : site.Holds e6) : site.code[site.place e]? = some (.label test) ∧
          ArmTested site c n ((tests ++ [last]).headD 0) here (site.place e + 1) (site.place e6) head.value := by
        have holds4 := holds.between holds6 before4 before46
        have opened := holds4.between holds6 (Emitter.Before.refl _).add before6
        have tested := armTest_tested h6 hc (hn.trans before4.temps) opened holds6
        rw [holds4.place_add] at tested
        rw [← place4]
        exact ⟨(holds4.seg opened).head, tested⟩
      rcases h7 with ⟨rfl, h7⟩ | ⟨full, x, e8, h8, h9⟩
      · obtain ⟨before', rest⟩ := ih harms' h7 length' hn6 hl6
        refine ⟨before.trans before', fun holds holds3 => ?_⟩
        have holds6 := holds.between holds3 before before'.add
        obtain ⟨top, tested⟩ := begins holds holds6
        exact .empty top tested same (rest holds6 holds3)
      · have wrote := harms _ (.head _) h8 hf hn6 hl6
        obtain ⟨before', rest⟩ := ih harms' h9 length' (hn6.trans wrote.temps) (hl6.trans wrote.labels)
        have before68 : e6.Before e8 := (Emitter.Before.refl _).add.trans wrote.before
        refine ⟨before.trans (before68.trans before'), fun holds holds3 => ?_⟩
        have holds8 := holds.between holds3 (before.trans before68) before'.add
        have holds6 := holds.between holds8 before before68
        have begun := holds6.between holds8 (Emitter.Before.refl _).add wrote.before
        obtain ⟨top, tested⟩ := begins holds holds6
        have place := holds6.place_add [.label here]
        rw [List.length_singleton] at place
        exact .full top tested same (holds6.seg begun).head full (place ▸ wrote.before.place site)
          ⟨_, e8, h8, begun, holds8, hn6, hl6, by rw [place]⟩ (rest holds8 holds3)

end

/-- The code of arms stands between two places, in their order. -/
structure ArmsSpread (arms : List (ArmHead × Tree)) (place done : Nat) (spans : Nat → Span) : Prop where
  reach : place ≤ done
  within : ∀ (k : Nat) (head : ArmHead) (body : Tree), arms[k]? = some (head, body) →
    body.isEmpty = false → place ≤ (spans k).first ∧ (spans k).last ≤ done
  ordered : ∀ (j k : Nat) (head head' : ArmHead) (body body' : Tree), arms[j]? = some (head, body) →
    body.isEmpty = false → arms[k]? = some (head', body') → body'.isEmpty = false → j < k →
      (spans j).last ≤ (spans k).first

/-- Where the code of arms stands, when their first test has a label and the arms before them run into
the code with another, and what running it does with the value in a temporary. -/
structure ArmsLaid (site : Site) (ss : Symbols) (ctx : Context) (c : Cls) (n : Nat)
    (arms : List (ArmHead × Tree)) (test : Int) (code : Option Int) (place done : Nat)
    (spans : Nat → Span) : Prop where
  spread : ArmsSpread arms place done spans
  bodies : ∀ (k : Nat) (head : ArmHead) (body : Tree), arms[k]? = some (head, body) →
    body.isEmpty = false → ∃ r, body.Placed site ss ctx n (spans k) r
  tested : ∃ p, site.code[p]? = some (.label test) ∧ (arms ≠ [] ∨ code = none → p = place) ∧
    ∀ {T : Target} (s : State T), s.pc = p →
      s.Comes site.code n (target done spans (selected c (c.read (s.temps (some n))) arms))
  shared : ∀ l, code = some l → ∃ p, site.code[p]? = some (.label l) ∧ (arms = [] → p = place) ∧
    ∀ {T : Target} (s : State T), s.pc = p →
      s.Comes site.code n (target done spans (firstCode arms))
  after : ∀ (k : Nat) (head : ArmHead) (body : Tree), arms[k]? = some (head, body) →
    body.isEmpty = false → ∀ {T : Target} (s : State T), s.pc = (spans k).last →
      s.Comes site.code n (target done spans
        ((selected c (c.read (s.temps (some n))) (arms.drop (k + 1))).map (· + (k + 1))))

variable {arms : List (ArmHead × Tree)} {head : ArmHead} {body : Tree} {test next here : Int} {code : Option Int}
  {place done q : Nat} {spans : Nat → Span}

lemma armsLaid_nil {last : Int} (joins : ∀ l, code = some l → site.code[place]? = some (.label l))
    (behind : done = place + code.toList.length) (ends : site.code[done]? = some (.label last)) :
    ArmsLaid site ss ctx c n [] last code place done fun _ => ⟨0, 0⟩ := by
  refine ⟨⟨by omega, by simp, by simp⟩, nofun, ⟨done, ends, ?_, fun s => .here⟩, ?_, nofun⟩
  · rintro (some | rfl)
    · exact absurd rfl some
    · exact behind
  · rintro l rfl
    refine ⟨place, joins l rfl, fun _ => rfl, fun s pc => .label (pc ▸ joins l rfl) (.here ?_)⟩
    exact (congrArg (· + 1) pc).trans behind.symm

lemma ArmsSpread.cons {place' : Nat} {span : Span} (rest : ArmsSpread arms place' done spans)
    (before : place ≤ place') (h : body.isEmpty = false → place ≤ span.first ∧ span.last ≤ place') :
    ArmsSpread ((head, body) :: arms) place done (pushSpan span spans) := by
  refine ⟨before.trans rest.reach, ?_, ?_⟩
  · rintro (_ | k) head' body' hk full
    · obtain ⟨-, rfl⟩ : head = head' ∧ body = body' := by simpa using hk
      exact ⟨(h full).1, (h full).2.trans rest.reach⟩
    · have := rest.within k head' body' hk full
      exact ⟨before.trans this.1, this.2⟩
  · rintro (_ | j) (_ | k) head1 head2 body1 body2 hj full1 hk full2 less
    · exact absurd less (Nat.lt_irrefl 0)
    · obtain ⟨-, rfl⟩ : head = head1 ∧ body = body1 := by simpa using hj
      exact (h full1).2.trans (rest.within k head2 body2 hk full2).1
    · exact absurd less (Nat.not_lt_zero _)
    · exact rest.ordered j k head1 head2 body1 body2 hj full1 hk full2 (Nat.lt_of_succ_lt_succ less)

lemma ArmTested.le (h : ArmTested site c n next here first last value) : first ≤ last := by
  cases value with
  | none => exact h.ge
  | some v => exact h.1 ▸ Nat.le_add_right first 5

lemma ArmTested.comes (h : ArmTested site c n next here first last head.value) {p yes no : Nat}
    (hp : site.code[p]? = some (.label here)) (hq : site.code[q]? = some (.label next)) {T : Target}
    {s : State T} (pc : s.pc = first)
    (taken : ∀ s1 : State T, s1.pc = p ∨ head.value = none ∧ s1.pc = last → s1.Comes site.code n yes)
    (passed : ∀ s1 : State T, s1.temps (some n) = s.temps (some n) → s1.pc = q →
      s1.Comes site.code n no) :
    s.Comes site.code n (if head.takes c (c.read (s.temps (some n))) then yes else no) := by
  cases value : head.value with
  | none =>
    rw [value] at h
    rw [ArmHead.takes, value]
    exact taken s (.inr ⟨value, pc.trans h.symm⟩)
  | some v =>
    rw [value] at h
    obtain ⟨-, e, hn, seg⟩ := h
    rw [← pc] at seg
    obtain ⟨tests, jump⟩ := seg.append
    refine .after (State.unequal_reaches site.nodup hn tests hq) (fun s1 h1 => h1.1.mono hn) ?_
    rintro s1 ⟨alike, pc1⟩
    by_cases equal : c.read (s.temps (some n)) = c.read v.toBitVec
    · have takes : head.takes c (c.read (s.temps (some n))) = true := by
        simp [ArmHead.takes, value, equal]
      rw [if_pos equal] at pc1
      rw [if_pos takes]
      refine .jump site.nodup ?_ hp (taken _ (.inl rfl))
      rw [pc1]
      exact jump.head
    · have takes : ¬ head.takes c (c.read (s.temps (some n))) = true := by
        simpa [ArmHead.takes, value] using Ne.symm equal
      rw [if_neg equal] at pc1
      rw [if_neg takes]
      exact passed s1 (alike.temps n hn) pc1

lemma ArmsLaid.cons_empty (rest : ArmsLaid site ss ctx c n arms next (some here) q done spans)
    (top : site.code[place]? = some (.label test))
    (h : ArmTested site c n next here (place + 1) q head.value) (last : head.value = none → arms = [])
    (hcode : ∀ l, code = some l → l = here) :
    ArmsLaid site ss ctx c n ((head, .empty) :: arms) test code place done (pushSpan ⟨0, 0⟩ spans) := by
  obtain ⟨spread, bodies, ⟨p', hp', -, tested⟩, shared, after⟩ := rest
  obtain ⟨p, hp, atEnd, share⟩ := shared here rfl
  have first : target done (pushSpan ⟨0, 0⟩ spans) (firstCode ((head, .empty) :: arms)) =
      target done spans (firstCode arms) := by rw [firstCode_empty, target_push]
  constructor
  case spread => exact spread.cons ((Nat.le_succ place).trans h.le) nofun
  case bodies =>
    rintro (_ | k) head' body' hk code
    · obtain ⟨-, rfl⟩ : head = head' ∧ Tree.empty = body' := by simpa using hk
      cases code
    · exact bodies k head' body' hk code
  case tested =>
    refine ⟨_, top, fun _ => rfl, fun s pc => .label (pc ▸ top) ?_⟩
    rw [selected, apply_ite (target done _), first, target_push]
    refine h.comes hp hp' (congrArg (· + 1) pc) ?_ ?_
    · rintro s1 (pc1 | ⟨none, pc1⟩)
      · exact share s1 pc1
      · exact share s1 (pc1.trans (atEnd (last none)).symm)
    · intro s1 same pc1
      have comes := tested s1 pc1
      rwa [same] at comes
  case shared =>
    intro l hl
    obtain rfl := hcode l hl
    exact ⟨p, hp, nofun, fun s pc => first ▸ share s pc⟩
  case after =>
    rintro (_ | k) head' body' hk code
    · obtain ⟨-, rfl⟩ : head = head' ∧ Tree.empty = body' := by simpa using hk
      cases code
    · intro T s pc
      have comes := after k head' body' hk code s pc
      rw [← target_push done ⟨0, 0⟩ spans, Option.map_map] at comes
      exact comes

lemma ArmsLaid.cons_body (rest : ArmsLaid site ss ctx c n arms next none last done spans)
    (top : site.code[place]? = some (.label test)) (h : ArmTested site c n next here (place + 1) q head.value)
    (door : site.code[q]? = some (.label here)) (full : body.isEmpty = false) (reach : q + 1 ≤ last)
    (placed : body.Placed site ss ctx n ⟨q + 1, last⟩ r) (hcode : ∀ l, code = some l → l = here) :
    ArmsLaid site ss ctx c n ((head, body) :: arms) test code place done (pushSpan ⟨q + 1, last⟩ spans) := by
  obtain ⟨spread, bodies, ⟨p', hp', atEnd, tested⟩, -, after⟩ := rest
  have inside {T : Target} (s : State T) (pc : s.pc = q) : s.Comes site.code n (q + 1) :=
    .label (pc ▸ door) (.here (congrArg (· + 1) pc))
  constructor
  case spread =>
    have := h.le
    exact spread.cons (by omega) fun _ => ⟨show place ≤ q + 1 by omega, Nat.le_refl _⟩
  case bodies =>
    rintro (_ | k) head' body' hk code
    · obtain ⟨-, rfl⟩ : head = head' ∧ body = body' := by simpa using hk
      exact ⟨r, placed⟩
    · exact bodies k head' body' hk code
  case tested =>
    refine ⟨_, top, fun _ => rfl, fun s pc => .label (pc ▸ top) ?_⟩
    rw [selected, apply_ite (target done _), firstCode_body head arms full, target_push]
    refine h.comes door hp' (congrArg (· + 1) pc) ?_ ?_
    · rintro s1 (pc1 | ⟨-, pc1⟩)
      · exact inside s1 pc1
      · exact inside s1 pc1
    · intro s1 same pc1
      have comes := tested s1 pc1
      rwa [same] at comes
  case shared =>
    intro l hl
    obtain rfl := hcode l hl
    refine ⟨_, door, nofun, fun s pc => ?_⟩
    rw [firstCode_body head arms full]
    exact inside s pc
  case after =>
    rintro (_ | k) head' body' hk code
    · intro T s pc
      have comes := tested s (pc.trans (atEnd (.inr rfl)).symm)
      rw [← target_push done ⟨q + 1, last⟩ spans] at comes
      exact comes
    · intro T s pc
      have comes := after k head' body' hk code s pc
      rw [← target_push done ⟨q + 1, last⟩ spans, Option.map_map] at comes
      exact comes

lemma ArmsAt.laid (h : ArmsAt site ss ctx c n done arms test code place)
    (defaultLast : ∀ arm ∈ arms.dropLast, arm.1.value ≠ none) :
    ∃ spans, ArmsLaid site ss ctx c n arms test code place done spans := by
  have split {a : ArmHead × Tree} {arms : List (ArmHead × Tree)} (h : ∀ arm ∈ (a :: arms).dropLast, arm.1.value ≠ none) :
      (a.1.value = none → arms = []) ∧ ∀ arm ∈ arms.dropLast, arm.1.value ≠ none := by
    cases arms with
    | nil => simp
    | cons b arms => exact ⟨fun none => absurd none (h a (.head _)), fun arm mem => h arm (.tail _ mem)⟩
  induction h with
  | nil joins behind ends => exact ⟨_, armsLaid_nil joins behind ends⟩
  | empty top tested same _ ih =>
    obtain ⟨alone, others⟩ := split defaultLast
    obtain ⟨spans, laid⟩ := ih others
    exact ⟨_, laid.cons_empty top tested alone same⟩
  | full top tested same door full reach placed _ ih =>
    obtain ⟨spans, laid⟩ := ih (split defaultLast).2
    exact ⟨_, laid.cons_body top tested door full reach placed same⟩

end Tree
end SmallC
