import SmallC.Proofs.Switches

/-!
# What `continue` does

Where the code of each statement of a loop's body stands: code nests as the statements do and comes in their
order. The last part of the head of a `for` loop is computed behind its body. `continue` leads to the test at
once, so the last part of the head is passed over.
-/

namespace SmallC

open Ir Lower

namespace Tree

variable {k : Nat}

/-- The statements that a statement is made of and that belong to the same loop. -/
def child? : Tree → Nat → Option Tree
  | .block _ ts, k => ts[k]?
  | .branch _ _ a b, k => [a, b][k]?
  | .switch _ _ arms, k => arms[k]?.map Prod.snd
  | _, _ => none

def follow (t : Tree) : List Nat → Option Tree
  | [] => some t
  | k :: route => (t.child? k).bind (·.follow route)

variable {t u v : Tree} {route : List Nat} {place : List Nat → Span}

lemma follow_cons (h : t.follow (k :: route) = some u) : ∃ a, t.child? k = some a ∧ a.follow route = some u :=
  Option.bind_eq_some_iff.mp h

lemma child_branch {a b : Tree} (h : (Tree.branch i c a b).child? k = some u) :
    k = 0 ∧ a = u ∨ k = 1 ∧ b = u := by
  rcases k with _ | _ | k
  · exact .inl ⟨rfl, Option.some.inj h⟩
  · exact .inr ⟨rfl, Option.some.inj h⟩
  · cases h

lemma full_of_child (h : t.child? k = some u) : t.isEmpty = false := by
  cases t with
  | empty => cases h
  | _ => rfl

lemma full_of_follow (h : t.follow route = some u) (full : u.isEmpty = false) : t.isEmpty = false := by
  cases route with
  | nil =>
    obtain rfl := Option.some.inj h
    exact full
  | cons k route =>
    obtain ⟨a, child, -⟩ := follow_cons h
    exact full_of_child child

/-- The code of statements lies in that of the statements around them, and in their order. -/
structure Nested (t : Tree) (place : List Nat → Span) : Prop where
  inside : ∀ route k u, t.follow (route ++ [k]) = some u → u.isEmpty = false →
    (place route).first ≤ (place (route ++ [k])).first ∧ (place (route ++ [k])).last ≤ (place route).last
  ordered : ∀ route j k u v, t.follow (route ++ [j]) = some u → u.isEmpty = false →
    t.follow (route ++ [k]) = some v → v.isEmpty = false → j < k →
      (place (route ++ [j])).last ≤ (place (route ++ [k])).first

variable {ss : Symbols} {scope : Scope} {site : Site} {ctx : Context} {n : Nat} {span : Span} {r : Temp}

lemma Placed.le (h : t.Placed site ss ctx n span r) : span.first ≤ span.last := by
  obtain ⟨_, _, ls, -, -, -, last⟩ := h.standsAt
  omega

/-- All statements of a statement have their places, and a `continue` in them leads where one around them
leads. -/
def Spread (site : Site) (ss : Symbols) (ctx : Context) (n : Nat) (t : Tree) (span : Span) : Prop :=
  ∃ place, place [] = span ∧ t.Nested place ∧ ∀ route u, t.follow route = some u → u.isEmpty = false →
    ∃ inside r, inside.loopTop = ctx.loopTop ∧ u.Placed site ss inside n (place route) r

lemma Spread.of_children (h : t.Placed site ss ctx n span r) (spans : Nat → Span)
    (within : ∀ k a, t.child? k = some a → a.isEmpty = false →
      span.first ≤ (spans k).first ∧ (spans k).last ≤ span.last)
    (order : ∀ j k a b, t.child? j = some a → a.isEmpty = false → t.child? k = some b → b.isEmpty = false →
      j < k → (spans j).last ≤ (spans k).first)
    (each : ∀ k a, t.child? k = some a → a.isEmpty = false →
      ∃ inside, inside.loopTop = ctx.loopTop ∧ Spread site ss inside n a (spans k)) :
    Spread site ss ctx n t span := by
  have parts : ∀ k, ∃ place : List Nat → Span, ∀ a, t.child? k = some a → a.isEmpty = false →
      place [] = spans k ∧ a.Nested place ∧ ∀ route u, a.follow route = some u → u.isEmpty = false →
        ∃ inside r, inside.loopTop = ctx.loopTop ∧ u.Placed site ss inside n (place route) r := by
    intro k
    by_cases some : ∃ a, t.child? k = some a ∧ a.isEmpty = false
    · obtain ⟨a, child, full⟩ := some
      obtain ⟨inside, same, place, whole, nested, stands⟩ := each k a child full
      refine ⟨place, fun b child' _ => ?_⟩
      obtain rfl := Option.some.inj (child.symm.trans child')
      exact ⟨whole, nested, same ▸ stands⟩
    · exact ⟨fun _ => span, fun a child full => absurd ⟨a, child, full⟩ some⟩
  choose places parts using parts
  refine ⟨fun | [] => span | k :: route => places k route, rfl, ⟨?_, ?_⟩, ?_⟩
  · rintro (_ | ⟨j, route⟩) k u found full
    · obtain ⟨a, child, rfl⟩ : ∃ a, t.child? k = some a ∧ a = u := by simpa [follow] using found
      simp only [List.nil_append, (parts k a child full).1]
      exact within k a child full
    · obtain ⟨a, child, found⟩ := follow_cons found
      exact (parts j a child (full_of_follow found full)).2.1.inside route k u found full
  · rintro (_ | ⟨m, route⟩) j k u v found full found' full' less
    · obtain ⟨a, child, rfl⟩ : ∃ a, t.child? j = some a ∧ a = u := by simpa [follow] using found
      obtain ⟨b, child', rfl⟩ : ∃ b, t.child? k = some b ∧ b = v := by simpa [follow] using found'
      simp only [List.nil_append, (parts j a child full).1, (parts k b child' full').1]
      exact order j k a b child full child' full' less
    · obtain ⟨a, child, found⟩ := follow_cons found
      obtain ⟨b, child', found'⟩ := follow_cons found'
      obtain rfl := Option.some.inj (child.symm.trans child')
      exact (parts m a child (full_of_follow found full)).2.1.ordered route j k u v found full found' full' less
  · rintro (_ | ⟨k, route⟩) u found full
    · obtain rfl := Option.some.inj found
      exact ⟨ctx, r, rfl, h⟩
    · obtain ⟨a, child, found⟩ := follow_cons found
      exact (parts k a child (full_of_follow found full)).2.2 route u found full

lemma Spread.of_leaf (h : t.Placed site ss ctx n span r) (leaf : ∀ k, t.child? k = none) :
    Spread site ss ctx n t span := by
  refine .of_children h (fun _ => span) ?_ ?_ ?_
  · intro k a child
    rw [leaf] at child
    cases child
  · intro j k a b child
    rw [leaf] at child
    cases child
  · intro k a child
    rw [leaf] at child
    cases child

lemma IsStatement.spread (ht : IsStatement ss scope t) (h : t.Placed site ss ctx n span r)
    (hf : ctx.function.endLabel ≠ 0) : Spread site ss ctx n t span := by
  induction ht generalizing ctx n span r with
  | block hts ih =>
    rename_i i ts
    obtain ⟨e, e', lower, holds, holds', hn, hl, rfl⟩ := id h
    obtain ⟨_, e1, h1, h2⟩ := bind_eq_ok.mp lower
    obtain ⟨-, rfl⟩ := pure_eq_ok.mp h2
    obtain ⟨ends, mono, first, last, each⟩ :=
      lowerAll_placed (fun t ht => (hts t ht).runs) h1 holds holds' hf hn hl
    refine .of_children h (fun k => ⟨ends k, ends (k + 1)⟩) ?_ ?_ ?_
    · intro k a child _
      have bound : k < ts.length := (List.getElem?_eq_some_iff.mp child).1
      exact ⟨first ▸ mono (Nat.zero_le k), last ▸ mono bound⟩
    · intro j k a b _ _ _ _ less
      exact mono less
    · intro k a child _
      obtain ⟨r, placed⟩ := each k a child
      exact ⟨ctx.under .glue, rfl, ih a (List.mem_of_getElem? child) placed hf⟩
  | branch hc ha hb iha ihb =>
    rename_i i c a b
    obtain ⟨l, yes, no, laid⟩ := h.branch hc.decides ha.runs hb.runs hf
    obtain ⟨r, placed⟩ := laid.taken
    refine .of_children h (fun k => if k = 0 then yes else no) ?_ ?_ ?_
    · intro k u child full
      rcases child_branch child with ⟨rfl, rfl⟩ | ⟨rfl, rfl⟩
      · exact ⟨laid.opening, laid.closing⟩
      · obtain ⟨-, -, -, behind, -, -, last⟩ := laid.two full
        have := laid.opening
        have := placed.le
        exact ⟨by simp; omega, by simp; omega⟩
    · intro j k u v child _ child' full less
      rcases child_branch child with ⟨rfl, rfl⟩ | ⟨rfl, rfl⟩ <;>
        rcases child_branch child' with ⟨rfl, rfl⟩ | ⟨rfl, rfl⟩
      · exact absurd less (Nat.lt_irrefl 0)
      · obtain ⟨-, -, -, behind, -⟩ := laid.two full
        exact behind ▸ Nat.le_add_right _ _
      · exact absurd less (Nat.not_lt_zero 1)
      · exact absurd less (Nat.lt_irrefl 1)
    · intro k u child full
      rcases child_branch child with ⟨rfl, rfl⟩ | ⟨rfl, rfl⟩
      · exact ⟨ctx.condition .ifElse 0, rfl, iha placed hf⟩
      · obtain ⟨-, -, -, -, ⟨z, placed'⟩, -⟩ := laid.two full
        exact ⟨ctx.condition .ifElse 0, rfl, ihb placed' hf⟩
  | switch ha la some ordered harms ih =>
    rename_i i a arms
    obtain ⟨m, first, done, inside, test, same, top, old, opening, closing, -, -, laid⟩ :=
      h.switch ha la (fun arm mem => (harms arm mem).runs) hf
    obtain ⟨spans, laid⟩ := laid.laid ordered.defaultLast
    rw [← same] at hf
    refine .of_children h spans ?_ ?_ ?_
    · intro k u child full
      obtain ⟨⟨head, body⟩, hk, rfl⟩ := Option.map_eq_some_iff.mp child
      have within := laid.spread.within k head body hk full
      exact ⟨opening.trans within.1, within.2.trans (closing ▸ Nat.le_succ done)⟩
    · intro j k u v child full child' full' less
      obtain ⟨⟨head, body⟩, hj, rfl⟩ := Option.map_eq_some_iff.mp child
      obtain ⟨⟨head', body'⟩, hk, rfl⟩ := Option.map_eq_some_iff.mp child'
      exact laid.spread.ordered j k head head' body body' hj full hk full' less
    · intro k u child full
      obtain ⟨⟨head, body⟩, hk, rfl⟩ := Option.map_eq_some_iff.mp child
      obtain ⟨r, placed⟩ := laid.bodies k head body hk full
      exact ⟨inside, top, ih _ (List.mem_of_getElem? hk) (placed.mono old) hf⟩
  | expression ht lt => exact .of_leaf h fun k => by cases ht <;> rfl
  | _ => exact .of_leaf h fun k => rfl

lemma Part.trans (h : Part t u) (h' : Part u v) : Part t v := by
  induction h' with
  | self => exact h
  | member mem _ ih => exact .member mem ih
  | yes _ ih => exact .yes ih
  | no _ ih => exact .no ih
  | body _ ih => exact .body ih
  | arm mem _ ih => exact .arm mem ih

/-- Where the code of a `for` loop stands and how the test of its condition is come to again. The last part of
the head is computed from `ends 0` on. -/
structure ForLaid (ss : Symbols) (text : List Line) (c : Tree) (last : List Tree) (body : Tree) (top : Nat)
    (ends : Nat → Nat) (place : List Nat → Span) : Prop where
  label : ∃ l, text[top]? = some (.label l)
  test : ∃ stop ctx r, c.StandsAt ss ctx text ⟨top + 1, stop⟩ r
  nested : body.Nested place
  stands : ∀ route u, body.follow route = some u → u.isEmpty = false →
    ∃ ctx r, u.StandsAt ss ctx text (place route) r
  behind : body.isEmpty = false → (place []).last = ends 0
  lasts : ∀ (k : Nat) (t : Tree), last[k]? = some t →
    ∃ ctx r, t.StandsAt ss ctx text ⟨ends k, ends (k + 1)⟩ r
  again : ∀ {T : Target} (s : State T), s.pc = ends last.length → s.step text = some { s with pc := top }
  continues : ∀ route i, body.follow route = some (.continueOn i) → ∀ {T : Target} (s : State T),
    s.pc = (place route).first → s.step text = some { s with pc := top }

variable {i : Info} {c body : Tree} {last : List Tree}

lemma Placed.continueOn (h : (Tree.continueOn i).Placed site ss ctx n span r) :
    site.code[span.first]? = some (.instr (.jump ctx.loopTop)) := by
  obtain ⟨e, e', lower, holds, holds', -, -, rfl⟩ := h
  exact (jump_before site lower).2 holds holds'

lemma step_jump {l : Int} {p q : Nat} (hp : site.code[p]? = some (.instr (.jump l)))
    (hq : site.code[q]? = some (.label l)) {T : Target} {s : State T} (pc : s.pc = p) :
    s.step site.code = some { s with pc := q } := by
  rw [State.step, pc, hp]
  exact State.goto_eq site.nodup hq s

lemma not_followed (empty : t.isEmpty = true) (h : t.follow route = some u) (full : u.isEmpty = false) : False := by
  rw [full_of_follow h full] at empty
  cases empty

lemma Placed.forLaid {j : Info}
    (h : (Tree.loop i c (.block j (if body.isEmpty then last else body :: last))).Placed site ss ctx n span r)
    (ht : IsStatement ss scope (.loop i c (.block j (if body.isEmpty then last else body :: last))))
    (hf : ctx.function.endLabel ≠ 0) :
    ∃ ends place, ForLaid ss site.code c last body span.first ends place := by
  cases ht with
  | expression ht => cases ht
  | loop hc ha =>
    obtain ⟨inside, whole, y, same, top, tested, placed, back, -⟩ := h.loop hc.decides ha.runs hf
    obtain ⟨test, stop, x, tests⟩ := tested.standsAt
    rw [← same] at hf
    cases ha with
    | expression ht => cases ht
    | block hts =>
      obtain ⟨e, e', lower, holds, holds', hn, hl, rfl⟩ := placed
      obtain ⟨_, e1, h1, h2⟩ := bind_eq_ok.mp lower
      obtain ⟨-, rfl⟩ := pure_eq_ok.mp h2
      obtain ⟨ends, -, -, finish, each⟩ :=
        lowerAll_placed (fun t ht => (hts t ht).runs) h1 holds holds' hf hn hl
      have back : site.code[ends _]? = _ := finish.symm ▸ back.head
      have stands {u : Tree} {ctx : Context} {span : Span} (h : ∃ r, u.Placed site ss ctx n span r) :
          ∃ ctx r, u.StandsAt ss ctx site.code span r :=
        ⟨ctx, h.choose, h.choose_spec.standsAt⟩
      cases empty : body.isEmpty with
      | true =>
        simp only [empty, if_true] at each back
        refine ⟨ends, fun _ => span, ⟨_, top⟩, ⟨_, _, _, tests⟩, ⟨?_, ?_⟩, ?_, ?_, ?_, ?_, ?_⟩
        · exact fun _ _ _ found full => (not_followed empty found full).elim
        · exact fun _ _ _ _ _ found full => (not_followed empty found full).elim
        · exact fun _ _ found full => (not_followed empty found full).elim
        · intro full
          rw [empty] at full
          cases full
        · exact fun k t hk => stands (each k t hk)
        · exact fun s pc => step_jump back top pc
        · exact fun _ _ found => (not_followed empty found rfl).elim
      | false =>
        simp only [empty, Bool.false_eq_true, if_false] at each back hts
        obtain ⟨z, placed⟩ := each 0 body rfl
        obtain ⟨place, first, nested, places⟩ := (hts body (.head _)).spread placed hf
        refine ⟨fun k => ends (k + 1), place, ⟨_, top⟩, ⟨_, _, _, tests⟩, nested, ?_, ?_, ?_, ?_, ?_⟩
        · intro route u found full
          obtain ⟨inside, r, -, placed⟩ := places route u found full
          exact stands ⟨r, placed⟩
        · intro _
          rw [first]
        · exact fun k t hk => stands (each (k + 1) t hk)
        · exact fun s pc => step_jump back top pc
        · intro route i found T s pc
          obtain ⟨within, r, sameTop, placed⟩ := places route _ found rfl
          have jump := placed.continueOn
          rw [sameTop] at jump
          exact step_jump jump top pc

end Tree

/-- For every `for` loop in a function: behind the code of its body stands that of the last part of its
head, and behind this a jump to the test of the condition. All that `continue` does at any place in the
body is to jump to that test. -/
theorem compile_continues {file source code : Text}
    (h : (Session.compile { file } source).1.outcome = .ok code) :
    List.Forall₂ (fun (d : Definition) text => ∀ line first c last body,
      (Parse.forLoop line first c last body).Part d.body →
        ∃ top ends place, Tree.ForLaid d.settled text c last body top ends place)
      (Session.compile { file } source).1.functions
      (texts (Session.compile { file } source).2.out.lines.toList) := by
  obtain ⟨s, leads, hfunctions, hout, rfl⟩ := compile_leads h
  simp only [hfunctions, hout]
  have sound := leads.sound
  refine sound.layout.written.imp fun d text ⟨hd, piece⟩ line first c last body part => ?_
  have inside : (labelsOf text).Sublist (labelsOf _) := piece.sublist.filterMap _
  obtain ⟨site, rfl, span, r, placed⟩ := hd.placed (sound.nodup.sublist inside)
  obtain ⟨scope, shape⟩ := hd.isStatement
  have positive : d.symbol.endLabel ≠ 0 := Int.ne_of_gt hd.positive
  have loop : (Tree.loop { line } c (.block { line } (if body.isEmpty then last else body :: last))).Part d.body :=
    .trans (.member (by simp) .self) part
  obtain ⟨shape, ctx, span, r, same, placed⟩ := loop.placed rfl shape placed positive
  exact ⟨span.first, placed.forLaid shape (same ▸ positive)⟩

/-- A `continue` stands at the end of the route. -/
def Tree.continuesAt (t : Tree) (route : List Nat) : Bool :=
  match t.follow route with
  | some (.continueOn _) => true
  | _ => false

/-- The second of three statements is a loop with a head of three parts, the last of two expressions. -/
def Tree.countsBoth : Tree → Bool
  | .block _ [_, .block i [_, .loop j _ (.block k (body :: last))], _] =>
    decide (i = { line := i.line } ∧ j = { line := i.line } ∧ k = { line := i.line } ∧ last.length = 2 ∧
      body.isEmpty = false) && body.continuesAt [0, 0, 0, 0]
  | _ => false

/-- Two expressions in the last part of the head, and a `continue` in a branch in a switch. -/
theorem compile_continues_nested :
    let source : Text := "int f(int n) \x7b int i; int s; s = 0; for (i = 0; i < n; i++, s = s + 1) " ++
      "\x7b switch (i) \x7b case 1: if (s) continue; \x7d \x7d return s; \x7d"
    (∃ code, (Session.compile { file := "t.c" } source).1.outcome = .ok code) ∧
      (Session.compile { file := "t.c" } source).1.functions.length = 1 ∧
      List.Forall₂ (fun (d : Definition) text => ∃ line first c last body,
          (Parse.forLoop line first c last body).Part d.body ∧ last.length = 2 ∧
          (∃ i, body.follow [0, 0, 0, 0] = some (.continueOn i)) ∧
          ∃ top ends place, Tree.ForLaid d.settled text c last body top ends place)
        (Session.compile { file := "t.c" } source).1.functions
        (texts (Session.compile { file := "t.c" } source).2.out.lines.toList) := by
  intro source
  obtain ⟨code, ok⟩ := exists_of_isSome (x := (Session.compile { file := "t.c" } source).1.outcome)
    (by decide +kernel)
  have found : ∀ d ∈ (Session.compile { file := "t.c" } source).1.functions,
      d.body.countsBoth = true := by decide +kernel
  refine ⟨⟨code, ok⟩, by decide +kernel, ?_⟩
  refine ((List.forall₂_and_left _ _).mpr ⟨found, compile_continues ok⟩).imp ?_
  rintro d text ⟨found, laid⟩
  unfold Tree.countsBoth at found
  split at found
  · rename_i i first j c k body last result shape
    obtain ⟨found, route⟩ := Bool.and_eq_true_iff.mp found
    obtain ⟨hi, hj, hk, two, full⟩ := of_decide_eq_true found
    have part : (Parse.forLoop i.line [first] c last body).Part d.body := by
      rw [shape, hi, hj, hk]
      simp only [Parse.forLoop, full]
      exact .member (.tail _ (.head _)) .self
    refine ⟨i.line, [first], c, last, body, part, two, ?_, laid _ _ _ _ _ part⟩
    unfold Tree.continuesAt at route
    split at route
    · rename_i i found
      exact ⟨i, found⟩
    · cases route
  · cases found

/-- The last part of the head is not computed behind `continue`: two rounds leave `x` as it was. -/
theorem compile_passes_over :
    let source : Text :=
      "int f(int x) \x7b int i; for (i = 0; i < 2; x = x + 1) \x7b i = i + 1; continue; \x7d return x; \x7d"
    let s := State.entered fun _ => 0
    (∃ code, (Session.compile { file := "t.c" } source).1.outcome = .ok code) ∧
      (texts (Session.compile { file := "t.c" } source).2.out.lines.toList).length = 1 ∧
      ∀ text ∈ texts (Session.compile { file := "t.c" } source).2.out.lines.toList,
        s.Returns text 0 ∧ ¬ s.Returns text 2 := by
  intro source s
  obtain ⟨code, ok⟩ := exists_of_isSome (x := (Session.compile { file := "t.c" } source).1.outcome)
    (by decide +kernel)
  have run : ∀ text ∈ texts (Session.compile { file := "t.c" } source).2.out.lines.toList,
      ((s.run text 47).map fun s' => (text[s'.pc]?, s'.result.setWidth 32)) =
        some (some (.ret true), 0) := by decide +kernel
  refine ⟨⟨code, ok⟩, by decide +kernel, fun text mem => ?_⟩
  have returns := State.returns_iff_of_run (run text mem)
  exact ⟨(returns 0).mpr rfl, fun two => absurd ((returns 2).mp two) (by decide)⟩

end SmallC
