import SmallC.Proofs.Lowering.Arms
import SmallC.Proofs.Lowering.Supply
import SmallC.Proofs.Refinement

/-!
# What a switch does

The value of a switch is computed once and kept in a temporary. Testing begins at the first arm and
comes to the code of the arm that is `selected`. When that code comes to its end, the arms that follow
it are tested in the same way: their code is not fallen into. As the values of arms are different,
this is the code of `default`, if there is one, except that words have fewer bits than the values
they are compared with. `break` leads to the end.
-/

namespace SmallC

open Ir Lower

namespace Ir.State

variable {T : Target} {code : List Line} {s s' : State T} {n m : Nat}

lemma set_temps {v : BitVec 64} {dest : Dest} (h : s.set v dest = some s')
    (other : ∀ k, dest = .temp (some k) → m ≠ k) : s'.temps (some m) = s.temps (some m) := by
  cases dest with
  | temp t =>
    cases h
    rw [setTemp_temps, if_neg]
    rintro rfl
    exact other m rfl rfl
  | named place =>
    cases place with
    | frame name =>
      cases h
      rfl
    | global name => cases h
  | result =>
    cases h
    rfl

lemma goto_temps {l : Int} (h : s.goto code l = some s') : s'.temps = s.temps := by
  obtain ⟨p, -, rfl⟩ := Option.map_eq_some_iff.mp h
  rfl

lemma step_temps {line : Line} (h : s.step code = some s') (hline : code[s.pc]? = some line)
    (spares : line.Spares n) (hm : m ≤ n) : s'.temps (some m) = s.temps (some m) := by
  rw [State.step, hline] at h
  cases line with
  | label l =>
    cases h
    rfl
  | instr i =>
    cases i with
    | set dest c rhs =>
      obtain ⟨⟨v, world⟩, -, h⟩ := Option.bind_eq_some_iff.mp h
      obtain ⟨s1, hset, rfl⟩ := Option.map_eq_some_iff.mp h
      rw [next_temps]
      refine (set_temps hset ?_).trans rfl
      rintro k rfl
      exact Nat.ne_of_lt (Nat.lt_of_le_of_lt hm spares)
    | call f args =>
      obtain ⟨_, -, rfl⟩ := Option.map_eq_some_iff.mp h
      rfl
    | store w v address =>
      obtain ⟨_, -, rfl⟩ := Option.map_eq_some_iff.mp h
      rfl
    | jump l => rw [goto_temps h]
    | branch t yes no => rw [goto_temps h]
  | _ => cases h

end Ir.State

namespace Tree

variable {c : Tree}

/-- A statement stands in another one, or is it. -/
inductive Part (t : Tree) : Tree → Prop
  | self : Part t t
  | member {i ts a} (mem : a ∈ ts) (h : Part t a) : Part t (.block i ts)
  | yes {i c a b} (h : Part t a) : Part t (.branch i c a b)
  | no {i c a b} (h : Part t b) : Part t (.branch i c a b)
  | body {i c a} (h : Part t a) : Part t (.loop i c a)
  | arm {i a arms} {arm : ArmHead × Tree} (mem : arm ∈ arms) (h : Part t arm.2) :
      Part t (.switch i a arms)

/-- The code of a tree stands among lines and leaves its value in a temporary. -/
def StandsAt (ss : Symbols) (ctx : Context) (text : List Line) (t : Tree) (span : Span) (r : Temp) :
    Prop :=
  ∃ e e' ls, t.lower ss ctx e = .ok r e' ∧ e'.lines.toList = e.lines.toList ++ ls ∧
    Seg text span.first ls ∧ span.last = span.first + ls.length

/-- The class as which the value of a switch is compared. -/
def comparedAs (a : Tree) : Cls := a.type.cls.toOption.getD .word

/-- Where the code of a switch stands, and what running it does. Its value is in the temporary `n`,
the tests begin at `first`, and `spans` tells where the code of each arm is. -/
structure SwitchLaid (ss : Symbols) (text : List Line) (a : Tree) (arms : List (ArmHead × Tree))
    (ctx : Context) (n first done : Nat) (spans : Nat → Span) : Prop where
  scrutinee : ∃ start ctx, a.StandsAt ss ctx text ⟨start, first⟩ (some n)
  leave : text[done]? = some (.label ctx.loopEnd)
  bodies : ∀ (k : Nat) (head : ArmHead) (body : Tree), arms[k]? = some (head, body) →
    body.isEmpty = false → ∃ r, body.StandsAt ss ctx text (spans k) r
  kept : ∀ (k : Nat) (head : ArmHead) (body : Tree), arms[k]? = some (head, body) →
    body.isEmpty = false → ∀ {T : Target} (s s' : State T), (spans k).first ≤ s.pc →
      s.pc < (spans k).last → s.step text = some s' → s'.temps (some n) = s.temps (some n)
  tested : ∀ {T : Target} (s : State T), s.pc = first → s.Comes text n
    (target done spans (selected a.comparedAs (a.comparedAs.read (s.temps (some n))) arms))
  after : ∀ (k : Nat) (head : ArmHead) (body : Tree), arms[k]? = some (head, body) →
    body.isEmpty = false → ∀ {T : Target} (s : State T), s.pc = (spans k).last → s.Comes text n
      (target done spans ((selected a.comparedAs (a.comparedAs.read (s.temps (some n)))
        (arms.drop (k + 1))).map (· + (k + 1))))

lemma Part.full (part : Part u t) (h : u.isEmpty = false) : t.isEmpty = false := by
  cases part with
  | self => exact h
  | _ => rfl

variable {ss : Symbols} {scope : Scope} {site : Site} {ctx : Context} {n : Nat} {t u : Tree}
  {span : Span} {r : Temp} {i : Info} {a : Tree} {arms : List (ArmHead × Tree)}

variable {e e' : Emitter}

lemma lines_at {ls : List Line} (holds : site.Holds e) (holds' : site.Holds e')
    (lines : e'.lines.toList = e.lines.toList ++ ls) :
    Seg site.code (site.place e) ls ∧ site.place e' = site.place e + ls.length := by
  have added : (e.add ls).lines.toList = e'.lines.toList := by rw [Emitter.add_lines, lines]
  have size : (e.add ls).lines.size = e'.lines.size := by
    rw [← Array.length_toList, ← Array.length_toList, added]
  have holdsAdd : site.Holds (e.add ls) := ⟨size ▸ holds'.begun, added ▸ holds'.part⟩
  refine ⟨holds.seg holdsAdd, ?_⟩
  rw [← holds.place_add, Site.place, Site.place, size]

lemma standsAt_of_lower (h : t.lower ss ctx e = .ok r e') (holds : site.Holds e)
    (holds' : site.Holds e') : t.StandsAt ss ctx site.code ⟨site.place e, site.place e'⟩ r := by
  obtain ⟨ls, lines, -⟩ := (writes_inner.fills h).lines
  obtain ⟨seg, place⟩ := lines_at holds holds' lines
  exact ⟨e, e', ls, h, lines, seg, place⟩

lemma Placed.mono {m : Nat} (h : t.Placed site ss ctx m span r) (hn : n ≤ m) :
    t.Placed site ss ctx n span r := by
  obtain ⟨e, e', lower, holds, holds', hm, rest⟩ := h
  exact ⟨e, e', lower, holds, holds', hn.trans hm, rest⟩

lemma Placed.standsAt (h : t.Placed site ss ctx n span r) : t.StandsAt ss ctx site.code span r := by
  obtain ⟨e, e', lower, holds, holds', -, -, rfl⟩ := h
  exact standsAt_of_lower lower holds holds'

lemma Placed.kept (h : t.Placed site ss ctx n span r) (runs : Runs ss t)
    (hf : ctx.function.endLabel ≠ 0) {T : Target} {s s' : State T} (first : span.first ≤ s.pc)
    (last : s.pc < span.last) (step : s.step site.code = some s') :
    s'.temps (some n) = s.temps (some n) := by
  obtain ⟨e, e', lower, holds, holds', hn, hl, rfl⟩ := h
  obtain ⟨ls, lines, has⟩ := (runs lower hf hn hl).lines
  obtain ⟨seg, place⟩ := lines_at holds holds' lines
  obtain ⟨k, hk⟩ := Nat.exists_eq_add_of_le first
  simp only at hk last place
  have inside : k < ls.length := by omega
  have line := seg k ls[k] (List.getElem?_eq_getElem inside)
  rw [← hk] at line
  exact State.step_temps step line (has.spares _ (List.getElem_mem inside)) (Nat.le_refl n)

lemma Placed.switch (h : (Tree.switch i a arms).Placed site ss ctx n span r)
    (ha : IsExpression ss scope a) (la : a.Loaded) (harms : ∀ arm ∈ arms, Runs ss arm.2)
    (hf : ctx.function.endLabel ≠ 0) :
    ∃ m first done inside test, inside.function = ctx.function ∧ inside.loopTop = ctx.loopTop ∧
      n ≤ m ∧ span.first ≤ first ∧ span.last = done + 1 ∧
      a.Placed site ss (ctx.under .switchOn) n ⟨span.first, first⟩ (some m) ∧
      site.code[done]? = some (.label inside.loopEnd) ∧
      ArmsAt site ss inside a.comparedAs m done arms test none first := by
  obtain ⟨e, e', h, holds, holds', hn, hl, rfl⟩ := h
  obtain ⟨last, tests, x, e3, code, e4, e5, -, length, -, -, h3, h4, h5, rfl⟩ := lower_switch h
  have hl2 : 0 ≤ (e.count 0 (1 + arms.length)).labels := by
    simp only [Emitter.count_labels]; omega
  obtain ⟨w, above⟩ : Wrote n _ _ _ ∧ Temp.Above n e3 x := ha.computes h3 (.inl la) hn hl2
  obtain ⟨m, rfl, -⟩ := ha.supplies h3 la.valued
  obtain ⟨old, new⟩ := above m rfl
  have hc : ∀ c, a.type.cls = .ok c → c = a.comparedAs := by
    intro c h
    rw [comparedAs, h]
    rfl
  obtain ⟨before, laid⟩ := lowerArms_at harms h4 h5 length hc new hf (hl2.trans w.labels)
  have holds2 := holds.count 0 (1 + arms.length)
  have holds3 := holds2.between holds' w.before before.add
  have holds5 := holds3.between holds' before (Emitter.Before.refl _).add
  have opening : e.Before e3 := (Emitter.Before.refl e).count.trans w.before
  exact ⟨m, site.place e3, site.place e5, { ctx with ifLabel := 0, loopEnd := last, parent := .switchOn }, _, rfl, rfl,
    old.le, opening.place site, holds5.place_add _, ⟨_, _, h3, holds2, holds3, hn, hl2, rfl⟩, (holds5.seg holds').head,
    laid holds3 holds'⟩

lemma lowerAll_placed {ts : List Tree} (hts : ∀ t ∈ ts, Runs ss t) {v : Unit}
    (h : lowerAll ss ctx ts e = .ok v e') (holds : site.Holds e) (holds' : site.Holds e')
    (hf : ctx.function.endLabel ≠ 0) (hn : n ≤ e.temps) (hl : 0 ≤ e.labels) :
    ∃ ends : Nat → Nat, Monotone ends ∧ ends 0 = site.place e ∧ ends ts.length = site.place e' ∧
      ∀ (k : Nat) (t : Tree), ts[k]? = some t → ∃ r, t.Placed site ss ctx n ⟨ends k, ends (k + 1)⟩ r := by
  induction ts generalizing e with
  | nil =>
    obtain ⟨-, rfl⟩ := pure_eq_ok.mp h
    exact ⟨fun _ => site.place e', fun _ _ _ => Nat.le_refl _, rfl, rfl, by simp⟩
  | cons u ts ih =>
    obtain ⟨x, e1, h1, h2⟩ := bind_eq_ok.mp h
    have hts' : ∀ t ∈ ts, Runs ss t := fun t ht => hts t (.tail u ht)
    have w1 := hts u (.head ts) h1 hf hn hl
    have hn1 := hn.trans w1.temps
    have hl1 := hl.trans w1.labels
    have w2 := lowerAll_wrote hts' (i := {}) h2 hf hn1 hl1
    have holds1 := holds.between holds' w1.before w2.before
    obtain ⟨ends, mono, first, last, each⟩ := ih hts' h2 holds1 hn1 hl1
    refine ⟨(Nat.casesOn · (site.place e) ends), ?_, rfl, last, ?_⟩
    · refine monotone_nat_of_le_succ fun k => ?_
      cases k with
      | zero => exact (w1.before.place site).trans_eq first.symm
      | succ k => exact mono (Nat.le_succ k)
    · rintro (_ | k) t hk
      · obtain rfl : u = t := by simpa using hk
        exact ⟨x, e, e1, h1, holds, holds1, hn, hl, congrArg _ first⟩
      · exact each k t hk

/-- The code of a condition, with the jump to a label that is taken where it is false. -/
def Tested (site : Site) (ss : Symbols) (c : Tree) (l : Int) (span : Span) : Prop :=
  ∃ (ctx : Context) (op : Op) (e e1 : Emitter) (x : Temp), op ≠ .deref ∧ 0 < l ∧ 0 ≤ e.labels ∧
    c.lower ss (ctx.condition op l) e = .ok x e1 ∧ site.Holds e ∧
    site.Holds ((e1.count 2 1).add (unlessLines x l e1)) ∧
    span = ⟨site.place e, site.place ((e1.count 2 1).add (unlessLines x l e1))⟩

/-- The code of a branch on a condition that jumps to `l` where it is false: that of its sides, with what
stands between them and behind them. -/
structure BranchLaid (site : Site) (ss : Symbols) (ctx : Context) (n : Nat) (c a b : Tree) (l : Int)
    (span yes no : Span) : Prop where
  test : c.Tested site ss l ⟨span.first, yes.first⟩
  opening : span.first ≤ yes.first
  taken : ∃ r, a.Placed site ss (ctx.condition .ifElse 0) n yes r
  closing : yes.last ≤ span.last
  one : b.isEmpty = true → site.code[yes.last]? = some (.label l) ∧ span.last = yes.last + 1
  two : b.isEmpty = false → ∃ k m, Seg site.code yes.last [.label k, .instr (.jump m), .label l] ∧
    no.first = yes.last + 3 ∧ (∃ r, b.Placed site ss (ctx.condition .ifElse 0) n no r) ∧
    site.code[no.last]? = some (.label m) ∧ span.last = no.last + 1

lemma Placed.branch {c b : Tree} (h : (Tree.branch i c a b).Placed site ss ctx n span r)
    (hc : Decides ss c) (ha : Runs ss a) (hb : Runs ss b) (hf : ctx.function.endLabel ≠ 0) :
    ∃ l yes no, BranchLaid site ss ctx n c a b l span yes no := by
  obtain ⟨e, e', h, holds, holds', hn, hl, rfl⟩ := h
  cases empty : b.isEmpty with
  | true =>
    obtain rfl := eq_empty_of_isEmpty empty
    obtain ⟨x, e1, y, e2, h1, h2, rfl⟩ := lower_branch_one h
    have hl1 : 0 ≤ (e.count 0 1).labels := by simp only [Emitter.count_labels]; omega
    have w1 := hc.wrote h1 (by simp) (by omega) hn hl1
    have hn2 := hn.trans w1.temps
    have hl2 := hl1.trans w1.labels
    have w2 := ha h2 hf hn2 hl2
    have holds1 := (holds.count 0 1).between holds' w1.before w2.before.add
    have holds2 := holds1.between holds' w2.before (Emitter.Before.refl _).add
    have meets := (holds2.seg holds').head
    have place := holds2.place_add [.label (e.labels + 1)]
    exact ⟨_, ⟨_, _⟩, ⟨0, 0⟩, ⟨ctx, .ifElse, _, e1, x, by simp, by omega, hl1, h1, holds.count 0 1, holds1, rfl⟩,
      ((Emitter.Before.refl e).count.trans w1.before).place site, ⟨y, _, e2, h2, holds1, holds2, hn2, hl2, rfl⟩,
      (Emitter.Before.refl e2).add.place site, fun _ => ⟨meets, place⟩, nofun⟩
  | false =>
    obtain ⟨x, e1, y, e2, z, e3, h1, h2, h3, rfl⟩ := lower_branch_two empty h
    have hl1 : 0 ≤ (e.count 0 2).labels := by simp only [Emitter.count_labels]; omega
    have w1 := hc.wrote h1 (by simp) (by omega) hn hl1
    have hn2 := hn.trans w1.temps
    have hl2 := hl1.trans w1.labels
    have w2 := ha h2 hf hn2 hl2
    have hn3 : n ≤ (e2.count 0 1).temps := hn2.trans w2.temps
    have hl3 : 0 ≤ (e2.count 0 1).labels := by
      have := w2.labels
      simp only [Emitter.count_labels]; omega
    have w3 := hb h3 hf hn3 hl3
    have between {ls : List Line} : e2.Before ((e2.count 0 1).add ls) :=
      (Emitter.Before.refl _).count.add
    have rest {ls : List Line} : e2.Before (e3.add ls) := between.trans w3.before.add
    have holds1 := (holds.count 0 2).between holds' w1.before (w2.before.trans rest)
    have holds2 := holds1.between holds' w2.before rest
    have holds3 := holds2.between holds' between w3.before.add
    have holds4 := holds3.between holds' w3.before (Emitter.Before.refl _).add
    have middle := (holds2.count 0 1).seg holds3
    have place3 := (holds2.count 0 1).place_add
      [.label (e2.labels + 1), .instr (.jump (e.labels + 2)), .label (e.labels + 1)]
    have meets := (holds4.seg holds').head
    have place4 := holds4.place_add [.label (e.labels + 2)]
    have other : ∃ r, b.Placed site ss (ctx.condition .ifElse 0) n _ r :=
      ⟨z, _, e3, h3, holds3, holds4, hn3, hl3, rfl⟩
    exact ⟨_, ⟨_, _⟩, _, ⟨ctx, .ifElse, _, e1, x, by simp, by omega, hl1, h1, holds.count 0 2, holds1, rfl⟩,
      ((Emitter.Before.refl e).count.trans w1.before).place site, ⟨y, _, e2, h2, holds1, holds2, hn2, hl2, rfl⟩,
      rest.place site, fun none => (nomatch none.symm.trans empty),
      fun _ => ⟨_, _, middle, place3, other, meets, place4⟩⟩

/-- The code of a loop: the label of its top, its condition, its body, the jump to the top and the label
of its end. -/
lemma Placed.loop (h : (Tree.loop i c a).Placed site ss ctx n span r) (hc : Decides ss c) (ha : Runs ss a)
    (hf : ctx.function.endLabel ≠ 0) : ∃ inside body r, inside.function = ctx.function ∧
      site.code[span.first]? = some (.label inside.loopTop) ∧
      c.Tested site ss inside.loopEnd ⟨span.first + 1, body.first⟩ ∧ a.Placed site ss inside n body r ∧
      Seg site.code body.last [.instr (.jump inside.loopTop), .label inside.loopEnd] ∧
      span.last = body.last + 2 := by
  obtain ⟨e, e', h, holds, holds', hn, hl, rfl⟩ := h
  obtain ⟨x, e1, y, e2, h1, h2, rfl⟩ := lower_loop h
  have hl1 : 0 ≤ ((e.count 0 2).add [.label (e.labels + 1)]).labels := by
    simp only [Emitter.add_labels, Emitter.count_labels]; omega
  have w1 := hc.wrote h1 (by simp) (by omega) hn hl1
  have hn2 := hn.trans w1.temps
  have hl2 := hl1.trans w1.labels
  have w2 := ha h2 hf hn2 hl2
  have begun : e.Before ((e.count 0 2).add [.label (e.labels + 1)]) :=
    (Emitter.Before.refl e).count.add
  have holds1 := holds.between holds' (begun.trans w1.before) w2.before.add
  have holds2 := holds1.between holds' w2.before (Emitter.Before.refl _).add
  have opened := holds.between holds1 begun w1.before
  have place := (holds.count 0 2).place_add [.label (e.labels + 1)]
  have same : ({ ctx with loopTop := e.labels + 1, loopEnd := e.labels + 2 }.condition .whileLoop 0).function =
      ctx.function := rfl
  refine ⟨_, ⟨_, _⟩, y, same, ((holds.count 0 2).seg opened).head,
    ⟨_, .whileLoop, _, e1, x, by simp, ?_, hl1, h1, opened, holds1, by rw [place]; rfl⟩,
    ⟨_, e2, h2, holds1, holds2, hn2, hl2, rfl⟩, holds2.seg holds', holds2.place_add _⟩
  change 0 < e.labels + 2
  omega

lemma Tested.standsAt {l : Int} (h : c.Tested site ss l span) :
    ∃ ctx stop x, c.StandsAt ss ctx site.code ⟨span.first, stop⟩ x := by
  obtain ⟨ctx, op, e, e1, x, -, -, -, lower, holds, holds', rfl⟩ := h
  obtain ⟨ls, lines, -⟩ := (writes_inner.fills lower).lines
  have size : e.lines.size ≤ e1.lines.size := by
    rw [← Array.length_toList, ← Array.length_toList, lines]
    simp
  have decided : site.Holds e1 :=
    ⟨holds.begun.trans size, (Emitter.Before.refl e1).count.add.lines.trans holds'.part⟩
  exact ⟨_, _, x, standsAt_of_lower lower holds decided⟩

lemma Part.placed (part : Part u t) (full : u.isEmpty = false) (ht : IsStatement ss scope t)
    (h : t.Placed site ss ctx n span r) (hf : ctx.function.endLabel ≠ 0) :
    IsStatement ss scope u ∧
      ∃ inside span r, inside.function = ctx.function ∧ u.Placed site ss inside n span r := by
  induction part generalizing ctx span r with
  | self => exact ⟨ht, ctx, span, r, rfl, h⟩
  | member mem _ ih =>
    cases ht with
    | expression ht => cases ht
    | block hts =>
      obtain ⟨e, e', h, holds, holds', hn, hl, rfl⟩ := h
      obtain ⟨_, e1, h1, h2⟩ := bind_eq_ok.mp h
      obtain ⟨-, rfl⟩ := pure_eq_ok.mp h2
      obtain ⟨ends, -, -, -, each⟩ := lowerAll_placed (fun t ht => (hts t ht).runs) h1 holds holds' hf hn hl
      obtain ⟨k, hk⟩ := List.mem_iff_getElem?.mp mem
      obtain ⟨r, placed⟩ := each k _ hk
      have found := ih (hts _ mem) placed hf
      exact found
  | yes _ ih =>
    cases ht with
    | expression ht => cases ht
    | branch hc ha hb =>
      obtain ⟨_, _, _, laid⟩ := h.branch hc.decides ha.runs hb.runs hf
      obtain ⟨r, placed⟩ := laid.taken
      have found := ih ha placed hf
      exact found
  | no part ih =>
    cases ht with
    | expression ht => cases ht
    | branch hc ha hb =>
      obtain ⟨_, _, _, laid⟩ := h.branch hc.decides ha.runs hb.runs hf
      obtain ⟨_, _, -, -, ⟨r, placed⟩, -⟩ := laid.two (part.full full)
      have found := ih hb placed hf
      exact found
  | body _ ih =>
    cases ht with
    | expression ht => cases ht
    | loop hc ha =>
      obtain ⟨inside, span, r, same, -, -, placed, -⟩ := h.loop hc.decides ha.runs hf
      rw [← same] at hf ⊢
      exact ih ha placed hf
  | arm mem part ih =>
    cases ht with
    | expression ht => cases ht
    | switch ha la _ ordered harms =>
      obtain ⟨m, first, done, inside, test, same, -, old, -, -, -, -, laid⟩ :=
        h.switch ha la (fun arm mem => (harms arm mem).runs) hf
      obtain ⟨spans, laid⟩ := laid.laid ordered.defaultLast
      obtain ⟨k, hk⟩ := List.mem_iff_getElem?.mp mem
      obtain ⟨r, placed⟩ := laid.bodies k _ _ hk (part.full full)
      rw [← same] at hf ⊢
      exact ih (harms _ mem) (placed.mono old) hf

lemma Placed.switchLaid (h : (Tree.switch i a arms).Placed site ss ctx n span r)
    (ht : IsStatement ss scope (.switch i a arms)) (hf : ctx.function.endLabel ≠ 0) :
    arms ≠ [] ∧ ArmsOrdered arms ∧
      ∃ inside m first done spans, SwitchLaid ss site.code a arms inside m first done spans := by
  cases ht with
  | expression ht => cases ht
  | switch ha la some ordered harms =>
    refine ⟨some, ordered, ?_⟩
    have runs : ∀ arm ∈ arms, Runs ss arm.2 := fun arm mem => (harms arm mem).runs
    obtain ⟨m, first, done, inside, test, same, -, -, -, -, scrutinee, leave, laid⟩ := h.switch ha la runs hf
    obtain ⟨spans, -, bodies, ⟨p, -, atFirst, tested⟩, -, after⟩ := laid.laid ordered.defaultLast
    obtain rfl := atFirst (.inl some)
    rw [← same] at hf
    refine ⟨inside, m, p, done, spans, ⟨_, _, scrutinee.standsAt⟩, leave, ?_, ?_, tested, after⟩
    · intro k head body hk full
      obtain ⟨r, placed⟩ := bodies k head body hk full
      exact ⟨r, placed.standsAt⟩
    · intro k head body hk full T s s' low high step
      obtain ⟨r, placed⟩ := bodies k head body hk full
      exact placed.kept (runs _ (List.mem_of_getElem? hk)) hf low high step

end Tree

namespace Definition

variable {d : Definition} {text : List Line}

lemma Written.framed (h : d.Written text) (nodup : (labelsOf text).Nodup) :
    ∃ site : Site, site.code = text ∧ ∃ entry span r,
      d.body.Placed site d.settled { function := d.symbol } 0 span r ∧
      Seg text 1 (.label entry :: slotLines d.symbols d.symbol d.locals) ∧
      span.first = 2 + (slotLines d.symbols d.symbol d.locals).length ∧
      Seg text span.last [.label d.symbol.endLabel, .ret (d.symbol.type ≠ .void), .closing] := by
  obtain ⟨e, e', he, lines, hl, -⟩ := h.emitted
  obtain ⟨-, c, params, r, e2, -, lower, rfl⟩ := Emitter.function_eq_ok he
  have hl1 : 0 ≤ (e.count 0 1).labels := by simp only [Emitter.count_labels]; omega
  have wrote := h.runs lower (Int.ne_of_gt h.positive) (Nat.zero_le _) hl1
  let site : Site := ⟨e.lines.toList, text, nodup⟩
  have start : site.Holds (e.count 0 1) := ⟨Nat.le_refl _, List.prefix_append _ _⟩
  have finish : site.Holds
      (e2.add [.label d.symbol.endLabel, .ret (d.symbol.type ≠ .void), .closing]) := by
    refine ⟨?_, by rw [← lines]; exact List.prefix_refl _⟩
    exact (start.begun.trans (Emitter.Before.refl _).add.size).trans wrote.before.add.size
  have opened := start.between finish (Emitter.Before.refl _).add wrote.before.add
  have closed := opened.between finish wrote.before (Emitter.Before.refl _).add
  have zero : site.place (e.count 0 1) = 0 := Nat.sub_self _
  have head := start.seg opened
  have place := start.place_add (.opening (d.symbol.storage = .global) c d.symbol.name params ::
    .label (e.labels + 1) :: slotLines d.symbols d.symbol d.locals)
  rw [zero] at head place
  refine ⟨site, rfl, e.labels + 1, _, r, ⟨_, e2, lower, opened, closed, Nat.zero_le _, hl1, rfl⟩,
    head.tail, place.trans ?_, closed.seg finish⟩
  simp only [List.length_cons]
  omega

lemma Written.placed (h : d.Written text) (nodup : (labelsOf text).Nodup) :
    ∃ site : Site, site.code = text ∧ ∃ span r,
      d.body.Placed site d.settled { function := d.symbol } 0 span r := by
  obtain ⟨site, code, -, span, r, placed, -⟩ := h.framed nodup
  exact ⟨site, code, span, r, placed⟩

end Definition

/-- For every switch in a function: its value is computed, the code of the arm for it is come to, and
the value is looked for again among the arms that follow when the code of an arm has come to its
end. -/
theorem compile_switches {file source code : Text}
    (h : (Session.compile { file } source).1.outcome = .ok code) :
    List.Forall₂ (fun (d : Definition) text => ∀ i a arms, (Tree.switch i a arms).Part d.body →
      arms ≠ [] ∧ Tree.ArmsOrdered arms ∧ ∃ ctx n first done spans,
        Tree.SwitchLaid d.settled text a arms ctx n first done spans)
      (Session.compile { file } source).1.functions
      (texts (Session.compile { file } source).2.out.lines.toList) := by
  obtain ⟨s, leads, hfunctions, hout, rfl⟩ := compile_leads h
  simp only [hfunctions, hout]
  have sound := leads.sound
  refine sound.layout.written.imp fun d text ⟨hd, piece⟩ i a arms part => ?_
  have inside : (labelsOf text).Sublist (labelsOf _) := piece.sublist.filterMap _
  obtain ⟨site, rfl, span, r, placed⟩ := hd.placed (sound.nodup.sublist inside)
  obtain ⟨scope, shape⟩ := hd.isStatement
  have positive : d.symbol.endLabel ≠ 0 := Int.ne_of_gt hd.positive
  obtain ⟨shape, ctx, span, r, same, placed⟩ := part.placed rfl shape placed positive
  exact placed.switchLaid shape (same ▸ positive)

/-- The first of two statements is a switch with four arms. -/
def Tree.leadsFour : Tree → Bool
  | .block _ [.switch _ _ arms, _] => decide (arms.length = 4)
  | _ => false

/-- Arms without code, an arm that is left and `default`. -/
theorem compile_switches_default :
    let source : Text :=
      "int f(int x) \x7b switch (x) \x7b case 1: case 2: x = 5; case 3: x = 7; break; default: x = 9; \x7d return x; \x7d"
    (∃ code, (Session.compile { file := "t.c" } source).1.outcome = .ok code) ∧
      (Session.compile { file := "t.c" } source).1.functions.length = 1 ∧
      List.Forall₂ (fun d text => ∃ i a arms, (Tree.switch i a arms).Part d.body ∧ arms.length = 4 ∧
          ∃ ctx n first done spans, Tree.SwitchLaid d.settled text a arms ctx n first done spans)
        (Session.compile { file := "t.c" } source).1.functions
        (texts (Session.compile { file := "t.c" } source).2.out.lines.toList) := by
  intro source
  obtain ⟨code, ok⟩ := exists_of_isSome (x := (Session.compile { file := "t.c" } source).1.outcome)
    (by decide +kernel)
  have found : ∀ d ∈ (Session.compile { file := "t.c" } source).1.functions,
      d.body.leadsFour = true := by decide +kernel
  refine ⟨⟨code, ok⟩, by decide +kernel, ?_⟩
  refine ((List.forall₂_and_left _ _).mpr ⟨found, compile_switches ok⟩).imp ?_
  rintro d text ⟨found, laid⟩
  unfold Tree.leadsFour at found
  split at found
  · rename_i i j a arms t body
    have part : (Tree.switch j a arms).Part d.body := by
      rw [body]
      exact .member (.head _) .self
    exact ⟨j, a, arms, part, of_decide_eq_true found, (laid j a arms part).2.2⟩
  · cases found

/-- The code of the second arm does not run behind that of the first: `a` is 1 and not 2. -/
theorem compile_tests_again :
    let source : Text :=
      "int f(int x) \x7b int a; a = 0; switch (x) \x7b case 1: a = 1; case 2: a = 2; \x7d return a; \x7d"
    let s := State.entered fun name => if name = "x" then 1 else 0
    (∃ code, (Session.compile { file := "t.c" } source).1.outcome = .ok code) ∧
      (texts (Session.compile { file := "t.c" } source).2.out.lines.toList).length = 1 ∧
      ∀ text ∈ texts (Session.compile { file := "t.c" } source).2.out.lines.toList,
        s.Returns text 1 ∧ ¬ s.Returns text 2 := by
  intro source s
  obtain ⟨code, ok⟩ := exists_of_isSome (x := (Session.compile { file := "t.c" } source).1.outcome)
    (by decide +kernel)
  have run : ∀ text ∈ texts (Session.compile { file := "t.c" } source).2.out.lines.toList,
      ((s.run text 24).map fun s' => (text[s'.pc]?, s'.result.setWidth 32)) =
        some (some (.ret true), 1) := by decide +kernel
  refine ⟨⟨code, ok⟩, by decide +kernel, fun text mem => ?_⟩
  have returns := State.returns_iff_of_run (run text mem)
  exact ⟨(returns 1).mpr rfl, fun two => absurd ((returns 2).mp two) (by decide)⟩

end SmallC
