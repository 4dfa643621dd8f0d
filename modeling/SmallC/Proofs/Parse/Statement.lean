import SmallC.Proofs.Parse.Declaration

/-!
# Reading statements

A statement has the shape of one, and its `break` and `continue` find a loop or a switch, unless
a function was finished inside of it: that begins to count loops afresh. A value is returned only
while the function is known, and so the names in a body that ends in one are not shared.
-/

namespace SmallC

open ParseState

namespace ParseState

variable {s s1 s2 s' : ParseState} {t : Tree}
variable {noLoop noEnd : Bool}

lemma Leads.statement (l : Leads s s1) (k : Leads s1 s2)
    (h : t.IsStatement s1.table.symbols (inner s s1)) :
    t.IsStatement s2.table.symbols (inner s s2) :=
  h.grow k.symbols (inner_later l k)

lemma Leads.condition (l : Leads s s1) (k : Leads s1 s2)
    (h : t.IsCondition s1.table.symbols (inner s s1)) :
    t.IsCondition s2.table.symbols (inner s s2) :=
  h.grow k.symbols (inner_later l k).toNarrows

/-- A statement inside of one that is read from `s`, where the flags say what is not around it. -/
structure Holds (s s' : ParseState) (noLoop noEnd : Bool) (t : Tree) : Prop where
  shape : t.IsStatement s'.table.symbols (inner s s')
  stays : 0 ≤ s.loops → 0 ≤ s.switches → s'.functions.size = s.functions.size →
    t.strays noLoop noEnd = false

/-- A statement with the same loops and switches around it. -/
def Inside (s s' : ParseState) (t : Tree) : Prop :=
  Holds s s' (s.loops = 0) (s.loops = 0 ∧ s.switches = 0) t

lemma Holds.later (h : Holds s s1 noLoop noEnd t) (l : Leads s s1) (k : Leads s1 s2) :
    Holds s s2 noLoop noEnd t where
  shape := l.statement k h.shape
  stays hl hw size := by
    have := l.functions
    have := k.functions
    exact h.stays hl hw (by omega)

lemma Holds.earlier (hs : s.Sound) (l : Leads s s1) (k : Leads s1 s2)
    (h : Holds s1 s2 noLoop noEnd t) : Holds s s2 noLoop noEnd t where
  shape := h.shape.grow (.refl _) (inner_earlier hs l k)
  stays hl hw size := by
    have := l.functions
    have := k.functions
    obtain ⟨loops, switches⟩ := l.counters (by omega)
    exact h.stays (loops ▸ hl) (switches ▸ hw) (by omega)

lemma Holds.block {i : Info} {ts : List Tree} (h : ∀ t ∈ ts, Holds s s' noLoop noEnd t) :
    Holds s s' noLoop noEnd (.block i ts) where
  shape := .block fun t ht => (h t ht).shape
  stays hl hw size := Tree.straysAny_eq_false.mpr fun t ht => (h t ht).stays hl hw size

lemma Forms.within (hs : s.Sound) (l : Leads s s1) (f : Forms s1 s2 t) : Inside s s2 t where
  shape := f.shape.grow (.refl _) (inner_earlier hs l f.toLeads)
  stays hl hw size := by
    have := l.functions
    have := f.functions
    obtain ⟨loops, switches⟩ := l.counters (by omega)
    have stays := f.stays (loops ▸ hl) (switches ▸ hw) (by omega)
    simpa only [loops, switches] using stays

lemma Forms.plain (p : Proceeds s s') (h : Inside s s' t) (value : t.finalValue? = none)
    (stays : ∀ i a, t ≠ .result i a) : Forms s s' t where
  toProceeds := p
  shape := h.shape
  stays := h.stays
  valued i a ht := absurd ht (stays i a)
  named ht := by simp [Tree.endsInValue, value] at ht

lemma Forms.empty (p : Proceeds s s') : Forms s s' .empty :=
  .plain p ⟨.empty, fun _ _ _ => rfl⟩ rfl nofun

lemma Reads.inside (hs : s.Sound) (l : Leads s s') (h : Reads s s' t) (lt : t.Loaded) :
    Inside s s' t :=
  ⟨.expression (h.isExpression hs l) lt, fun _ _ _ => h.strays_eq _ _⟩

lemma Forms.expression (hs : s.Sound) (q : Quiet s s') (h : Reads s s' t) (lt : t.Loaded) :
    Forms s s' t := by
  refine .plain q.proceeds (h.inside hs q.toLeads lt) ?_ ?_
  · cases h <;> rfl
  · rintro i a rfl
    cases h

lemma Proceeds.recount {l w : Int} (p : Proceeds { s with loops := l, switches := w } s1)
    (l' w' : Int) (back : s1.loops = l → s1.switches = w → l' = s.loops ∧ w' = s.switches) :
    Proceeds s { s1 with loops := l', switches := w' } where
  sound := { p.sound with }
  symbols := p.symbols
  finished := p.finished
  scope := p.scope
  functions := p.functions
  counters size := (p.counters size).elim back
  clean := p.clean
  current := p.current
  signatures := p.signatures
  unshared := p.unshared
  inside := p.inside
  still := p.still

end ParseState

namespace Parse

variable {g : Grammar} {s s1 : ParseState}
variable {seen : List (ArmHead × Tree)}

section
variable {spec : TypeSpec} (hg : g.Sound) (hs : s.Sound)
include hg hs

lemma condition_ends : Ends (condition g) s fun c s' =>
      Quiet s s' ∧ c.IsCondition s'.table.symbols (inner s s') := by
  refine ends_expect fun _ => ?_
  refine (hg.expression hs.advanced).ends.bind ?_
  rintro t s1 ⟨q, ht, lt⟩
  refine ends_expect fun _ => ?_
  rw [ends_pure]
  have hc : t.asCondition.IsCondition s1.table.symbols (inner s s1) :=
    (ht.isExpression hs.advanced q.toLeads).asCondition lt
  have q' := Quiet.advanced q.sound
  exact ⟨q.of_advanced.trans q', q.of_advanced.toLeads.condition q'.toLeads hc⟩

lemma loopBody_ends : Ends (loopBody g) s fun t s' => Proceeds s s' ∧ Holds s s' false false t := by
  simp only [loopBody, ends_modify]
  have hs1 : ParseState.Sound { s with loops := s.loops + 1 } := { hs with }
  refine (hg.statement hs1).ends.bind ?_
  rintro body s2 f
  rw [ends_modify, ends_pure]
  refine ⟨Proceeds.recount (w := s.switches) f.toProceeds _ _ fun hl hw => ⟨by omega, hw⟩, f.shape, ?_⟩
  intro hl hw size
  have stays := f.stays (by simp only; omega) hw size
  have more : s.loops + 1 ≠ 0 := by omega
  simpa [more] using stays

lemma elsePart_ends : Ends (elsePart g) s fun t s' => Forms s s' t := by
  simp only [elsePart, ends_isAt, ends_ite, ends_advance, ends_pure]
  refine ⟨fun _ => ?_, fun _ => .empty (Quiet.refl hs).proceeds⟩
  exact (hg.statement hs.advanced).ends.mono fun _ _ f => f.of_advanced

lemma ifStatement_ends : Ends (ifStatement g) s fun t s' => Forms s s' t := by
  simp only [ifStatement, ends_advance]
  refine (condition_ends hg hs.advanced).bind ?_
  rintro cond s1 ⟨q1, hc⟩
  have p1 := q1.of_advanced.proceeds
  refine (hg.statement q1.sound).ends.bind ?_
  rintro yes s2 f2
  refine (elsePart_ends hg f2.sound).bind ?_
  rintro no s3 f3
  rw [ends_pure]
  have p2 := p1.trans f2.toProceeds
  have hyes := (f2.within hs p1.toLeads).later p2.toLeads f3.toLeads
  have hno := f3.within hs p2.toLeads
  refine .plain (p2.trans f3.toProceeds) ⟨.branch ?_ hyes.shape hno.shape, fun hl hw size => ?_⟩
    rfl (by simp)
  · exact p1.toLeads.condition (f2.toLeads.trans f3.toLeads) hc
  · rw [Tree.strays, hyes.stays hl hw size, hno.stays hl hw size]
    rfl

lemma whileStatement_ends : Ends (whileStatement g) s fun t s' => Forms s s' t := by
  simp only [whileStatement, ends_advance]
  refine (condition_ends hg hs.advanced).bind ?_
  rintro cond s1 ⟨q1, hc⟩
  have p1 := q1.of_advanced.proceeds
  refine (loopBody_ends hg q1.sound).bind ?_
  rintro body s2 ⟨p2, hbody⟩
  rw [ends_pure]
  have hbody := hbody.earlier hs p1.toLeads p2.toLeads
  exact .plain (p1.trans p2) ⟨.loop (p1.toLeads.condition p2.toLeads hc) hbody.shape, hbody.stays⟩
    rfl (by simp)

lemma forStatement_ends : Ends (forStatement g) s fun t s' => Forms s s' t := by
  simp only [forStatement, ends_advance]
  refine ends_expect fun _ => ?_
  refine (expressionList_ends hg hs.advanced.advanced).bind ?_
  rintro first s1 ⟨q1, hfirst⟩
  refine ends_expect fun _ => ?_
  refine (hg.expression q1.sound.advanced).ends.bind ?_
  rintro cond s2 ⟨q2, hc, lc⟩
  refine ends_expect fun _ => ?_
  refine (expressionList_ends hg q2.sound.advanced).bind ?_
  rintro last s3 ⟨q3, hlast⟩
  refine ends_expect fun _ => ?_
  refine (loopBody_ends hg q3.sound.advanced).bind ?_
  rintro body s4 ⟨p4, hbody⟩
  rw [ends_pure, forLoop]
  have q1 := q1.of_advanced.of_advanced
  have q2 := q2.of_advanced
  have q3 := q3.of_advanced
  have p4 := p4.of_advanced
  have leads2 := q1.toLeads.trans q2.toLeads
  have leads3 := leads2.trans q3.toLeads
  have hc : Reads s1 s2 cond := hc
  have hcond := leads2.condition (q3.toLeads.trans p4.toLeads)
    (((hc.earlier hs q1 q2.toLeads).isExpression hs leads2).asCondition lc)
  have hbody : Holds s s4 false false body :=
    Holds.earlier hs leads3 p4.toLeads ⟨hbody.shape, hbody.stays⟩
  generalize hinside : (if body.isEmpty = true then last else body :: last) = inside
  have hinside : ∀ t ∈ inside, Holds s s4 false false t := by
    have hlast : ∀ t ∈ last, Holds s s4 false false t := by
      intro t ht
      obtain ⟨reads, loaded⟩ := hlast t ht
      have reads : Reads s2 s3 t := reads
      have shape := ((reads.earlier hs (q1.trans q2) q3.toLeads).inside hs leads3 loaded).shape
      exact ⟨leads3.statement p4.toLeads shape, fun _ _ _ => reads.strays_eq _ _⟩
    subst hinside
    intro t ht
    split at ht
    · exact hlast t ht
    · rcases List.mem_cons.mp ht with rfl | ht
      · exact hbody
      · exact hlast t ht
  have hfirst : ∀ t ∈ first, Inside s s4 t := by
    intro t ht
    obtain ⟨reads, loaded⟩ := hfirst t ht
    exact (Reads.inside hs q1.toLeads reads loaded).later q1.toLeads
      (q2.toLeads.trans (q3.toLeads.trans p4.toLeads))
  have hloop : Inside s s4
      (.loop { line := s.front.line } cond.asCondition (.block { line := s.front.line } inside)) := by
    have := Holds.block (i := { line := s.front.line }) hinside
    exact ⟨.loop hcond this.shape, this.stays⟩
  refine .plain (((q1.trans q2).trans q3).proceeds.trans p4) ?_ ?_ nofun
  · exact Holds.block fun t ht => (List.mem_append.mp ht).elim (hfirst t) fun ht => by
      rw [List.mem_singleton.mp ht]
      exact hloop
  · simp [Tree.finalValue?]

lemma returned_ends
    (known : spec.type = .none ∨ ∃ f, s.table.function = some f ∧ spec.type = (s.table.get f).type)
    {line : Int64} : Ends (returned g spec line) s fun t s' => Forms s s' t := by
  simp only [returned, ends_isAt, ends_ite, ends_pure, ends_fail_bind, implies_true, true_and]
  refine ⟨fun _ => ?_, fun _ _ => ?_⟩
  · exact
      { toProceeds := (Quiet.refl hs).proceeds
        shape := .leave
        stays := fun _ _ _ => rfl
        valued := by
          rintro i a h
          cases h
          simp [Tree.isEmpty]
        named := by simp [Tree.endsInValue, Tree.finalValue?] }
  · refine (hg.expression hs).ends.bind ?_
    rintro value s1 ⟨q, hv, lv⟩
    refine storable_ends.bind ?_
    rintro v s2 ⟨rfl, ⟨c, rfl⟩, fits, typed⟩
    rw [ends_pure]
    obtain ⟨f, function, type⟩ := known.resolve_left typed
    have reads : Reads s s2 (value.converted c spec.type spec.ctype) := hv.converted lv _ _ _
    have loaded := lv.converted c spec.type spec.ctype
    exact
      { toProceeds := q.proceeds
        shape := .result (reads.isExpression hs q.toLeads) loaded ⟨f, function, type ▸ fits⟩
        stays := fun _ _ _ => rfl
        valued := by
          rintro i a h -
          cases h
          exact ⟨by simp [function], reads⟩
        named := by simp [Tree.endsInValue, Tree.finalValue?] }

lemma returnStatement_ends : Ends (returnStatement g) s fun t s' => Forms s s' t := by
  simp only [returnStatement, ends_advance]
  have : Ends returnType s.advanced fun spec s' =>
      s' = s.advanced ∧ (spec.type = .none ∨
        ∃ f, s.table.function = some f ∧ spec.type = (s.table.get f).type) := by
    simp only [returnType, ends_table]
    split
    · rename_i f hf
      rw [ends_pure]
      exact ⟨rfl, .inr ⟨f, hf, rfl⟩⟩
    · rw [ends_pure]
      exact ⟨rfl, .inl rfl⟩
  refine this.bind ?_
  rintro spec s1 ⟨rfl, known⟩
  refine (returned_ends hg hs.advanced known).bind ?_
  rintro t s2 f
  refine ends_expect fun _ => ?_
  rw [ends_pure]
  exact f.of_advanced.advanced

end

lemma breakStatement_ends (hs : s.Sound) :
    Ends breakStatement s fun t s' => Forms s s' t := by
  simp only [breakStatement, ends_get, ends_ite, ends_fail_bind, implies_true, true_and,
    ends_advance]
  intro around
  refine ends_expect fun _ => ?_
  rw [ends_pure]
  have q := (Quiet.advanced hs.advanced).of_advanced
  refine .plain q.proceeds ⟨.breakOut, fun _ _ _ => ?_⟩ rfl (by simp)
  simpa [Tree.strays] using around

lemma continueStatement_ends (hs : s.Sound) :
    Ends continueStatement s fun t s' => Forms s s' t := by
  simp only [continueStatement, ends_get, ends_ite, ends_fail_bind, implies_true, true_and,
    ends_advance]
  intro around
  refine ends_expect fun _ => ?_
  rw [ends_pure]
  have q := (Quiet.advanced hs.advanced).of_advanced
  refine .plain q.proceeds ⟨.continueOn, fun _ _ _ => ?_⟩ rfl (by simp)
  simpa [Tree.strays] using around

/-! ## Switches -/

/-- Arms read from `s` so far, the last one in front. -/
structure Arms (s s' : ParseState) (seen : List (ArmHead × Tree)) : Prop
    extends Proceeds s s' where
  bodies : ∀ arm ∈ seen, Inside s s' arm.2
  distinct : (seen.map fun arm => arm.1.value).Nodup
  defaultFront : ∀ arm ∈ seen.tail, arm.1.value ≠ none

lemma Arms.ordered {s' : ParseState} (h : Arms s s' seen) : Tree.ArmsOrdered seen.reverse where
  distinct := by
    rw [List.map_reverse]
    exact List.pairwise_reverse.mpr (h.distinct.imp Ne.symm)
  defaultLast arm harm := by
    rw [List.dropLast_reverse, List.mem_reverse] at harm
    exact h.defaultFront arm harm

section
variable (hg : g.Sound) (hs : s.Sound)
include hg hs

lemma armValue_ends : Ends (armValue g seen) s fun v s' => Quiet s s' ∧ ∀ arm ∈ seen, arm.1.value ≠ some v := by
  refine (hg.expression hs).ends.bind ?_
  rintro t s1 ⟨q, -, -⟩
  split
  · rename_i i v
    simp only [ends_ite, ends_fail_bind, implies_true, true_and, ends_pure]
    intro new
    refine ⟨q, fun arm harm same => new ?_⟩
    exact List.any_eq_true.mpr ⟨arm, harm, by simpa using same⟩
  · exact ends_fail.mpr trivial

lemma armLabel_ends (noDefault : ∀ arm ∈ seen, arm.1.value ≠ none) {kind : TokenKind} :
    Ends (armLabel g seen kind) s fun v s' => Quiet s s' ∧ ∀ arm ∈ seen, arm.1.value ≠ v := by
  simp only [armLabel, ends_ite, ends_pure, map_eq_pure_bind]
  refine ⟨fun _ => ⟨.refl hs, noDefault⟩, fun _ => ?_⟩
  refine (armValue_ends hg hs).bind ?_
  rintro v s1 h
  rw [ends_pure]
  exact h

lemma armBody_ends : Ends (armBody g) s fun t s' => Forms s s' t := by
  simp only [armBody, ends_isAt, ends_ite, ends_pure]
  exact ⟨fun _ => .empty (Quiet.refl hs).proceeds, fun _ => (hg.block hs).ends⟩

lemma nextArm_ends (h : Arms s s1 seen) : Ends (nextArm g seen) s1 fun r s' =>
      r.elim (Arms s s') fun arms => Arms s s' arms.reverse := by
  simp only [nextArm, ends_isAt, ends_ite, ends_pure, ends_peek, ends_fail_bind, implies_true,
    true_and, and_true, ends_advance]
  refine ⟨fun _ => by simpa using h, fun _ _ only => ?_⟩
  have noDefault : ∀ arm ∈ seen, arm.1.value ≠ none := by
    intro arm harm none
    exact only (List.any_eq_true.mpr ⟨arm, harm, by simpa using none⟩)
  refine (armLabel_ends hg h.sound.advanced noDefault).bind ?_
  rintro v s2 ⟨q2, new⟩
  refine ends_expect fun _ => ?_
  refine (armBody_ends hg q2.sound.advanced).bind ?_
  rintro body s3 f
  rw [ends_pure]
  have f := f.of_advanced
  have p := q2.of_advanced.proceeds.trans f.toProceeds
  refine ⟨h.toProceeds.trans p, ?_, ?_, noDefault⟩
  · intro arm harm
    rcases List.mem_cons.mp harm with rfl | harm
    · exact f.within hs (h.toLeads.trans q2.of_advanced.toLeads)
    · exact (h.bodies arm harm).later h.toLeads p.toLeads
  · refine List.nodup_cons.mpr ⟨fun mem => ?_, h.distinct⟩
    obtain ⟨arm, harm, same⟩ := List.mem_map.mp mem
    exact new arm harm same

lemma switchStatement_ends : Ends (switchStatement g) s fun t s' => Forms s s' t := by
  simp only [switchStatement, ends_advance]
  refine ends_expect fun _ => ?_
  refine (hg.expression hs.advanced.advanced).ends.bind ?_
  rintro scrutinee s1 ⟨q1, ht, lt⟩
  refine ends_expect fun _ => ?_
  refine ends_expect fun _ => ?_
  simp only [ends_ite, ends_fail_bind, implies_true, and_true, ends_modify]
  intro _
  have p1 := q1.of_advanced.of_advanced.proceeds
  have hs2 : ParseState.Sound { s1 with switches := s1.switches + 1 } := { q1.sound with }
  refine Ends.bind (Ends.iterate (fun seen s' =>
    Arms { s1 with switches := s1.switches + 1 } s' seen) ?_ ?_ (Q := fun arms s' =>
      Arms { s1 with switches := s1.switches + 1 } s' arms.reverse)) ?_
  · have p : Proceeds { s1 with switches := s1.switches + 1 }
        { s1.advanced.advanced with switches := s1.switches + 1 } :=
      ((Quiet.advanced hs2).trans (Quiet.advanced hs2.advanced)).proceeds
    exact ⟨p, by simp, List.nodup_nil, by simp⟩
  · exact fun seen s2 h => nextArm_ends hg hs2 h
  · rintro arms s3 h
    simp only [ends_ite, ends_fail_bind, implies_true, true_and, ends_advance, ends_modify,
      ends_pure]
    intro some
    have p3 := h.toProceeds.trans (Quiet.advanced h.sound).proceeds
    have p2 := Proceeds.recount (l := s1.loops) p3 s3.loops (s3.switches - 1) fun hl hw =>
      ⟨hl, by
        have hw : s3.switches = s1.switches + 1 := hw
        omega⟩
    refine .plain (p1.trans p2) ⟨?_, fun hl hw size => ?_⟩ rfl (by simp)
    · have ordered := h.ordered
      rw [List.reverse_reverse] at ordered
      refine .switch ?_ lt (by simpa using some) ordered fun arm harm => ?_
      · exact (ht.isExpression hs.advanced.advanced q1.toLeads).grow p2.symbols
          (inner_later p1.toLeads p2.toLeads).toNarrows
      · have shape := (h.bodies arm (List.mem_reverse.mpr harm)).shape
        exact shape.grow (.refl _) (inner_earlier hs p1.toLeads p2.toLeads)
    · have le1 := p1.functions
      have le2 : s1.functions.size ≤ s3.functions.size := h.functions
      have size : s3.functions.size = s.functions.size := size
      obtain ⟨loops, switches⟩ := p1.counters (by omega)
      rw [Tree.strays, Tree.straysArms_eq_false]
      intro arm harm
      have stays := (h.bodies arm (List.mem_reverse.mpr harm)).stays (loops ▸ hl)
        (by simp only; omega) (by simp only; omega)
      have more : ¬ (s.switches + 1 = 0) := by omega
      simpa [loops, switches, more] using stays

end

/-! ## Blocks -/

/-- Statements of a block read from `s` so far, the last one in front. -/
structure Stmts (s s' : ParseState) (done : List Tree) : Prop extends Proceeds s s' where
  parts : ∀ t ∈ done, Inside s s' t
  /-- Where a value has just been returned, the function was known. -/
  named : ∀ i a, done.head? = some (.result i a) → a.isEmpty = false →
    ∃ s0 : ParseState, s0.Sound ∧ Leads s0 s' ∧ ∀ t ∈ done,
      t.IsStatement s'.table.symbols { sees := Sees s0 s', returns := Returns s }

namespace Stmts

variable {s2 : ParseState} {done : List Tree}

lemma later (h : Stmts s s1 done) (p : Proceeds s1 s2) : Stmts s s2 done where
  toProceeds := h.toProceeds.trans p
  parts t ht := (h.parts t ht).later h.toLeads p.toLeads
  named i a head value := by
    obtain ⟨s0, hs0, leads, all⟩ := h.named i a head value
    refine ⟨s0, hs0, leads.trans p.toLeads, fun t ht => (all t ht).grow p.symbols ?_⟩
    exact ⟨⟨fun id lt => Or.imp_left (p.symbols.keeps id lt).fileScope, fun _ _ h => h⟩, fun _ h => h⟩

lemma inits (hs : s.Sound) (h : Stmts s s1 done) (p : Proceeds s1 s2) {ts : List Tree}
    (hts : Inits s1 s2 ts) : Stmts s s2 (ts.reverse ++ done) := by
  have later := h.later p
  have hts := hts.earlier hs h.toLeads p.toLeads
  rcases List.eq_nil_or_concat ts with rfl | ⟨front, last, rfl⟩
  · exact later
  · refine ⟨later.toProceeds, fun t ht => ?_, fun i a head => ?_⟩
    · rcases List.mem_append.mp ht with ht | ht
      · obtain ⟨⟨i, a, b, rfl⟩, he⟩ := hts t (List.mem_reverse.mp ht)
        exact ⟨.expression he (.of_not_isLvalue rfl), fun _ _ _ => rfl⟩
      · exact later.parts t ht
    · obtain ⟨⟨j, b, c, rfl⟩, -⟩ := hts last (by simp)
      simp at head

lemma cons (hs : s.Sound) (h : Stmts s s1 done) {t : Tree} (f : Forms s1 s2 t) :
    Stmts s s2 (t :: done) := by
  have later := h.later f.toProceeds
  refine ⟨later.toProceeds, fun t' ht => ?_, fun i a head value => ?_⟩
  · rcases List.mem_cons.mp ht with rfl | ht
    · exact f.within hs h.toLeads
    · exact later.parts t' ht
  · obtain rfl : t = .result i a := Option.some.inj head
    obtain ⟨function, reads⟩ := f.valued i a rfl value
    refine ⟨s1, h.sound, f.toLeads, fun t' ht => ?_⟩
    rcases List.mem_cons.mp ht with rfl | ht
    · cases f.shape with
      | expression he => cases he
      | leave => cases value
      | result _ la typed =>
        have narrows : Scope.Narrows s2.table.symbols (reach s1 s2)
            { sees := Sees s1 s2, returns := Returns s } :=
          ⟨fun _ _ seen => seen, fun _ _ _ => trivial⟩
        exact .result (reads.grow (.refl _) narrows) la (h.toLeads.returns hs typed)
    · have within : Scope.Within s1.table.symbols (inner s s1)
          { sees := Sees s1 s2, returns := Returns s } :=
        ⟨⟨fun id lt hid => (hid function).imp_left (f.symbols.keeps id lt).fileScope,
          fun _ _ _ => trivial⟩, fun _ fits => fits⟩
      exact (h.parts t' ht).shape.grow f.symbols within

lemma forms (h : Stmts s s1 done) (line : Int64) : Forms s s1 (blockOf line done.reverse) := by
  unfold blockOf
  split
  · exact .empty h.toProceeds
  · have inside : Inside s s1 (.block { line } done.reverse) :=
      Holds.block fun t ht => h.parts t (List.mem_reverse.mp ht)
    refine ⟨h.toProceeds, inside.shape, inside.stays, nofun, fun value => ?_⟩
    rw [Tree.endsInValue, Tree.finalValue?, List.getLast?_reverse] at value
    split at value
    · rename_i i a head
      obtain ⟨s0, hs0, leads, all⟩ := h.named i a head (by simpa using value)
      exact ⟨s0, hs0, leads, .block fun t ht => all t (List.mem_reverse.mp ht)⟩
    · cases value

end Stmts

section
variable {done : List Tree} (hg : g.Sound) (hs : s.Sound) (inSwitch : Bool)
include hg hs

lemma localDeclaration_sound :
    Runs (localDeclaration g) s (fun inits s' => Proceeds s s' ∧ Inits s s' inits) Breaks := by
  refine (declaration_sound hg hs).bind ?_
  rintro ⟨spec, inits⟩ s1 ⟨d, hinits⟩
  refine runs_expect.mpr ⟨fun _ => ?_, fun _ => d.sound.breaks _⟩
  have q := Quiet.advanced d.sound
  exact ⟨d.proceeds.trans q.proceeds, hinits.later d.toLeads q.toLeads⟩

theorem statement_ends : Ends (statement g) s fun t s' => Forms s s' t := by
  simp only [statement, ends_peek]
  split
  · rw [ends_advance, ends_pure]
    exact .empty (Quiet.advanced hs).proceeds
  · rw [ends_advance]
    refine (hg.block hs.advanced).ends.bind ?_
    rintro body s1 f
    refine ends_expect fun _ => ?_
    rw [ends_pure]
    exact f.of_advanced.advanced
  · exact ifStatement_ends hg hs
  · exact whileStatement_ends hg hs
  · exact forStatement_ends hg hs
  · exact returnStatement_ends hg hs
  · exact breakStatement_ends hs
  · exact continueStatement_ends hs
  · exact switchStatement_ends hg hs
  · refine ends_isTypeName fun isType => ?_
    rw [ends_ite]
    refine ⟨fun _ => ?_, fun _ => ?_⟩
    · refine (localDeclaration_sound hg hs).ends.bind ?_
      rintro inits s1 ⟨p, hinits⟩
      rw [ends_pure]
      have start : Stmts s s [] := ⟨(Quiet.refl hs).proceeds, by simp, by simp⟩
      simpa using (start.inits hs p hinits).forms s.front.line
    · refine (expression_ends hg hs).bind ?_
      rintro t s1 ⟨q, ht, lt⟩
      refine ends_expect fun _ => ?_
      rw [ends_pure]
      exact (Forms.expression hs q ht lt).advanced

lemma nextStatement_ends (h : Stmts s s1 done) : Ends (nextStatement g inSwitch done) s1 fun r s' =>
      r.elim (Stmts s s') fun stmts => Stmts s s' stmts.reverse := by
  simp only [nextStatement, ends_peek, ends_ite, ends_pure, ends_fail_bind, implies_true, true_and]
  refine ⟨fun _ => by simpa using h, fun _ _ => ends_isTypeName fun isType => ?_⟩
  rw [ends_ite]
  refine ⟨fun _ => ?_, fun _ => ?_⟩
  · refine (localDeclaration_sound hg h.sound).ends.bind ?_
    rintro inits s2 ⟨p, hinits⟩
    rw [ends_pure]
    exact h.inits hs p hinits
  · refine (statement_ends hg h.sound).bind ?_
    rintro t s2 f
    rw [ends_pure]
    dsimp only [Sum.elim_inl]
    split
    · exact h.later f.toProceeds
    · exact h.cons hs f

theorem block_ends : Ends (block g inSwitch) s fun t s' => Forms s s' t := by
  simp only [block, ends_peek]
  have start : Stmts s s [] := ⟨(Quiet.refl hs).proceeds, by simp, by simp⟩
  refine Ends.bind (Ends.iterate (fun done s' => Stmts s s' done) start
    (fun done s1 h => nextStatement_ends hg hs inSwitch h)
    (Q := fun stmts s' => Stmts s s' stmts.reverse)) ?_
  rintro stmts s1 h
  rw [ends_pure]
  simpa using h.forms s.front.line

end

/-! ## Faults -/

/-- However reading `x` ends, what is known of functions that have been read stays known. -/
def Sunk {α : Type} (x : Parse α) : Prop := ∀ s : ParseState, s.Sound → Runs x s (fun _ s' => s'.Sound) Breaks

lemma Silent.sunk {α : Type} {x : Parse α} (h : Silent x) : Sunk x :=
  fun s hs => (h s hs).mono fun _ _ q => q.sound

lemma sunk : PairedBody fun _ x _ => Sunk x where
  pure _ := fun _ hs => hs
  fail _ := fun _ hs => ⟨rfl, hs.breaks _⟩
  bind hx hk := fun s hs => (hx s hs).bind hk
  peek := fun _ hs => hs
  table := fun _ hs => hs
  symbol _ := fun _ hs => hs
  update id _ same keeps := (silent.update id same keeps).sunk
  advance := fun _ hs => hs.advanced
  iterate _ _ := fun _ hstep s hs => by
    refine Runs.iterate (fun _ s' => s'.Sound) hs (fun _ _ h => h.breaks _) fun b s1 h => (hstep b s1 h).mono ?_
    rintro (b | a) s' h <;> exact h
  string first := (silent.string first).sunk
  onlyVoid _ _ hk := fun s hs => hk _ s hs
  levels _ hk := fun s hs => hk s s hs
  loops _ := fun _ hs => { hs with }
  switches _ := fun _ hs => { hs with }

section
variable (hg : g.Sound)
include hg

lemma sunkHas : g.Has Sunk where
  expression power := ((Grammar.has hg).expression power).sunk
  unaryExpression := (Grammar.has hg).unaryExpression.sunk
  typeSpec storage := ((Grammar.has hg).typeSpec storage).sunk
  resolve name := ((Grammar.has hg).resolve name).sunk

theorem statement_sound (hs : s.Sound) : Runs (statement g) s (fun t s' => Forms s s' t) Breaks := by
  refine (sunk.statement (sunkHas hg) ?_ ?_ ?_ s hs).given (statement_ends hg hs)
  · exact fun _ hs => (hg.statement hs).mono fun _ _ f => f.sound
  · exact fun _ _ hs => (hg.block hs).mono fun _ _ f => f.sound
  · exact fun _ hs => (localDeclaration_sound hg hs).mono fun _ _ h => h.1.sound

theorem block_sound (hs : s.Sound) {inSwitch : Bool} :
    Runs (block g inSwitch) s (fun t s' => Forms s s' t) Breaks := by
  refine (sunk.block (sunkHas hg) ?_ ?_ ?_ inSwitch s hs).given (block_ends hg hs inSwitch)
  · exact fun _ hs => (hg.statement hs).mono fun _ _ f => f.sound
  · exact fun _ _ hs => (hg.block hs).mono fun _ _ f => f.sound
  · exact fun _ hs => (localDeclaration_sound hg hs).mono fun _ _ h => h.1.sound

end

end Parse
end SmallC
