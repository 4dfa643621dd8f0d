import SmallC.Proofs.Composites
import SmallC.Proofs.Parse.Closure
import SmallC.Proofs.Parse.Invariant

/-!
# Reading types

What is put together from quiet readers is quiet. A type may define a struct, a union or an enumeration, and
the declarations of members may hold whole functions. Reading it is quiet all the same. Words of storage class
change the class only where they stand.
-/

namespace SmallC

open ParseState

variable {storage : StorageClass}

namespace SymbolTable

variable {members : List SymId} (st : SymbolTable) (name : Text) {st' : SymbolTable}

lemma addStruct_kept : TableKept st (st.addStruct name).2 :=
  .push rfl nofun (.push rfl rfl (.of_not_frame rfl) rfl (.inl rfl) (.inl rfl) (.inl rfl))

lemma addUnion_kept : TableKept st (st.addUnion name).2 :=
  .push rfl nofun (.push rfl rfl (.of_not_frame rfl) rfl (.inl rfl) (.inl rfl) (.inl rfl))

lemma addEnum_kept (h : storage = .enumType ∨ storage = .enumVal) {value : Int64} :
    TableKept st (st.addEnum name storage value).2 := by
  refine .push rfl nofun (.push rfl rfl (.of_not_frame ?_) rfl (.inl rfl) (.inl rfl) (.inl rfl))
  rcases h with rfl | rfl <;> rfl

lemma addTypedef_kept {t : CType} {ctype : Option SymId} : TableKept st (st.addTypedef name t ctype).2 :=
  .push rfl nofun (.push rfl rfl (.of_not_frame rfl) rfl (.inl rfl) (.inl rfl) (.inl rfl))

lemma Placed.kept {st : SymbolTable} (h : Placed st st') : TableKept st st' ∧ st'.locals = st.locals := by
  induction h with
  | refl => exact ⟨.lists rfl rfl rfl (.inl rfl) rfl, rfl⟩
  | step m offset _ ih => exact ⟨.trans (.update (fun _ => .of_core rfl fun h => h) rfl) ih.1, ih.2⟩

lemma layout_eq_ok {st : SymbolTable} {composite : SymId} (h : st.layout composite members = (.ok (), st')) :
    ∃ st1 size, TableKept st st1 ∧ st1.locals = st.locals ∧
      st' = st1.update composite fun s => { s with members, size } := by
  obtain ⟨st1, placed, ⟨e, run⟩ | ⟨size, run⟩⟩ := layout_cases st composite members
  · cases run.symm.trans h
  · cases run.symm.trans h
    exact ⟨st1, size, placed.kept.1, placed.kept.2, rfl⟩

end SymbolTable

namespace Parse

variable {g : Grammar} {s : ParseState} {α β : Type}

/-! ## Quiet readers -/

def Silent (x : Parse α) : Prop := ∀ s : ParseState, s.Sound → Runs x s (fun _ s' => Quiet s s') Breaks

namespace Silent

lemma bind {x : Parse β} {k : β → Parse α} (hx : Silent x) (hk : ∀ b, Silent (k b)) : Silent (x >>= k) :=
  fun s hs => (hx s hs).bind fun b s1 q => (hk b s1 q.sound).mono fun _ _ q' => q.trans q'

lemma iterate {step : β → Parse (β ⊕ α)} {b : β} (hstep : ∀ b, Silent (step b)) : Silent (iterate step b) := by
  refine fun s hs => Runs.iterate (fun _ s' => Quiet s s') (.refl hs) (fun _ _ q => q.sound.breaks _) ?_
  rintro b s1 q
  refine (hstep b s1 q.sound).mono ?_
  rintro (_ | _) s2 q2 <;> exact q.trans q2

lemma emit {code : Lower α} (h : ∀ {s : ParseState}, s.Sound → ∀ a out, code s.out = .ok a out → Quiet s { s with out }) :
    Silent (emit code) :=
  fun _ hs => runs_emit (h hs) fun e _ _ => hs.breaks (.lowering e)

lemma withTable {f : SymbolTable → α × SymbolTable} (kept : ∀ st, TableKept st (f st).2)
    (locals : ∀ st, (f st).2.locals = st.locals) : Silent (withTable f) :=
  fun _ hs => .withTable hs (kept _) (locals _)

end Silent

lemma silent : PairedReading fun _ x _ => Silent x where
  pure _ := fun _ hs => .refl hs
  fail _ := fun _ hs => ⟨rfl, hs.breaks _⟩
  bind := .bind
  peek := fun _ hs => .refl hs
  table := fun _ hs => .refl hs
  symbol _ := fun _ hs => .refl hs
  update id f same keeps := fun _ hs => by
    refine .update hs (fun _ => .of_core ?_ (keeps _)) ?_
    · rw [same]
      rfl
    all_goals rw [same]
  advance := fun _ hs => .advanced hs
  iterate _ _ := fun _ => .iterate
  string first := by
    refine .bind (.emit fun hs l out h => ?_) fun l => .bind (.iterate fun _ => ?_) fun text =>
      .bind (.emit fun hs _ out h => ?_) fun _ => fun _ hs => .refl hs
    · obtain ⟨-, rfl⟩ := Lower.newLabel_eq_ok.mp h
      exact .newLabel hs
    · intro s hs
      simp only [runs_isAt, runs_ite, runs_advance, runs_pure]
      exact ⟨fun _ => .advanced hs, fun _ => .refl hs⟩
    · obtain rfl := Lower.line_eq_ok.mp h
      exact .dataLine hs trivial
  onlyVoid _ _ hk := fun s hs => hk _ s hs


lemma Grammar.has (hg : g.Sound) : g.Has Silent where
  expression _ := fun _ hs => (hg.expression hs).mono fun _ _ h => h.1
  unaryExpression := fun _ hs => (hg.unaryExpression hs).mono fun _ _ h => h.1
  typeSpec _ := fun _ hs => hg.typeSpec hs
  resolve _ := fun _ hs => hg.resolve.imp (fun | _, _, ⟨rfl, _⟩ => .refl hs) fun | f, _, rfl => hs.breaks f

/-! ## Types -/

/-- What words of storage class make of a class. -/
def Words (s : ParseState) (storage storage' : StorageClass) : Prop :=
  (storage' = storage ∨ storage' = .external ∨ storage' = .static) ∧ (s.Clean → storage' = storage)

lemma storageWords_ends (hs : s.Sound) :
    Ends (storageWords storage) s fun storage' s' => Quiet s s' ∧ Words s storage storage' := by
  refine Ends.iterate (fun storage' s' => Quiet s s' ∧ Words s storage storage')
    ⟨.refl hs, .inl rfl, fun _ => rfl⟩ ?_
  rintro storage' s1 ⟨q, words⟩
  rw [ends_peek]
  split
  · rename_i hk
    simp only [ends_ite, ends_fail_bind, implies_true, true_and, ends_advance, ends_pure]
    intro _
    refine ⟨q.trans (.advanced q.sound), .inr (.inl rfl), fun hc => ?_⟩
    exact absurd hk (q.clean hc).front.2
  · rename_i hk
    simp only [ends_ite, ends_fail_bind, implies_true, true_and, ends_advance, ends_pure]
    intro _ _
    refine ⟨q.trans (.advanced q.sound), .inr (.inr rfl), fun hc => ?_⟩
    exact absurd hk (q.clean hc).front.1
  · rw [ends_pure]
    exact ⟨q, words⟩

lemma layout_quiet {s1 : ParseState} (hs : s.Sound) (q : Quiet s s1) {id : SymId}
    (new : s.table.symbols.size ≤ id) (lt : id < s1.table.symbols.size)
    (frame : (s1.table.get id).isFrame = false) (ok : (s1.table.layout id members).1 = .ok ()) :
    Quiet s { s1 with table := (s1.table.layout id members).2 } := by
  obtain ⟨st', h⟩ : ∃ st', s1.table.layout id members = (.ok (), st') := ⟨_, Prod.ext ok rfl⟩
  obtain ⟨st, size, laid, same, rfl⟩ := SymbolTable.layout_eq_ok h
  have q1 := q.trans (.withTable q.sound laid same)
  rw [h]
  -- It is no variable of a function, so its size is free.
  have frame := (laid.symbols.keeps id lt).frame.trans frame
  exact .updateNew hs q1 new ⟨rfl, rfl, rfl, rfl, fun h => h, fun h => h, .inl, rfl, rfl, fun h => h,
    fun _ => Symbol.Fit.sized (.of_not_frame frame)⟩

lemma silent_compositeBody (hg : g.Sound) (isUnion : Bool) (name : Text) :
    Silent (compositeBody g isUnion name) := by
  intro s hs
  simp only [compositeBody, runs_withTable_bind, runs_advance]
  generalize hadd : (if isUnion = true then s.table.addUnion name else s.table.addStruct name) = added
  obtain ⟨kept, locals, hid, new, frame⟩ : TableKept s.table added.2 ∧
      added.2.locals = s.table.locals ∧ added.1 < added.2.symbols.size ∧
      s.table.symbols.size ≤ added.1 ∧ (added.2.get added.1).isFrame = false := by
    cases isUnion <;> subst hadd
    · refine ⟨SymbolTable.addStruct_kept _ _, rfl, ?_, ?_, ?_⟩ <;>
        simp [SymbolTable.addStruct, SymbolTable.create, SymbolTable.get, Symbol.isFrame]
    · refine ⟨SymbolTable.addUnion_kept _ _, rfl, ?_, ?_, ?_⟩ <;>
        simp [SymbolTable.addUnion, SymbolTable.create, SymbolTable.get, Symbol.isFrame]
  have q1 : Quiet s { s with table := added.2 } := .withTable hs kept locals
  have taken : ∀ {s : ParseState}, s.Sound → ∀ members,
      Quiet s { s with table := { s.table with members } } :=
    fun hs members => .withTable hs (.lists rfl rfl rfl (.inl rfl) rfl) rfl
  have q2 := (q1.trans (.advanced q1.sound)).trans (taken q1.sound.advanced [])
  have list : Silent (memberList g) :=
    silent.memberList g g fun _ hs => hg.declaration .member hs nofun rfl
  refine (list _ q2.sound).bind ?_
  rintro - s3 q3
  rw [runs_expect]
  refine ⟨fun _ => ?_, fun _ => q3.sound.breaks _⟩
  have q4 := q3.trans (.advanced q3.sound)
  have q5 := q4.trans (taken q4.sound added.2.members)
  simp only [SymbolTable.takeMembers, runs_withTable_bind, runs_modifyTable_bind, runs_ite, runs_fail_bind,
    runs_ofType_bind, runs_pure]
  refine ⟨fun _ => q5.sound.breaks _, fun _ => ⟨?_, fun e _ => q5.sound.breaks (.lowering (.type e))⟩⟩
  rintro ⟨⟩ ok
  exact layout_quiet hs (q2.trans q5) new (Nat.lt_of_lt_of_le hid q5.symbols.size)
    ((q5.symbols.keeps _ hid).frame.trans frame) ok

lemma silent_plainType (hg : g.Sound) : Silent (plainType g) :=
  silent.plainType g g (silent.compositeType g g (silent_compositeBody hg))
    (silent.enumType fun name _ _ enum =>
      .withTable (fun st => st.addEnum_kept name enum) fun _ => rfl)
    (silent.typedefType g g (Grammar.has hg).typeSpec fun name _ _ =>
      .withTable (fun st => st.addTypedef_kept name) fun _ => rfl)

theorem typeSpec_sound (hg : g.Sound) (hs : s.Sound) :
    Runs (typeSpec g storage) s (fun r s' => Quiet s s' ∧ Words s storage r.2) Breaks := by
  refine ((silent.storageWords s hs).given (storageWords_ends hs)).bind ?_
  rintro storage' s1 ⟨q1, words⟩
  exact (silent_plainType hg s1 q1.sound).bind fun _ _ q2 => ⟨q1.trans q2, words⟩

end Parse
end SmallC
