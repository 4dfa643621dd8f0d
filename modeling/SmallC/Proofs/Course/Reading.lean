import SmallC.Proofs.Course.Relation

/-!
# The course of expressions and types

Reading any part of the grammar goes the way that `Goes` says. An expression or a type touches file scope
only if a word of storage class stands inside of it.
-/

namespace SmallC

open ParseState SymbolTable

variable {s : ParseState}

namespace Parse

/-- Reading `x` goes as it may, where `c` allows for what belongs to file scope, and so do words of storage
class. -/
def Going {α : Type} (c : Prop) (x : Parse α) : Prop :=
  ∀ s : ParseState, Ends x s fun _ s' => Goes (c ∨ s.Worded s') s s'

variable {α β : Type} {c : Prop}
variable {x : Parse α}

namespace Going

lemma after (hx : Going c x) {old : ParseState} (h : Goes (c ∨ old.Worded s) old s) :
    Ends x s fun _ s' => Goes (c ∨ old.Worded s') old s' :=
  (hx s).mono fun _ _ k => h.seq k

lemma bind {x : Parse β} {f : β → Parse α} (hx : Going c x) (hf : ∀ b, Going c (f b)) :
    Going c (x >>= f) :=
  fun s => (hx s).bind fun b _ h => (hf b).after h

lemma iterate {step : β → Parse (β ⊕ α)} {b : β} (hstep : ∀ b, Going c (step b)) :
    Going c (iterate step b) := by
  intro s
  refine Ends.iterate (fun _ s' => Goes (c ∨ s.Worded s') s s') (.refl s) fun b s1 h => ?_
  refine ((hstep b).after h).mono ?_
  rintro (b' | a) s' k
  · exact k
  · exact k

end Going

/-! ## Steps -/

lemma going_of_still (h : ∀ s : ParseState, Ends x s fun _ s' => s.Still s') : Going c x :=
  fun s => (h s).mono fun _ _ k => .still k

lemma still_of_run (h : ∀ s : ParseState, ∃ a s', x s = .ok a s' ∧ s.Still s') : Going c x := by
  refine going_of_still fun s a s' run => ?_
  obtain ⟨b, s1, run', still⟩ := h s
  rw [run'] at run
  cases run
  exact still

lemma going_withTable {f : SymbolTable → α × SymbolTable} (h : ∀ st : SymbolTable, st.Notes c (f st).2) :
    Going c (withTable f) :=
  fun s => ends_withTable.mpr (.notes ((h s.table).mono .inl))

lemma still_stars {t : CType} : Ends (stars t) s fun _ s' => s.Still s' := by
  refine Ends.iterate (fun _ s' => s.Still s') (.refl s) fun t s1 still => ?_
  simp only [ends_isAt, ends_ite, ends_ofType_bind, ends_advance, ends_pure]
  exact ⟨fun _ _ _ => still.trans (still_advanced s1), fun _ => still⟩

lemma going_stringOperand (first : Token) : Going c (stringOperand first) := by
  intro s
  refine Ends.bind (P := fun l s1 => l = s.out.labels + 1 ∧ s1 = { s with out := s.out.count 0 1 })
    (ends_emit fun l out h => ?_) ?_
  · obtain ⟨rfl, rfl⟩ := Lower.newLabel_eq_ok.mp h
    exact ⟨rfl, rfl⟩
  rintro l s1 ⟨rfl, rfl⟩
  refine Ends.bind (P := fun _ s' => s'.rest <:+ s.rest ∧ s'.table = s.table ∧ s'.out = s.out.count 0 1)
    ?_ ?_
  · refine Ends.iterate (fun _ s' => s'.rest <:+ s.rest ∧ s'.table = s.table ∧ s'.out = s.out.count 0 1)
      ⟨List.suffix_rfl, rfl, rfl⟩ fun text s1 same => ?_
    simp only [ends_isAt, ends_ite, ends_advance, ends_pure]
    exact ⟨fun _ => ⟨(List.tail_suffix _).trans same.1, same.2⟩, fun _ => same⟩
  · rintro text s2 ⟨rest, table, out⟩
    refine Ends.bind (P := fun _ s' =>
      s' = { s2 with out := (s.out.count 0 1).add [.string (s.out.labels + 1) text] })
      (ends_emit fun _ out' h => ?_) ?_
    · rw [Lower.line_eq_ok.mp h, out]
    · rintro - s3 rfl
      exact ends_pure.mpr (@Goes.string _ s { s2 with out := s.out } text ⟨rest, table, rfl⟩)

lemma going : ClosedReading (Going c) where
  view f := still_of_run fun s => ⟨_, s, rfl, .refl s⟩
  fail _ := fun _ => ends_fail.mpr trivial
  bind := .bind
  update id f same := by
    refine going_withTable fun st => .update ?_ fun _ _ => ?_
    · rw [same]
      exact ⟨⟨rfl, rfl, rfl, rfl⟩, rfl, rfl⟩
    · rw [same]
      exact ⟨rfl, rfl⟩
  advance := still_of_run fun s => ⟨_, s.advanced, rfl, still_advanced s⟩
  iterate := .iterate
  string := going_stringOperand
  count {f} same := by
    refine still_of_run fun s => ⟨_, f s, rfl, ?_⟩
    rw [same s]
    exact ⟨List.suffix_rfl, rfl, rfl⟩

/-- A declaration of a parameter. Unless words of storage class are read, it adds a parameter of the type
that it gives, and nothing else has to do with parameters. -/
def Collects (x : Parse (TypeSpec × List Tree)) : Prop :=
  ∀ s : ParseState, Ends x s fun r s' => Goes True s s' ∧ (¬ s.Worded s' → r.1.bare = true ∨
    ∃ s1 name ctype, Goes False s s1 ∧ s'.table = (s1.table.addParam name r.1.type ctype).2)

end Parse

open Parse in
structure Grammar.Going (g : Grammar) : Prop where
  expression : ∀ power, Parse.Going False (g.expression power)
  unaryExpression : Parse.Going False g.unaryExpression
  typeSpec : ∀ storage, Parse.Going False (g.typeSpec storage)
  member : ∀ end1 end2, Parse.Going False (g.declaration .member end1 end2)
  param : Collects (g.declaration .param .comma .rparen)
  statement : Parse.Going False g.statement
  block : ∀ inSwitch, Parse.Going False (g.block inSwitch)
  resolve : ∀ name, Parse.Going False (g.resolve name)

lemma Grammar.Going.has {g : Grammar} (hg : g.Going) : g.Has (Parse.Going False) := { hg with }

namespace Parse

variable {c : Prop} {g : Grammar} (hg : g.Going) {storage : StorageClass} {st st' : SymbolTable}

/-! ## Types -/

lemma storageWords_course : Ends (storageWords storage) s fun r s' =>
      s.Still s' ∧ (r = storage ∨ s.Worded s' ∧ r.isFileScope = true) := by
  refine Ends.iterate (fun r s' => s.Still s' ∧ (r = storage ∨ s.Worded s' ∧ r.isFileScope = true))
    ⟨.refl s, .inl rfl⟩ ?_
  rintro r s1 ⟨still, class'⟩
  have word (h : s1.front.kind = .staticKw ∨ s1.front.kind = .externKw) : s.Worded s1.advanced := by
    refine Worded.right ⟨[s1.front], rest_eq_of_front fun last => ?_, s1.front, .head _, h⟩ still.rest
    rcases h with h | h <;> cases last.symm.trans h
  rw [ends_peek]
  split
  · rename_i here
    simp only [ends_ite, ends_fail_bind, implies_true, true_and, ends_advance, ends_pure]
    exact fun _ => ⟨still.trans (still_advanced s1), .inr ⟨word (.inr here), rfl⟩⟩
  · rename_i here
    simp only [ends_ite, ends_fail_bind, implies_true, true_and, ends_advance, ends_pure]
    exact fun _ _ => ⟨still.trans (still_advanced s1), .inr ⟨word (.inl here), rfl⟩⟩
  · exact ends_pure.mpr ⟨still, class'⟩

lemma notes_push {s : Symbol} (symbols : st'.symbols = st.symbols.push s) (globals : st'.globals = st.globals)
    (params : st'.params = st.params) (kind : s.kind = .variable) (storage : s.storage ≠ .param) :
    st.Notes c st' :=
  .push symbols globals (by rw [kind]; exact Kind.noConfusion) fun _ => ⟨params, storage⟩

lemma notes_placed (h : Placed st st') : st.Notes c st' := by
  induction h with
  | refl st => exact .refl st
  | step m offset _ ih => exact .trans (.update ⟨⟨rfl, rfl, rfl, rfl⟩, rfl, rfl⟩ fun _ _ => ⟨rfl, rfl⟩) ih

lemma notes_layout {id : SymId} (members : List SymId) (kind : (st.get id).kind ≠ .function) :
    st.Notes c (st.layout id members).2 := by
  obtain ⟨st1, placed, ⟨e, run⟩ | ⟨size, run⟩⟩ := layout_cases st id members
  · rw [run]
    exact notes_placed placed
  · obtain ⟨offset, same⟩ := placed.get id
    rw [run]
    refine (notes_placed placed).trans (.update ⟨⟨rfl, rfl, rfl, rfl⟩, rfl, rfl⟩ fun _ function => absurd ?_ kind)
    rw [same] at function
    exact function

include hg

lemma going_compositeBody (isUnion : Bool) (name : Text) : Going False (compositeBody g isUnion name) := by
  intro s
  have added : ∃ y : Symbol, y.kind = .variable ∧ y.storage ≠ .param ∧
      (if isUnion then s.table.addUnion name else s.table.addStruct name).1 = s.table.symbols.size ∧
      (if isUnion then s.table.addUnion name else s.table.addStruct name).2.symbols =
        s.table.symbols.push y ∧
      (if isUnion then s.table.addUnion name else s.table.addStruct name).2.globals = s.table.globals ∧
      (if isUnion then s.table.addUnion name else s.table.addStruct name).2.params = s.table.params := by
    cases isUnion with
    | true => exact ⟨_, rfl, StorageClass.noConfusion, rfl, rfl, rfl, rfl⟩
    | false => exact ⟨_, rfl, StorageClass.noConfusion, rfl, rfl, rfl, rfl⟩
  unfold compositeBody
  simp only [ends_withTable_bind, ends_advance]
  generalize (if isUnion then s.table.addUnion name else s.table.addStruct name) = add at added ⊢
  obtain ⟨id, st⟩ := add
  obtain ⟨y, kind, storage, rfl, symbols, globals, params⟩ := added
  have first : Goes (False ∨ s.Worded s.advanced) s { s.advanced with table := st.takeMembers.2 } :=
    .trans (.still (still_advanced s)) (.notes (.push symbols globals (by rw [kind]; exact Kind.noConfusion)
      fun _ => ⟨params, storage⟩))
  refine (going.pair.memberList g g (hg.member _ _) _).bind fun _ s1 read => ends_expect fun _ => ?_
  simp only [ends_withTable_bind, ends_modifyTable_bind, ends_ite, ends_fail_bind, implies_true, true_and,
    ends_ofType_bind, ends_pure]
  intro _ _ _
  have here : s.table.symbols.size < st.symbols.size := by rw [symbols, Array.size_push]; omega
  have other : (s1.table.get s.table.symbols.size).kind ≠ .function := by
    rw [(read.carries.fits _ here).kind]
    change (st.symbols.get s.table.symbols.size).kind ≠ _
    rw [symbols, Symbols.get_push_size, kind]
    exact Kind.noConfusion
  have back : s1.advanced.table.Notes (False ∨ s1.Worded s1.advanced)
      { s1.advanced.table.takeMembers.2 with members := st.members } := .of_symbols rfl rfl fun _ => rfl
  have complete := back.trans (notes_layout s1.table.members other)
  exact (first.seq read).seq ((Goes.still (still_advanced s1)).trans (.notes complete))

lemma going_plainType : Going False (plainType g) :=
  going.pair.plainType g g (going.pair.compositeType g g (going_compositeBody hg))
    (going.pair.enumType fun _ _ _ enum => going_withTable fun _ => notes_push rfl rfl rfl rfl (by
      rcases enum with rfl | rfl <;> exact StorageClass.noConfusion))
    (going.pair.typedefType g g hg.typeSpec fun _ _ _ => going_withTable fun _ =>
      notes_push rfl rfl rfl rfl StorageClass.noConfusion)

lemma going_typeSpec : Going False (typeSpec g storage) :=
  going.pair.storageWords.bind fun _ => (going_plainType hg).bind fun _ => going.pure _

lemma typeSpec_course : Ends (typeSpec g storage) s fun r s' => Goes (s.Worded s') s s' ∧
      (r.2 = storage ∨ s.Worded s' ∧ r.2.isFileScope = true) := by
  refine storageWords_course.bind ?_
  rintro storage' s1 ⟨still, word⟩
  refine (going_plainType hg s1).bind fun spec s2 read => ends_pure.mpr ⟨?_, ?_⟩
  · exact (Goes.seq (c := False) (.still still) read).mono (·.resolve_left id)
  · exact word.imp_right (.imp_left (·.left read.rest))

end Parse
end SmallC
