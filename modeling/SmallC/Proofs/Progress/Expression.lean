import SmallC.Proofs.Progress.Steps

/-!
# Progress in expressions

An expression takes some tokens, and the last one of them is solid. Its parts are used one level deeper
after their first token only.
-/

namespace SmallC

variable {f : Symbol → Symbol} {id : SymId}

namespace SymbolTable

variable {st : SymbolTable}

/-! ## Static symbols -/

lemma Plain.update (h : st.Plain) (keeps : ∀ s : Symbol, s.storage ≠ .static → (f s).storage ≠ .static) :
    (st.update id f).Plain := by
  intro other
  by_cases same : id = other
  · subst other
    by_cases known : id < st.symbols.size
    · rw [get, SymbolTable.update, Symbols.get_update known, if_pos rfl]
      exact keeps _ (h id)
    · rw [get, Symbols.get_of_size_le (by simpa [SymbolTable.update] using known)]
      decide
  · rw [get, SymbolTable.update, Symbols.get_update_ne same]
    exact h other

lemma Plain.push (h : st.Plain) {s : Symbol} (plain : s.storage ≠ .static) (id : SymId) :
    (Symbols.get (st.symbols.push s) id).storage ≠ .static := by
  rcases Nat.lt_trichotomy id st.symbols.size with known | rfl | new
  · rw [Symbols.get_push known]
    exact h id
  · rwa [Symbols.get_push_size]
  · rw [Symbols.get_of_size_le (by rw [Array.size_push]; omega)]
    exact nofun

end SymbolTable

namespace Parse

variable {plain : Prop} {n : Nat} {α : Type} {g : Grammar} {left : Tree} {t : Token}

lemma pauses_update (keeps : ∀ s : Symbol, s.storage ≠ .static → (f s).storage ≠ .static) :
    Pauses plain (modifyTable fun st => st.update id f) :=
  pauses_modifyTable fun _ table is => (table is).update keeps

lemma pauses : Closed (Pauses plain) where
  view f := fun _ h => ⟨rfl, h⟩
  fail other := fun _ _ => ⟨rfl, other, rfl⟩
  bind := .bind
  update id f same := pauses_update fun s other => by rwa [same s]

/-! ## Expressions -/

lemma takes_stars {t : CType} : Spends plain n (stars t) .idle :=
  .iterate .whole .idle rfl rfl fun _ => .ifAt
    (.pauses pauses.pair.ofType fun _ => .advanceAt rfl rfl fun _ => takes_pure rfl) (takes_pure rfl)

lemma takes_memberAccess {viaPointer : Bool} : SpendsSolid plain n (memberAccess left viaPointer) .whole := by
  refine .pauses pauses.pair.memberBase fun base => ?_
  split
  · refine .advance fun _ => .expectIdentifier fun _ => .pauses pauses.pair.table fun _ => ?_
    split
    · exact .pauses pauses.pair.ofType fun _ => takes_pure rfl
    · exact takes_fail nofun
  · exact takes_fail nofun

lemma takes_stringOperand {first : Token} : Spends plain n (stringOperand first) .idle :=
  .pauses pauses_emit fun _ =>
    .seq (.iterate .whole .idle rfl rfl fun _ => .ifAt (.advanceAt rfl rfl fun _ => takes_pure rfl) (takes_pure rfl))
      fun _ => .pauses pauses_emit fun _ => takes_pure rfl

lemma takes_stepAfter {operand : Tree} : SpendsSolid plain n (stepAfter operand t) .whole := by
  unfold stepAfter
  refine .ifFails nofun (.ifFails nofun (.unlessFails nofun (.advance fun _ => takes_pure rfl)))

lemma isSolid_of_power {kind : TokenKind} {p : Nat} (h : kind.power? = some p) : kind.isSolid = true := by
  cases kind with
  | semicolon => cases h
  | eof => cases h
  | _ => rfl

section
variable (hg : g.Takes plain n) {line : Int64}
include hg

lemma takes_ternary {cond : Tree} {yes : Tree} : Spends plain (n + 1) (ternary g cond yes line) .whole :=
  .expect rfl fun _ => .seq (.inner rfl (hg.expression 0)) fun _ => takes_pure rfl

lemma takes_arrayAccess : SpendsSolid plain (n + 1) (arrayAccess g left) .whole :=
  .unlessFails nofun (.advance fun _ => .seq (.inner rfl (hg.expression 0)) fun _ => .expect rfl fun _ =>
    .unlessFails nofun (.pauses pauses.pair.conversion fun _ => takes_pure rfl))

lemma takes_castType : Spends plain n (castType g) .whole :=
  .seq (hg.typeSpec _) fun _ => .seq (.part takes_stars) fun _ => .ifFails nofun (takes_pure rfl)

lemma takes_parenthesised : SpendsSolid plain (n + 1) (parenthesised g) .whole :=
  .advance fun _ => .pauses pauses.pair.isTypeName fun _ => .ite
    (.seq (.inner rfl (takes_castType hg)) fun _ => .expect rfl fun _ => .seq (.inner rfl hg.unaryExpression) fun _ =>
      takes_pure rfl)
    (.seq (.inner rfl (hg.expression 0)) fun _ => .expect rfl fun _ => takes_pure rfl)

lemma takes_expressionList {last : TokenKind} : Spends plain n (expressionList g last) .idle :=
  .iterate .whole .idle rfl rfl fun _ => .ifAt (takes_pure rfl) (.seq (.anywhere (hg.expression 0)) fun _ =>
    .ifAt (takes_pure rfl) (.expect rfl fun _ => takes_pure rfl))

lemma takes_functionCall {sym : SymId} : Spends plain (n + 1) (functionCall g sym line) .whole :=
  .expect rfl fun _ => .seq (.inner rfl (takes_expressionList hg)) fun _ => .expect rfl fun _ =>
    .pauses pauses.pair.table fun _ => .pauses (pauses.pair.adaptArgs _) fun _ => takes_pure rfl

lemma takes_sizeofOperand : Spends plain (n + 1) (sizeofOperand g line) .whole :=
  .unlessAt nofun (.advanceAt rfl rfl fun _ => .seq (.inner rfl (hg.typeSpec _)) fun _ =>
    .seq (.part takes_stars) fun _ => .pauses pauses.pair.table fun _ => .pauses pauses.pair.ofType fun _ =>
      .expect rfl fun _ => takes_pure rfl)

lemma takes_identifierOperand : SpendsSolid plain (n + 1) (identifierOperand g t) .whole := by
  refine .pauses (hg.resolve _) fun referent => ?_
  cases referent with
  | constant v => exact .advance fun _ => takes_pure rfl
  | symbol id =>
    refine .advance fun _ => .pauses (pauses.pair.symbol _) fun sym => ?_
    dsimp only
    split
    · exact takes_pure rfl
    · exact takes_pure rfl
    · exact .unlessAt nofun (.anywhere (.part (takes_functionCall hg)))

lemma takes_primary : Spends plain (n + 1) (primary g) .whole := by
  refine .peek fun t => ?_
  split
  · exact takes_fail nofun
  · exact takes_fail nofun
  · exact .advanceAt ‹_› rfl fun _ => .part (takes_sizeofOperand hg)
  · exact .advanceAt ‹_› rfl fun _ => takes_pure rfl
  · exact .advanceAt ‹_› rfl fun _ => .part takes_stringOperand
  · exact .atSolid ‹_› rfl (takes_identifierOperand hg)
  · exact .atSolid ‹_› rfl (takes_parenthesised hg)
  · exact takes_fail nofun

lemma takes_postfixed : Spends plain (n + 1) (postfixed g) .whole := by
  refine .seq (takes_primary hg) fun _ => .part (.iterate .whole .idle rfl rfl fun operand => .peek fun t => ?_)
  split
  · exact .seq (.atSolid ‹_› rfl (takes_arrayAccess hg)) fun _ => takes_pure rfl
  · exact .seq (.atSolid ‹_› rfl takes_memberAccess) fun _ => takes_pure rfl
  · exact .seq (.atSolid ‹_› rfl takes_memberAccess) fun _ => takes_pure rfl
  · exact .seq (.atSolid ‹_› rfl takes_stepAfter) fun _ => takes_pure rfl
  · exact .seq (.atSolid ‹_› rfl takes_stepAfter) fun _ => takes_pure rfl
  · exact takes_pure rfl

lemma takes_unaryExpression : Spends plain (n + 1) (unaryExpression g) .whole := by
  refine .peek fun t => ?_
  split
  · exact .advanceAt ‹_› rfl fun _ => .seq (.inner rfl hg.unaryExpression) fun _ =>
      .pausesLast (fun _ => rfl) pauses.pair.addressOf
  · exact .advanceAt ‹_› rfl fun _ => .seq (.inner rfl hg.unaryExpression) fun _ =>
      .pausesLast (fun _ => rfl) pauses.pair.contentOf
  · exact .advanceAt ‹_› rfl fun _ => .seq (.inner rfl hg.unaryExpression) fun _ => takes_pure rfl
  · exact .advanceAt ‹_› rfl fun _ => .seq (.inner rfl hg.unaryExpression) fun _ => takes_pure rfl
  · exact .advanceAt ‹_› rfl fun _ => .seq (.inner rfl hg.unaryExpression) fun _ => takes_pure rfl
  · exact .advanceAt ‹_› rfl fun _ => .seq (.inner rfl hg.unaryExpression) fun _ =>
      .pausesLast (fun _ => rfl) pauses.pair.stepBefore
  · exact .advanceAt ‹_› rfl fun _ => .seq (.inner rfl hg.unaryExpression) fun _ =>
      .pausesLast (fun _ => rfl) pauses.pair.stepBefore
  · exact .anywhere (takes_postfixed hg)

lemma takes_continued {power : Nat} (left : Tree) :
    Takes plain (n + 1) .idle (fun _ => True) (continued g power left)
      (Sum.elim (fun _ => .whole) fun _ => .idle) := by
  refine .peek fun t => .ite (takes_pure rfl) ?_
  split
  · rename_i p operator
    refine .ite (takes_pure rfl) (.advanceAt rfl (isSolid_of_power operator) fun _ =>
      .seq (.inner rfl (hg.expression _)) fun right => ?_)
    split
    · exact .seq (.part (takes_ternary hg)) fun _ => takes_pure rfl
    · exact .pauses pauses.pair.assignment fun _ => takes_pure rfl
    · exact .ite (.pauses pauses.pair.compoundAssignment fun _ => takes_pure rfl)
        (.pauses pauses.pair.binary fun _ => takes_pure rfl)
  · exact takes_fail nofun

lemma takes_expression (power : Nat) : Spends plain (n + 1) (expression g power) .whole :=
  .seq (takes_unaryExpression hg) fun _ => .part (.iterate .whole .idle rfl rfl (takes_continued hg))

end
end Parse
end SmallC
