import SmallC.Proofs.Composites
import SmallC.Proofs.Progress.Expression

/-!
# Progress in types, declarations and statements

A declaration takes some tokens, and the last one of them is solid: a semicolon after it is not part of it,
and those inside of it stand between braces. A grammar that is deeper than there are tokens does not end
because of its depth.
-/

namespace SmallC

namespace Parse

variable {plain : Prop} {n : Nat} {α : Type} {g : Grammar} {ctype : Option SymId} {name : Text} {t : CType}
  {storage : StorageClass} {spec : TypeSpec} {s : ParseState} {id : SymId}
variable {st : SymbolTable}

/-! ## Types -/

lemma takes_storageWords : Spends plain n (storageWords storage) .idle := by
  refine .iterate .whole .idle rfl rfl fun storage => .peek fun t => ?_
  split
  · exact .ifFails nofun (.advanceAt ‹_› rfl fun _ => takes_pure rfl)
  · exact .ifFails nofun (.ifFails nofun (.advanceAt ‹_› rfl fun _ => takes_pure rfl))
  · exact takes_pure rfl

lemma storageWords_plain (h : plain → storage ≠ .static) (words : plain → ∀ t ∈ s.rest, t.kind ≠ .staticKw) :
    Ends (storageWords storage) s fun storage' _ => plain → storage' ≠ .static := by
  refine Ends.iterate (fun storage t => (plain → storage ≠ .static) ∧
    (plain → ∀ u ∈ t.rest, u.kind ≠ .staticKw)) ⟨h, words⟩ ?_
  rintro storage t ⟨other, words⟩
  have later : plain → ∀ u ∈ t.advanced.rest, u.kind ≠ .staticKw := fun is u mem =>
    words is u (List.mem_of_mem_tail mem)
  rw [ends_peek]
  split
  · simp only [ends_ite, ends_fail_bind, ends_advance, ends_pure, implies_true, true_and]
    exact fun _ => ⟨by simp, later⟩
  · rename_i kind
    have none : ¬ plain := by
      intro is
      have mem : t.front ∈ t.rest := by
        rw [t.rest_eq_of_front (by simp [kind])]
        exact List.mem_cons_self
      exact words is _ mem kind
    simp only [ends_ite, ends_fail_bind, ends_advance, ends_pure, implies_true, true_and]
    exact fun _ _ => ⟨fun is => absurd is none, later⟩
  · exact ends_pure.mpr other

lemma takes_tag : Spends plain n tag .idle :=
  .ifAt (.advanceAt rfl rfl fun _ => takes_pure rfl) (takes_pure rfl)

lemma takes_enumeratorValue {next : Int64} : Spends plain n (enumeratorValue next) .idle :=
  .ifAt (.advanceAt rfl rfl fun _ => .unlessAt nofun (.advanceAt rfl rfl fun _ => takes_pure rfl))
    (takes_pure rfl)

lemma takes_enumerators : Spends plain n enumerators .whole :=
  .iterate .whole .whole rfl rfl fun _ => .expectIdentifier fun _ => .pauses pauses.pair.table fun _ => .ifFails nofun
    (.seq (.part takes_enumeratorValue) fun _ => .pauses (pauses_withTable fun _ table is => (table is).push nofun)
      fun _ => .ifAt (takes_pure rfl) (.expect rfl fun _ => takes_pure rfl))

lemma enumerators_front : Ends enumerators s fun _ t => t.front.kind = .rbrace := by
  refine Ends.iterate (fun _ _ => True) trivial fun value t _ => ?_
  refine .later fun _ _ => .later fun _ _ => ends_ite.mpr ⟨fun _ => ends_fail_bind.mpr trivial, fun _ => ?_⟩
  refine .later fun _ _ => .later fun _ u => ?_
  rw [ends_isAt, ends_ite]
  exact ⟨fun is => ends_pure.mpr (show u.front.kind = .rbrace from of_decide_eq_true is), fun _ => .later fun _ _ => ends_pure.mpr trivial⟩

lemma takes_enumType : SpendsSolid plain n enumType .whole := by
  refine .advance fun _ => .seq (.part takes_tag) fun name => .pauses pauses.pair.table fun st =>
    .ifAt (.advanceAt rfl rfl fun _ => ?_) (.ite (takes_fail nofun) (takes_pure rfl))
  have rest : Takes plain n .whole (fun _ => True) (do
        let _ ← withTable fun st => st.addEnum (name.getD []) .enumType 0
        enumerators
        let _ ← advance) fun _ => .whole :=
    .pauses (pauses_withTable fun _ table is => (table is).push nofun) fun _ =>
      .seqKnown (fun _ kind => kind = .rbrace) (.part takes_enumerators) (fun t _ => enumerators_front)
        fun _ => .advanceAt rfl rfl fun _ => takes_pure rfl
  split
  · exact takes_fail_bind nofun
  · exact rest

lemma takes_orBare : Spends plain n (orBare spec) .idle :=
  .pauses pauses.pair.isAt fun _ => takes_pure rfl

lemma takes_keywordType : SpendsSolid plain n (keywordType t) .whole :=
  .advance fun _ => takes_pure rfl

lemma takes_namedType : SpendsSolid plain n (namedType name) .whole := by
  refine .pauses pauses.pair.table fun st => ?_
  split
  · exact .advance fun _ => takes_pure rfl
  · exact takes_fail nofun

lemma plain_layout (h : st.Plain) {composite : SymId} {members : List SymId} :
    (st.layout composite members).2.Plain := by
  obtain ⟨st1, placed, run⟩ := SymbolTable.layout_cases st composite members
  have plain : st1.Plain := by
    clear run
    induction placed with
    | refl => exact h
    | step m offset _ ih => exact ih (h.update fun _ other => other)
  rcases run with ⟨e, run⟩ | ⟨size, run⟩
  · rw [run]
    exact plain
  · rw [run]
    exact plain.update fun _ other => other

section
variable (hg : g.Takes plain n)
include hg

lemma takes_typedefType : SpendsSolid plain (n + 1) (typedefType g) .whole :=
  .advance fun _ => .seq (.inner rfl (hg.typeSpec _)) fun _ => .ifFails nofun
    (.seq (.part takes_stars) fun _ => .unlessAt nofun (.pauses pauses.pair.peek fun _ => .pauses pauses.pair.table fun _ =>
      .ifFails nofun (.pauses (pauses_withTable fun _ table is => (table is).push nofun) fun _ =>
        .advanceAt rfl rfl fun _ => takes_pure rfl)))

lemma takes_memberList : Spends plain n (memberList g) .any :=
  .iterate .some .any rfl rfl fun _ => .ifAt (takes_pure rfl)
    (.seq (.anywhere (hg.declaration _ _ _ nofun)) fun _ => .ifFails nofun (.skip nofun (takes_pure rfl)))

lemma takes_compositeBody {isUnion : Bool} :
    SpendsSolid plain (n + 1) (compositeBody g isUnion name) .whole := by
  refine .pauses (pauses_withTable fun st table is => ?_) fun _ => .advance fun _ =>
    .pauses (pauses_withTable fun _ table is => table is) fun _ => .seq (.inner rfl (takes_memberList hg)) fun _ =>
      .expect rfl fun _ => .pauses (pauses_withTable fun _ table is => table is) fun _ =>
        .pauses (pauses_modifyTable fun _ table is => table is) fun _ => .ifFails nofun
          (.pauses (pauses_withTable fun _ table is => plain_layout (table is)) fun _ =>
            .pauses pauses.pair.ofType fun _ => takes_pure rfl)
  split
  · exact (table is).push nofun
  · exact (table is).push nofun

lemma takes_compositeType (isUnion : Bool) :
    SpendsSolid plain (n + 1) (compositeType g isUnion) .whole := by
  refine .advance fun _ => .seq (.part takes_tag) fun name => .pauses pauses.pair.table fun st =>
    .ifAt (.ifFails nofun ?_) ?_
  · exact .part (.atSolid rfl rfl (takes_compositeBody hg))
  · split
    · exact takes_pure rfl
    · exact takes_fail nofun

lemma takes_plainType : Spends plain (n + 1) (plainType g) .whole := by
  refine .peek fun t => ?_
  split
  · exact .atSolid ‹_› rfl takes_keywordType
  · exact .atSolid ‹_› rfl takes_keywordType
  · exact .atSolid ‹_› rfl takes_keywordType
  · exact .atSolid ‹_› rfl takes_keywordType
  · exact .seq (.atSolid ‹_› rfl (takes_compositeType hg _)) fun _ =>
      .part takes_orBare
  · exact .seq (.atSolid ‹_› rfl (takes_compositeType hg _)) fun _ =>
      .part takes_orBare
  · exact .seq (.atSolid ‹_› rfl takes_enumType) fun _ => .part takes_orBare
  · exact .seq (.atSolid ‹_› rfl (takes_typedefType hg)) fun _ => .part takes_orBare
  · exact .atSolid ‹_› rfl takes_namedType
  · exact takes_fail nofun

lemma takes_typeSpec (storage : StorageClass) : Spends plain (n + 1) (typeSpec g storage) .whole :=
  .seq takes_storageWords fun _ => .seq (.part (takes_plainType hg)) fun _ => takes_pure rfl

end

/-! ## Variables and arrays -/

lemma pauses_redeclared : Pauses plain (redeclared storage name t ctype) := by
  refine pauses.pair.table.bind fun st => ?_
  split
  · exact pauses.ite (pauses.ifFails nofun (pauses.ifFails nofun (.bind (pauses_update fun _ _ => nofun)
      fun _ => pauses.pure _))) (pauses.fail nofun)
  · exact pauses.pure _

section
variable {storage : StorageClass} (file : plain → storage ≠ .static)
include file

lemma pauses_fileScopeSymbol {kind : Kind} {count : Int64} :
    Pauses plain (fileScopeSymbol storage name t ctype kind count) := by
  refine pauses_redeclared.bind fun r => ?_
  cases r with
  | some sym => exact pauses.pure _
  | none => exact pauses_withTable fun _ table is => (table is).push (file is)

lemma pauses_scalarSymbol : Pauses plain (scalarSymbol name t ctype storage) := by
  unfold scalarSymbol
  split
  · exact pauses_fileScopeSymbol file
  · exact pauses_fileScopeSymbol file
  · exact pauses_fileScopeSymbol file
  · exact .bind (pauses_withTable fun _ table is => (table is).push nofun) fun _ =>
      (pauses_update (by exact fun _ => id)).bind fun _ => pauses.pure _
  · exact pauses_withTable fun _ table is => (table is).push nofun
  · exact pauses_withTable fun _ table is => (table is).push nofun

lemma pauses_arraySymbol : Pauses plain (arraySymbol name t ctype storage) := by
  unfold arraySymbol
  split
  · exact pauses_fileScopeSymbol file
  · exact pauses_fileScopeSymbol file
  · exact pauses_fileScopeSymbol file
  · exact .bind (pauses_withTable fun _ table is => (table is).push nofun) fun _ =>
      (pauses_update (by exact fun _ => id)).bind fun _ => pauses.pure _
  · exact pauses.fail nofun

lemma pauses_newFunction : Pauses plain (newFunction name t ctype storage) :=
  .bind (pauses_withTable fun _ table is => (table is).push (file is)) fun _ => pauses_emit.bind fun _ =>
    (pauses_update (by exact fun _ => id)).bind fun _ => pauses.pure _

lemma pauses_functionSymbol {earlier : Option SymId} :
    Pauses plain (functionSymbol earlier name t ctype storage) := by
  cases earlier with
  | some sym => exact (pauses.pair.symbol _).bind fun _ => pauses.ifFails nofun (pauses.pure _)
  | none => exact pauses_newFunction file

end

lemma pauses_writeData : Pauses plain (writeData storage id) :=
  pauses.ite (pauses.pair.table.bind fun _ => pauses_emit) (pauses.pure _)

section
variable (hg : g.Takes plain n) {sym : SymId} {info : Info} {seen : List (ArmHead × Tree)}
  {length : Option Int64} {params : List SymId} {body : Tree}
variable {storage : StorageClass}
include hg

lemma takes_constant : Spends plain (n + 1) (constant g t) .whole := by
  refine .seq (takes_expression hg 0) fun tree => ?_
  split
  · exact takes_pure rfl
  · rename_i failed
    exact takes_fail (constantValue_ne_exhausted failed)

lemma takes_initialiser : Spends plain (n + 1) (initialiser g name sym info storage) .idle :=
  .ifAt (.unlessFails (by nofun) (.advanceAt rfl rfl fun _ => .ite
    (.seq (.part (takes_expression hg 0)) fun _ => .pauses (pauses.pair.storable nofun) fun _ => takes_pure rfl)
    (.seq (.part (takes_constant hg)) fun _ => .pauses (pauses_update (by exact fun _ => id)) fun _ => takes_pure rfl))) (takes_pure rfl)

lemma takes_scalar (file : plain → storage ≠ .static) :
    Spends plain (n + 1) (scalar g name t ctype storage) .idle :=
  .pauses pauses.pair.peek fun _ => .pauses (pauses_scalarSymbol file) fun _ =>
    .seq (takes_initialiser hg) fun _ => .pauses pauses_writeData fun _ => takes_pure rfl

lemma takes_arrayLength : SpendsSolid plain (n + 1) (arrayLength g) .whole :=
  .advance fun _ => .ifAt (.advanceAt rfl rfl fun _ => takes_pure rfl)
    (.seq (.part (.anywhere (takes_constant hg))) fun _ => .ifFails nofun
      (.expect rfl fun _ => takes_pure rfl))

lemma takes_arrayValues : Spends plain (n + 1) (arrayValues g t length) .whole :=
  .expect rfl fun _ => .part (.iterate .whole .whole rfl rfl fun _ => .ifFails (by nofun) (.seq (takes_constant hg) fun _ =>
    .ifAt (.advanceAt rfl rfl fun _ => takes_pure rfl) (.expect rfl fun _ => takes_pure rfl)))

lemma takes_arrayInitialiser : Spends plain (n + 1) (arrayInitialiser g name t storage sym length) .idle :=
  .ifAt (.unlessFails (by nofun) (.advanceAt rfl rfl fun _ => .seq (.part (takes_arrayValues hg)) fun _ =>
    .pauses (pauses_update (by exact fun _ => id)) fun _ => takes_pure rfl)) (takes_pure rfl)

lemma takes_array (file : plain → storage ≠ .static) :
    SpendsSolid plain (n + 1) (array g name t ctype storage) .whole := by
  refine .seq (takes_arrayLength hg) fun _ => .pauses pauses.pair.ofType fun _ =>
    .pauses (pauses_arraySymbol file) fun sym => .seq (.part (takes_arrayInitialiser hg)) fun length => ?_
  refine .ite (.pauses (pauses.pair.symbol _) fun _ => takes_fail_bind nofun) ?_
  exact .pauses pauses.pair.table fun _ => .pauses pauses.pair.ofType fun _ => .pauses (pauses_update (by exact fun _ => id)) fun _ =>
    .pauses pauses_writeData fun _ => takes_pure rfl

/-! ## Functions and declarations -/

lemma takes_parameters {earlier : Option Symbol} : Spends plain n (parameters g earlier) .idle := by
  refine .pauses pauses.pair.table fun st => .seq (.iterate .whole .idle rfl rfl fun count => ?_) fun count => ?_
  · have void : Takes plain n .idle (fun kind => kind = .voidKw)
        (advance >>= fun _ => pure (.inr 0)) (Sum.elim (fun _ : Nat => .whole) fun _ : Nat => .idle) :=
      .advanceAt rfl rfl fun _ => takes_pure rfl
    have param : Spends plain n (g.declaration .param .comma .rparen) .whole :=
      hg.declaration .param .comma .rparen nofun
    refine .ifAt (takes_pure rfl) fun s t fits took _ => ?_
    rw [runs_isAt, runs_peekNext, runs_ite]
    refine ⟨fun both => ?_, fun _ => ?_⟩
    · exact void s t fits took (of_decide_eq_true (Bool.and_eq_true _ _ ▸ both).1)
    · refine param.seq (fun spec => ?_) s t fits took trivial
      exact .ifFails nofun (.ifFails nofun (.ifAt (takes_pure rfl) (.expect rfl fun _ => takes_pure rfl)))
  · cases earlier with
    | none => exact takes_pure rfl
    | some f => exact .ifFails nofun (takes_pure rfl)

omit hg in
lemma plain_functionSymbols (h : st.Plain) {e : Emitter} {locals : List SymId} :
    ({ st with symbols := (e.function st.symbols id locals body).2.1 } : SymbolTable).Plain := by
  have slots (ids : List SymId) : ({ st with symbols := (Lower.localSlots st.symbols ids).2 } : SymbolTable).Plain := by
    intro other
    change ((Lower.localSlots st.symbols ids).2.get other).storage ≠ _
    rw [Lower.localSlots_get]
    exact h other
  unfold Emitter.function
  dsimp only
  split
  · exact h
  · split
    · exact slots _
    · exact slots _

omit hg in
lemma pauses_finishFunction : Pauses plain (finishFunction info id body) := by
  refine .bind (pauses_modify (fun _ => rfl) fun _ => rfl) fun _ => .bind ?_ fun outcome => ?_
  · exact fun s table => ⟨rfl, fun is => plain_functionSymbols (table is)⟩
  · cases outcome with
    | error e => exact pauses.fail nofun
    | ok u => exact pauses_modifyTable fun _ table is => table is

lemma takes_functionBody : Spends plain (n + 1) (functionBody g sym params info name) .whole := by
  refine .pauses (pauses.pair.symbol _) fun _ => .ifFails nofun (.pauses (pauses_modifyTable fun st table is => ?_) fun _ =>
    .pauses (pauses_modify (fun _ => rfl) fun _ => rfl) fun _ => .expect rfl fun _ =>
      .seq (.inner rfl (hg.block _)) fun _ => .expect rfl fun _ => .pauses pauses.pair.checkReturns fun _ =>
        .pausesLast (fun _ => rfl) pauses_finishFunction)
  refine (table is).update fun s other => ?_
  by_cases external : s.storage = .external
  · simp [external]
  · simpa [external] using other

lemma takes_bodyIfAny : Spends plain (n + 1) (bodyIfAny g sym params info name) .idle :=
  .ifAt (takes_pure rfl) (.weaken (fun _ => rfl) (.anywhere (takes_functionBody hg)))

section
variable (file : plain → storage ≠ .static)
include file

lemma takes_function : Spends plain (n + 1) (function g name t ctype storage) .whole := by
  refine .pauses pauses.pair.peek fun _ => .pauses pauses.pair.table fun _ => .pauses (pauses_functionSymbol file) fun _ =>
    .expect rfl fun _ => .seq (.inner rfl (takes_parameters hg)) fun _ => .expect rfl fun _ =>
      .pauses (pauses_withTable fun _ table is => table is) fun _ =>
        .pauses (pauses_modifyTable fun st table is => ?_) fun _ => .seq (.part (takes_bodyIfAny hg)) fun _ =>
          takes_pure rfl
  split
  · exact table is
  · exact (table is).update fun _ other => other

lemma takes_declarator : Spends plain (n + 1) (declarator g t ctype storage) .whole :=
  .expectIdentifier fun _ => .ifAt
    (.unlessFails nofun (.seq (.part (.anywhere (takes_function hg file))) fun _ => takes_pure rfl))
    (.pauses pauses.pair.checkName fun _ => .ifAt
      (.seq (.part (.atSolid rfl rfl (takes_array hg file))) fun _ => takes_pure rfl)
      (.part (.anywhere (takes_scalar hg file))))

lemma takes_nextDeclarator {end1 end2 : TokenKind} (done : List Tree) :
    Takes plain (n + 1) .idle (fun _ => True) (nextDeclarator g spec storage end1 end2 done)
      (Sum.elim (fun _ => .whole) fun _ => .whole) :=
  .seq takes_stars fun _ => .seq (.part (takes_declarator hg file)) fun _ =>
    .pauses (pauses.pair.symbol _) fun _ => .ite (takes_pure rfl) (.pauses pauses.pair.isAt fun _ => .pauses pauses.pair.isAt fun _ =>
      .ite (takes_pure rfl) (.expect rfl fun _ => takes_pure rfl))

lemma takes_declaration (end1 end2 : TokenKind) :
    Spends plain (n + 1) (declaration g storage end1 end2) .whole := by
  refine .seqKnown (fun r _ => plain → r.2 ≠ .static) (takes_typeSpec hg _) ?_ fun r => ?_
  · intro t fits
    refine (storageWords_plain file fits.words).bind fun storage' u other => ?_
    exact .later fun _ _ => ends_pure.mpr other
  · refine .of_known (fun _ known => known) fun file => .ite (takes_pure rfl) ?_
    exact .part (.iterate .whole .whole rfl rfl (takes_nextDeclarator hg file))

end

/-! ## Statements -/

omit hg in
lemma takes_breakStatement : SpendsSolid plain n breakStatement .some :=
  .pauses (pauses.view _) fun _ => .ifFails nofun (.advance fun _ => .expectSemicolon fun _ => takes_pure rfl)

omit hg in
lemma takes_continueStatement : SpendsSolid plain n continueStatement .some :=
  .pauses (pauses.view _) fun _ => .ifFails nofun (.advance fun _ => .expectSemicolon fun _ => takes_pure rfl)

lemma takes_condition : Spends plain (n + 1) (condition g) .whole :=
  .expect rfl fun _ => .seq (.inner rfl (hg.expression 0)) fun _ => .expect rfl fun _ => takes_pure rfl

lemma takes_loopBody : Spends plain n (loopBody g) .some :=
  .pauses (pauses_modify (fun _ => rfl) fun _ => rfl) fun _ => .seq hg.statement fun _ =>
    .pauses (pauses_modify (fun _ => rfl) fun _ => rfl) fun _ => takes_pure rfl

lemma takes_elsePart : Spends plain (n + 1) (elsePart g) .any :=
  .ifAt (.advanceAt rfl rfl fun _ => .weaken (fun _ => rfl) (.inner rfl hg.statement)) (takes_pure rfl)

lemma takes_ifStatement : SpendsSolid plain (n + 1) (ifStatement g) .some :=
  .advance fun _ => .seq (.part (takes_condition hg)) fun _ => .seq (.inner rfl hg.statement) fun _ =>
    .seq (.part (takes_elsePart hg)) fun _ => takes_pure rfl

lemma takes_whileStatement : SpendsSolid plain (n + 1) (whileStatement g) .some :=
  .advance fun _ => .seq (.part (takes_condition hg)) fun _ =>
    .seq (.inner rfl (takes_loopBody hg)) fun _ => takes_pure rfl

lemma takes_forStatement : SpendsSolid plain (n + 1) (forStatement g) .some :=
  .advance fun _ => .expect rfl fun _ => .seq (.inner rfl (takes_expressionList hg)) fun _ =>
    .expectSemicolon fun _ => .seq (.inner rfl (hg.expression 0)) fun _ => .expectSemicolon fun _ =>
      .seq (.inner rfl (takes_expressionList hg)) fun _ => .expect rfl fun _ =>
        .seq (.inner rfl (takes_loopBody hg)) fun _ => takes_pure rfl

lemma takes_returned {line : Int64} : Spends plain n (returned g spec line) .idle :=
  .ifAt (takes_pure rfl) (.ifFails nofun (.seq (.anywhere (hg.expression 0)) fun _ =>
    .pauses (pauses.pair.storable nofun) fun _ => takes_pure rfl))

lemma takes_returnStatement : SpendsSolid plain (n + 1) (returnStatement g) .some :=
  .advance fun _ => .pauses pauses.pair.returnType fun _ => .seq (.inner rfl (takes_returned hg)) fun _ =>
    .expectSemicolon fun _ => takes_pure rfl

lemma takes_armValue : Spends plain n (armValue g seen) .whole := by
  refine .seq (hg.expression 0) fun t => ?_
  split
  · exact .ifFails nofun (takes_pure rfl)
  · exact takes_fail nofun

lemma takes_armLabel {kind : TokenKind} : Spends plain n (armLabel g seen kind) .idle := by
  unfold armLabel
  refine .ite (takes_pure rfl) ?_
  rw [map_eq_pure_bind]
  exact .seq (takes_armValue hg) fun _ => takes_pure rfl

lemma takes_armBody : Spends plain n (armBody g) .any :=
  .ifAt (takes_pure rfl) (.anywhere (hg.block true))

lemma takes_nextArm (seen : List (ArmHead × Tree)) :
    Takes plain (n + 1) .idle (fun _ => True) (nextArm g seen)
      (Sum.elim (fun _ => .some) fun _ => .any) := by
  refine .ifAt (takes_pure rfl) (.peek fun t => ?_)
  dsimp only
  split
  · rename_i arm
    have solid : t.kind.isSolid = true := by
      rcases (Bool.or_eq_true _ _).mp arm with word | word
      · rw [of_decide_eq_true word]
        rfl
      · rw [of_decide_eq_true word]
        rfl
    exact .ifFails nofun (.advanceAt rfl solid fun _ => .seq (.inner rfl (takes_armLabel hg)) fun _ =>
      .expect rfl fun _ => .seq (.inner rfl (takes_armBody hg)) fun _ => takes_pure rfl)
  · exact takes_fail_bind nofun

omit hg in
lemma arms_front : Ends (iterate (nextArm g) []) s fun _ t => t.front.kind = .rbrace := by
  refine Ends.iterate (fun _ _ => True) trivial fun seen t _ => ?_
  rw [nextArm, ends_isAt, ends_ite]
  refine ⟨fun is => ends_pure.mpr (show t.front.kind = .rbrace from of_decide_eq_true is), fun _ => ?_⟩
  simp only [ends_peek, ends_ite, ends_fail_bind, ends_advance, implies_true, true_and, and_true]
  exact fun _ _ => .later fun _ _ => .later fun _ _ => .later fun _ _ => ends_pure.mpr trivial

lemma takes_switchStatement : SpendsSolid plain (n + 1) (switchStatement g) .some :=
  .advance fun _ => .expect rfl fun _ => .seq (.inner rfl (hg.expression 0)) fun _ =>
    .expect rfl fun _ => .expect rfl fun _ => .unlessFails nofun
      (.pauses (pauses_modify (fun _ => rfl) fun _ => rfl) fun _ =>
        .seqKnown (fun _ kind => kind = .rbrace) (.part (.iterate .some .any rfl rfl (takes_nextArm hg)))
          (fun _ _ => arms_front) fun _ => .ifFails nofun (.advanceAt rfl rfl fun _ =>
            .pauses (pauses_modify (fun _ => rfl) fun _ => rfl) fun _ => takes_pure rfl))

lemma takes_localDeclaration : Spends plain (n + 1) (localDeclaration g) .some :=
  .seq (takes_declaration hg (fun _ => by decide) _ _) fun _ => .expectSemicolon fun _ => takes_pure rfl

lemma takes_statement : Spends plain (n + 1) (statement g) .some := by
  refine .peek fun t => ?_
  split
  · exact .advanceSome (fun _ => takes_pure rfl) (by rintro _ rfl; simp only [*]; nofun)
  · exact .advanceAt ‹_› rfl fun _ => .seq (.inner rfl (hg.block _)) fun _ =>
      .expect rfl fun _ => takes_pure rfl
  · exact .atSolid ‹_› rfl (takes_ifStatement hg)
  · exact .atSolid ‹_› rfl (takes_whileStatement hg)
  · exact .atSolid ‹_› rfl (takes_forStatement hg)
  · exact .atSolid ‹_› rfl (takes_returnStatement hg)
  · exact .atSolid ‹_› rfl takes_breakStatement
  · exact .atSolid ‹_› rfl takes_continueStatement
  · exact .atSolid ‹_› rfl (takes_switchStatement hg)
  · exact .pauses pauses.pair.isTypeName fun _ => .ite
      (.seq (.anywhere (takes_localDeclaration hg)) fun _ => takes_pure rfl)
      (.seq (.anywhere (takes_expression hg 0)) fun _ => .expectSemicolon fun _ => takes_pure rfl)

lemma takes_nextStatement {inSwitch : Bool} (done : List Tree) :
    Takes plain (n + 1) .idle (fun _ => True) (nextStatement g inSwitch done)
      (Sum.elim (fun _ => .some) fun _ => .any) :=
  .pauses pauses.pair.peek fun _ => .ite (takes_pure rfl) (.ifFails nofun (.pauses pauses.pair.isTypeName fun _ => .ite
    (.seq (takes_localDeclaration hg) fun _ => takes_pure rfl) (.seq (takes_statement hg) fun _ => takes_pure rfl)))

lemma takes_block (inSwitch : Bool) : Spends plain (n + 1) (block g inSwitch) .any :=
  .pauses pauses.pair.peek fun _ => .seq (.iterate .some .any rfl rfl (takes_nextStatement hg)) fun _ => takes_pure rfl

lemma takes_nextDeclaration (u : Unit) :
    Takes plain (n + 1) .idle (fun _ => True) (nextDeclaration g u)
      (Sum.elim (fun _ => .some) fun _ => .any) :=
  .ifAt (takes_pure rfl) (.seq (.anywhere (takes_declaration hg (fun _ => by decide) _ _)) fun _ =>
    .skip nofun (takes_pure rfl))

end

end Parse

/-! ## Files -/

open Parse

variable {plain : Prop}

lemma Grammar.Takes.deeper {n : Nat} {g : Grammar} (hg : g.Takes plain n) : g.deeper.Takes plain (n + 1) where
  expression := takes_expression hg
  unaryExpression := takes_unaryExpression hg
  typeSpec := takes_typeSpec hg
  declaration _ _ _ file := takes_declaration hg (fun _ => file) _ _
  statement := takes_statement hg
  block := takes_block hg
  resolve := hg.resolve

/-- A grammar is deep enough for fewer tokens than it is deep. -/
theorem grammar_takes (depth : Nat) : (grammar depth).Takes plain depth := by
  induction depth with
  | zero =>
    have none {α : Type} (x : Parse α) (e : α → Extent) : Parse.Takes plain 0 .idle (fun _ => True) x e :=
      fun _ _ fits _ _ => absurd fits.depth (Nat.not_lt_zero _)
    exact ⟨fun _ => none _ _, none _ _, fun _ => none _ _, fun _ _ _ _ => none _ _, none _ _, fun _ => none _ _,
      pauses.pair.resolve⟩
  | succ depth ih => exact ih.deeper

variable (plain) in
lemma Session.start_fits (s : Session) (ts : List Token) (words : plain → ∀ t ∈ ts, t.kind ≠ .staticKw)
    (table : plain → s.table.Plain) : (s.start ts).Fits plain ((s.start ts).bound + 1) where
  depth := Nat.lt_add_of_pos_right (Nat.succ_pos 1)
  bound := Nat.lt_succ_self ts.length
  words := words
  table := table

variable (plain) in
/-- A file is read to its end or up to something wrong in it: no bound is ever reached. -/
theorem Session.runs_file (s : Session) (ts : List Token) (words : plain → ∀ t ∈ ts, t.kind ≠ .staticKw)
    (table : plain → s.table.Plain) :
    Runs Parse.file (s.start ts) (fun _ u => (s.start ts).Took plain .any u)
      fun fault u => fault ≠ .exhausted ∧ (s.start ts).Onward u := by
  have rounds : Parse.Takes plain ((s.start ts).bound + 1) .idle (fun _ => True)
      (Parse.declarations (grammar (s.start ts).bound)) fun _ => .any :=
    .iterate .some .any rfl rfl (takes_nextDeclaration (grammar_takes _))
  rw [Parse.file, fileBy, runs_get]
  exact rounds _ _ (s.start_fits plain ts words table) (.refl table) trivial

end SmallC
