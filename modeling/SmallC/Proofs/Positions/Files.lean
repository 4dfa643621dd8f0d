import SmallC.Proofs.Positions.Reading

/-!
# Files without places

Types, declarations and statements of tokens without places, and from them whole files. A body of a
function begins with no loops and switches around it, whatever was before, so the levels need to agree
inside of bodies only.
-/

namespace SmallC

variable {rule' rule : Text → Parse Referent}

namespace Parse

variable {c : Comparison} {α β : Type} {g g' : Grammar} {sym : SymId}

/-! ## Types -/

section
variable (hg : g.Mirrored c g')
include hg

lemma mirrored_compositeBody (isUnion : Bool) (name : Text) :
    Mirrored c id (compositeBody g isUnion name) (compositeBody g' isUnion name) :=
  mirrored_withTable.bind fun _ => mirrored_advance.bind fun _ => mirrored_withTable.bind fun _ =>
    (mirrored.memberList _ _ (hg.declaration _ _ _)).bind fun _ => mirrored.expect.bind fun _ =>
      mirrored_withTable.bind fun _ => mirrored_modifyTable.bind fun _ => mirrored.ifFails nofun
        (mirrored_withTable.bind fun _ => mirrored.ofType.bind fun _ => mirrored_pure rfl)

lemma mirrored_typeSpec {storage : StorageClass} : Mirrored c id (typeSpec g storage) (typeSpec g' storage) :=
  mirrored.storageWords.bind fun _ => (mirrored.plainType _ _
    (mirrored.compositeType g g' (mirrored_compositeBody hg)) (mirrored.enumType fun _ _ _ _ => mirrored_withTable)
    (mirrored.typedefType g g' hg.typeSpec fun _ _ _ => mirrored_withTable)).bind fun _ => mirrored_pure rfl

end

variable (name : Text) (t : CType) (storage : StorageClass) (ctype : Option SymId)

/-! ## Variables and arrays -/

lemma mirrored_redeclared {name : Text} {t : CType} {ctype : Option SymId} :
    Mirrored c id (redeclared storage name t ctype) (redeclared storage name t ctype) := by
  refine mirrored_table.bind fun st => ?_
  dsimp only [id]
  split
  · exact mirrored.ite (mirrored.ifFails nofun (mirrored.ifFails nofun (mirrored_modifyTable.bind fun _ => mirrored_pure rfl)))
      mirrored_fail
  · exact mirrored_pure rfl

lemma mirrored_fileScopeSymbol {name : Text} {t : CType} {ctype : Option SymId} {kind : Kind}
    {count : Int64} : Mirrored c id (fileScopeSymbol storage name t ctype kind count)
      (fileScopeSymbol storage name t ctype kind count) := by
  refine (mirrored_redeclared _).bind fun r => ?_
  cases r with
  | some sym => exact mirrored_pure rfl
  | none => exact mirrored_withTable

lemma mirrored_writeData : Mirrored c id (writeData storage sym) (writeData storage sym) :=
  mirrored.ite (mirrored_table.bind fun _ => mirrored_emit) (mirrored_pure rfl)

lemma mirrored_scalarSymbol {storage : StorageClass} :
    Mirrored c id (scalarSymbol name t ctype storage) (scalarSymbol name t ctype storage) := by
  unfold scalarSymbol
  split
  · exact mirrored_fileScopeSymbol _
  · exact mirrored_fileScopeSymbol _
  · exact mirrored_fileScopeSymbol _
  · exact mirrored_withTable.bind fun _ => mirrored_modifyTable.bind fun _ => mirrored_pure rfl
  · exact mirrored_withTable
  · exact mirrored_withTable

lemma mirrored_arraySymbol {storage : StorageClass} :
    Mirrored c id (arraySymbol name t ctype storage) (arraySymbol name t ctype storage) := by
  unfold arraySymbol
  split
  · exact mirrored_fileScopeSymbol _
  · exact mirrored_fileScopeSymbol _
  · exact mirrored_fileScopeSymbol _
  · exact mirrored_withTable.bind fun _ => mirrored_modifyTable.bind fun _ => mirrored_pure rfl
  · exact mirrored_fail

section
variable (hg : g.Mirrored c g')
include hg

variable (name : Text) (t : CType) (ctype : Option SymId) (storage : StorageClass)

lemma mirrored_scalar :
    Mirrored c (Prod.map id (Option.map Tree.unplaced)) (scalar g name t ctype storage)
      (scalar g' name t ctype storage) :=
  mirrored_peek.bind fun _ => (mirrored_scalarSymbol _ _ _).bind fun _ =>
    (mirrored.initialiser hg.toPaired).bind fun _ => (mirrored_writeData _).bind fun _ => mirrored_pure rfl

lemma mirrored_array : Mirrored c id (array g name t ctype storage) (array g' name t ctype storage) := by
  refine (mirrored.arrayLength hg.toPaired).bind fun _ => mirrored.ofType.bind fun _ =>
    (mirrored_arraySymbol _ _ _).bind fun sym => (mirrored.arrayInitialiser hg.toPaired).bind fun length => ?_
  have sizing (count : Int64) : Mirrored c id (do
        let size ← ofType ((← table).symbols.sizeOf t ctype)
        modifyTable fun st => st.update sym fun s => { s with count, size := count * size }
        writeData storage sym
        return sym)
      (do
        let size ← ofType ((← table).symbols.sizeOf t ctype)
        modifyTable fun st => st.update sym fun s => { s with count, size := count * size }
        writeData storage sym
        return sym) :=
    mirrored_table.bind fun _ => mirrored.ofType.bind fun _ => mirrored_modifyTable.bind fun _ =>
      (mirrored_writeData _).bind fun _ => mirrored_pure rfl
  exact mirrored.ite ((mirrored_symbol _).bind fun _ => Mirrored.bind (f := id) mirrored_fail fun _ => sizing _)
    (sizing _)

end

/-! ## Functions -/

section
variable (earlier : Option SymId) (name : Text) (t : CType) (ctype : Option SymId)
  (storage : StorageClass)

lemma mirrored_newFunction :
    Mirrored c id (newFunction name t ctype storage) (newFunction name t ctype storage) :=
  mirrored_withTable.bind fun _ => mirrored_emit.bind fun _ => mirrored_modifyTable.bind fun _ =>
    mirrored_pure rfl

lemma mirrored_functionSymbol : Mirrored c id (functionSymbol earlier name t ctype storage)
      (functionSymbol earlier name t ctype storage) := by
  cases earlier with
  | some sym => exact (mirrored_symbol _).bind fun _ => mirrored.ifFails nofun (mirrored_pure rfl)
  | none => exact mirrored_newFunction _ _ _ _

end

lemma function_unplaced (ss : Symbols) (sym : SymId) (locals : List SymId) (body : Tree) (e : Emitter) :
    e.function ss sym locals body.unplaced = e.function ss sym locals body := by
  simp only [Emitter.function, Lower.functionBody, Tree.lower_unplaced]

lemma mirrored_finishFunction {info : Info} {body : Tree} :
    Mirrored c id (finishFunction info sym body) (finishFunction info.unplaced sym body.unplaced) := by
  refine .bind (mirrored_modify (fun _ => rfl) fun s s' mirrors => ?_) fun _ =>
    .bind (mirrored_modifyGet (fun _ => rfl) fun s s' mirrors => ?_) fun outcome => ?_
  · refine { mirrors with functions := ?_ }
    dsimp only
    rw [mirrors.functions, mirrors.table, Array.map_push, ← Array.append_push]
    rfl
  · have same : s'.out.function s'.table.symbols sym s'.table.locals body.unplaced.fold =
        s.out.function s.table.symbols sym s.table.locals body.fold := by
      rw [mirrors.out, mirrors.table, Tree.fold_unplaced, function_unplaced]
    dsimp only
    rw [same, mirrors.table]
    exact ⟨rfl, { mirrors with table := rfl, out := rfl }⟩
  · cases outcome with
    | error e => exact mirrored_fail
    | ok u => exact mirrored_modifyTable

lemma mirrored_enter {f : α → β} {x : PUnit → Parse α} {y : PUnit → Parse β}
    (h : Mirrored c.inBody f (x ⟨⟩) (y ⟨⟩)) :
    Mirrored c f (modify (fun s => { s with loops := 0, switches := 0 }) >>= x)
      (modify (fun s => { s with loops := 0, switches := 0 }) >>= y) where
  shrinks s := h.shrinks { s with loops := 0, switches := 0 }
  mirrors := by
    intro s s' mirrors
    have inside := h.mirrors { s with loops := 0, switches := 0 } { s' with loops := 0, switches := 0 }
      ⟨mirrors.rest, mirrors.bound, mirrors.table, mirrors.out, mirrors.functions, fun _ => ⟨rfl, rfl⟩⟩
    rw [show ∀ s (x : PUnit → Parse α), (modify (fun s => { s with loops := 0, switches := 0 }) >>= x) s =
      x ⟨⟩ { s with loops := 0, switches := 0 } from fun _ _ => rfl]
    cases run : x ⟨⟩ { s with loops := 0, switches := 0 } with
    | ok a t =>
      rw [run] at inside
      intro shares
      obtain ⟨t', run', mirrors'⟩ := inside shares
      exact ⟨t', run', mirrors'.ofBody⟩
    | error d t =>
      rw [run] at inside
      exact inside

section
variable (hg : g.Mirrored c g')
include hg

variable (sym : SymId) (params : List SymId) (t : CType) (info : Info) (name : Text) (ctype : Option SymId)
variable (storage : StorageClass)

lemma mirrored_functionBody :
    Mirrored c id (functionBody g sym params info name) (functionBody g' sym params info.unplaced name) :=
  (mirrored_symbol _).bind fun _ => mirrored.ifFails nofun (mirrored_modifyTable.bind fun _ => mirrored_enter
    (mirrored.expect.bind fun _ => (hg.block _).bind fun _ => mirrored.expect.bind fun _ =>
      mirrored.checkReturns.bind fun _ => mirrored_finishFunction))

lemma mirrored_bodyIfAny :
    Mirrored c id (bodyIfAny g sym params info name) (bodyIfAny g' sym params info.unplaced name) :=
  mirrored.isAt.bind fun _ => mirrored.ite (mirrored_pure rfl) (mirrored_functionBody hg _ _ _ _)

lemma mirrored_function {t : CType} {ctype : Option SymId} {storage : StorageClass} :
    Mirrored c id (function g name t ctype storage) (function g' name t ctype storage) :=
  mirrored_peek.bind fun _ => mirrored_table.bind fun _ => (mirrored_functionSymbol _ _ _ _ _).bind fun _ =>
    mirrored.expect.bind fun _ => (mirrored.parameters _ _ (hg.declaration _ _ _) _).bind fun _ =>
      mirrored.expect.bind fun _ => mirrored_withTable.bind fun _ =>
        mirrored_modifyTable.bind fun _ => (mirrored_bodyIfAny hg _ _ _ _).bind fun _ => mirrored_pure rfl

/-! ## Declarations -/

lemma mirrored_declarator :
    Mirrored c (Prod.map id (Option.map Tree.unplaced)) (declarator g t ctype storage)
      (declarator g' t ctype storage) :=
  mirrored.expectIdentifier.bind fun _ => mirrored.isAt.bind fun _ => mirrored.ite
    (mirrored.unlessFails nofun ((mirrored_function hg _).bind fun _ => mirrored_pure rfl))
    (mirrored.checkName.bind fun _ => mirrored.isAt.bind fun _ => mirrored.ite
      ((mirrored_array hg _ _ _ _).bind fun _ => mirrored_pure rfl) (mirrored_scalar hg _ _ _ _))

lemma mirrored_declaration (end1 end2 : TokenKind) :
    Mirrored c (Prod.map id (List.map Tree.unplaced)) (declaration g storage end1 end2)
      (declaration g' storage end1 end2) :=
  (mirrored_typeSpec hg).bind fun _ => mirrored.ite (mirrored_pure rfl)
    (.iterate (List.map Tree.unplaced) _ rfl (mirrored.nextDeclarator _ _ (fun _ => mirrored_declarator hg _ _ _) _ _))

end

lemma mirrored_localDeclaration (hg : g.Mirrored c.inBody g') :
    Mirrored c.inBody (List.map Tree.unplaced) (localDeclaration g) (localDeclaration g') :=
  (mirrored_declaration hg _ _ _).bind fun _ => mirrored.expect.bind fun _ => mirrored_pure rfl

end Parse

/-! ## Files -/

open Parse

variable {c : Comparison}
variable {g g' : Grammar} {depth depth' : Nat}

lemma Grammar.Mirrored.deeper (hg : ∀ levels, g.Mirrored { c with levels } g') (levels : Prop) :
    g.deeper.Mirrored { c with levels } g'.deeper where
  expression _ := mirrored.expression (hg levels).toPaired
  unaryExpression := mirrored.unaryExpression (hg levels).toPaired
  typeSpec _ := mirrored_typeSpec (hg levels)
  declaration storage end1 end2 := mirrored_declaration (hg levels) storage end1 end2
  statement := (mirroredBody (c := c)).statement (hg True).toPaired (hg True).statement
    (hg True).block (mirrored_localDeclaration (hg True))
  block inSwitch := (mirroredBody (c := c)).block (hg True).toPaired (hg True).statement
    (hg True).block (mirrored_localDeclaration (hg True)) inSwitch
  resolve := (hg levels).resolve

lemma mirrored_exhausted {α β : Type} {f : α → β} {y : Parse β} (wider : c.wider) :
    Parse.Mirrored c f (fail .exhausted) y where
  shrinks _ := ends_fail.mpr trivial
  mirrors _ _ _ := .inl (.inl ⟨wider, rfl⟩)

lemma grammarBy_mirrored (h : depth' = depth ∨ c.wider ∧ depth ≤ depth')
    (hr : ∀ levels name, Parse.Mirrored { c with levels } id (rule name) (rule' name)) (levels : Prop) :
    (grammarBy rule depth).Mirrored { c with levels } (grammarBy rule' depth') := by
  induction depth generalizing depth' levels with
  | zero =>
    have resolve : ∀ name, Parse.Mirrored { c with levels } id (rule name) ((grammarBy rule' depth').resolve name) :=
      (grammarBy_resolve rule' depth').symm ▸ hr levels
    rcases h with rfl | ⟨wider, -⟩
    · exact ⟨⟨fun _ => mirrored_fail, mirrored_fail, fun _ => mirrored_fail, resolve⟩,
        fun _ _ _ => mirrored_fail, mirrored_fail, fun _ => mirrored_fail⟩
    · exact ⟨⟨fun _ => mirrored_exhausted wider, mirrored_exhausted wider, fun _ => mirrored_exhausted wider, resolve⟩,
        fun _ _ _ => mirrored_exhausted wider, mirrored_exhausted wider, fun _ => mirrored_exhausted wider⟩
  | succ depth ih =>
    obtain ⟨depth', rfl⟩ : ∃ n, depth' = n + 1 := Nat.exists_eq_succ_of_ne_zero (by omega)
    exact .deeper (fun levels => ih (h.imp Nat.succ.inj (And.imp id Nat.le_of_succ_le_succ)) levels) levels

lemma grammar_mirrored (h : depth' = depth ∨ c.wider ∧ depth ≤ depth') :
    (grammar depth).Mirrored c (grammar depth') :=
  grammarBy_mirrored h (fun _ => mirrored.resolve) c.levels

lemma mirrored_nextDeclaration (hg : g.Mirrored c g') (u : Unit) :
    Parse.Mirrored c (Sum.map id id) (nextDeclaration g u) (nextDeclaration g' u) :=
  mirrored.isAt.bind fun _ => mirrored.ite (mirrored_pure rfl)
    ((mirrored_declaration hg _ _ _).bind fun _ => (mirrored.skip _).bind fun _ => mirrored_pure rfl)

lemma mirrored_fileBy (hr : ∀ levels name, Parse.Mirrored { c with levels } id (rule name) (rule' name)) :
    Parse.Mirrored c id (fileBy rule) (fileBy rule') := by
  have read {depth depth' : Nat} (h : depth' = depth ∨ c.wider ∧ depth ≤ depth') :
      Parse.Mirrored c id (declarations (grammarBy rule depth)) (declarations (grammarBy rule' depth')) :=
    .iterate id id rfl (mirrored_nextDeclaration (grammarBy_mirrored h hr c.levels))
  exact mirrored_get (fun s => (read (.inl rfl)).shrinks) fun s s' mirrors => read mirrors.bound

lemma mirrored_file : Parse.Mirrored c id Parse.file Parse.file := mirrored_fileBy fun _ => mirrored.resolve

/-! ## Positions -/

def Token.Alike (t u : Token) : Prop := t.kind = u.kind ∧ t.lexeme = u.lexeme ∧ t.value = u.value

lemma map_unplaced_eq {ts us : List Token} (h : List.Forall₂ Token.Alike ts us) :
    ts.map Token.unplaced = us.map Token.unplaced := by
  induction h with
  | nil => rfl
  | cons alike _ ih =>
    obtain ⟨kind, lexeme, value⟩ := alike
    rw [List.map_cons, List.map_cons, ih, Token.unplaced, Token.unplaced, kind, lexeme, value]

namespace Session

def treesOf (s : ParseState) : Text :=
  Tree.listFunctions s.table.symbols 1 (s.functions.toList.map (·.tree))

lemma tree_unplaced (d : Definition) : d.unplaced.tree = d.tree.unplaced := by
  simp only [Definition.tree, Definition.body, Definition.unplaced, Tree.fold_unplaced, Tree.unplaced]

lemma treesOf_mirrors {s s' : ParseState} (h : Comparison.Mirrors {} s s') : treesOf s' = treesOf s := by
  have trees : s'.functions.toList.map (·.tree) = (s.functions.toList.map (·.tree)).map Tree.unplaced := by
    simp [h.functions, tree_unplaced]
  rw [treesOf, trees, h.table, Tree.listFunctions_unplaced, treesOf]

lemma start_mirrors (s s' : Session) (table : s'.table = s.table) (out : s'.out = s.out)
    (ts : List Token) : Comparison.Mirrors {} (s.start ts) (s'.start (ts.map Token.unplaced)) where
  rest := rfl
  bound := .inl (congrArg (· + 1) (List.length_map _))
  table := table
  out := out
  functions := by simp [start]
  levels _ := ⟨rfl, rfl⟩

/-- The places of tokens matter for nothing but the places of diagnostics. Tokens that differ at most in
their places are read alike: both times without a diagnostic, and then the code, the listing of trees and
the tables are the same, or both times up to the same fault, which is message and detail. -/
theorem file_alike (file file' : Text) {ts us : List Token} (alike : List.Forall₂ Token.Alike ts us) :
    match Parse.file (start { file } ts), Parse.file (start { file := file' } us) with
    | .ok _ s, .ok _ s' => s.out = s'.out ∧ treesOf s = treesOf s' ∧ s.table = s'.table
    | .error d _, .error d' _ => d.fault = d'.fault
    | _, _ => False := by
  -- Both readings are set beside the one of the tokens without places.
  have first := mirrored_file.mirrors _ _ (start_mirrors { file } { file } rfl rfl ts)
  have second := mirrored_file.mirrors _ _ (start_mirrors { file := file' } { file } rfl rfl us)
  rw [map_unplaced_eq alike] at first
  cases run : Parse.file (start { file } ts) with
  | ok a s =>
    rw [run] at first
    obtain ⟨t, common, mirrors⟩ := first (.inl rfl)
    cases run' : Parse.file (start { file := file' } us) with
    | ok a' s' =>
      rw [run', common] at second
      obtain ⟨t', same, mirrors'⟩ := second (.inl rfl)
      cases same
      exact ⟨mirrors.out.symm.trans mirrors'.out,
        (treesOf_mirrors mirrors).symm.trans (treesOf_mirrors mirrors'),
        mirrors.table.symm.trans mirrors'.table⟩
    | error d' s' =>
      rw [run', common] at second
      obtain excused | ⟨d, t', fails, -⟩ := second
      · exact absurd excused Comparison.not_excuses
      · cases fails
  | error d s =>
    rw [run] at first
    obtain excused | ⟨e, t, common, fault⟩ := first
    · exact absurd excused Comparison.not_excuses
    · cases run' : Parse.file (start { file := file' } us) with
      | ok a' s' =>
        rw [run', common] at second
        obtain ⟨t', succeeds, -⟩ := second (.inl rfl)
        cases succeeds
      | error d' s' =>
        rw [run', common] at second
        obtain excused | ⟨e', t', same, fault'⟩ := second
        · exact absurd excused Comparison.not_excuses
        · cases same
          exact fault.symm.trans fault'

def declaredTokens : List Token :=
  [{ kind := .intKw }, { kind := .identifier, lexeme := "x" }, { kind := .semicolon }, { kind := .eof }]

/-- `int x;` over lines of two files. -/
def spreadTokens : List Token :=
  [{ kind := .intKw, line := 1 }, { kind := .identifier, lexeme := "x", line := 7, file := "x.h" },
    { kind := .semicolon, line := 2 }, { kind := .eof, line := 3 }]

theorem file_alike_spread :
    List.Forall₂ Token.Alike declaredTokens spreadTokens ∧
      match Parse.file (start { file := "a.c" } declaredTokens),
        Parse.file (start { file := "b.c" } spreadTokens) with
      | .ok _ s, .ok _ s' => s.out = s'.out ∧ treesOf s = treesOf s' ∧ s.table = s'.table
      | .error d _, .error d' _ => d.fault = d'.fault
      | _, _ => False := by
  have alike : List.Forall₂ Token.Alike declaredTokens spreadTokens :=
    .cons ⟨rfl, rfl, rfl⟩ (.cons ⟨rfl, rfl, rfl⟩ (.cons ⟨rfl, rfl, rfl⟩ (.cons ⟨rfl, rfl, rfl⟩ .nil)))
  exact ⟨alike, file_alike _ _ alike⟩

end Session
end SmallC
