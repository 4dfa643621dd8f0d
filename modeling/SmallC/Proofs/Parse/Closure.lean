import SmallC.Proofs.Parse.Outcomes
import SmallC.Proofs.Positions.Tree

/-!
# What all readers have in common

A property of readers may hold of a reader as soon as it holds of all readers that it is put together from. Then
every part of the grammar has it that the parts used inside of it have it for. So may a likeness of two
readers, where the second one has all that the first one has but the places of tokens.
-/

namespace SmallC

def Token.unplaced (t : Token) : Token := { t with line := 0, file := [] }

namespace Parse

/-- The property holds of what looks at the state and of what is put together. -/
structure Closed (P : ∀ {α : Type}, Parse α → Prop) : Prop where
  view {α : Type} (f : ParseState → α) : P fun s => .ok (f s) s
  fail {α : Type} {fault : Fault} (other : fault ≠ .exhausted) : P (fail fault : Parse α)
  bind {α β : Type} {x : Parse β} {f : β → Parse α} : P x → (∀ b, P (f b)) → P (x >>= f)
  /-- Symbols are marked and get values. -/
  update (id : SymId) {f : Symbol → Symbol}
    (same : ∀ s, f s = { s with hasAddr := (f s).hasAddr, init := (f s).init }) :
    P (modifyTable fun st => st.update id f)

/-- The property holds of what takes tokens, too. -/
structure ClosedReading (P : ∀ {α : Type}, Parse α → Prop) : Prop extends Closed P where
  advance : P advance
  iterate {α β : Type} {step : β → Parse (β ⊕ α)} {b : β} : (∀ b, P (step b)) → P (iterate step b)
  string (first : Token) : P (stringOperand first)
  /-- Loops and switches are counted. -/
  count {f : ParseState → ParseState}
    (same : ∀ s, f s = { s with loops := (f s).loops, switches := (f s).switches }) :
    P (modify f : Parse PUnit)

/-- The likeness holds of what looks at the state and of what is put together. A function tells what the
second reader gives from what the first one does. -/
structure Paired (R : ∀ {α β : Type}, (α → β) → Parse α → Parse β → Prop) : Prop where
  pure {α β : Type} {f : α → β} {a : α} {b : β} (same : b = f a) : R f (pure a) (pure b)
  fail {α β : Type} {f : α → β} {fault : Fault} (other : fault ≠ .exhausted) :
    R f (fail fault : Parse α) (fail fault : Parse β)
  bind {α β α' β' : Type} {f : α → β} {f' : α' → β'} {x : Parse α} {y : Parse β} {k : α → Parse α'}
    {k' : β → Parse β'} : R f x y → (∀ a, R f' (k a) (k' (f a))) → R f' (x >>= k) (y >>= k')
  peek : R Token.unplaced peek peek
  table : R id table table
  symbol (sym : SymId) : R id (symbol sym) (symbol sym)
  update (sym : SymId) {f : Symbol → Symbol}
    (same : ∀ s, f s = { s with hasAddr := (f s).hasAddr, init := (f s).init })
    (keeps : ∀ s, s.hasAddr = true → (f s).hasAddr = true) :
    R id (modifyTable fun st => st.update sym f) (modifyTable fun st => st.update sym f)

/-- The likeness holds of what takes tokens, too. -/
structure PairedReading (R : ∀ {α β : Type}, (α → β) → Parse α → Parse β → Prop) : Prop
    extends Paired R where
  advance : R Token.unplaced advance advance
  iterate {α β α' β' : Type} (f : α → α') (f' : β → β') {step : α → Parse (α ⊕ β)}
    {step' : α' → Parse (α' ⊕ β')} {a : α} {a' : α'} (start : a' = f a)
    (hstep : ∀ a, R (Sum.map f f') (step a) (step' (f a))) : R f' (iterate step a) (iterate step' a')
  string (first : Token) : R Tree.unplaced (stringOperand first) (stringOperand first.unplaced)
  /-- The one place where a second token is looked at. -/
  onlyVoid {α β : Type} {f : α → β} (k : Bool → Parse α) (k' : Bool → Parse β)
    (hk : ∀ b, R f (k b) (k' b)) :
    R f (do k ((← isAt .voidKw) && (← peekNext).kind = .rparen))
      (do k' ((← isAt .voidKw) && (← peekNext).kind = .rparen))

/-- The likeness holds of what counts loops and switches, too. -/
structure PairedBody (R : ∀ {α β : Type}, (α → β) → Parse α → Parse β → Prop) : Prop
    extends PairedReading R where
  levels {α β : Type} {f : α → β} {k : ParseState → Parse α} {k' : ParseState → Parse β}
    (same : ∀ s s', s'.loops = s.loops → s'.switches = s.switches → k' s' = k' s)
    (hk : ∀ s, R f (k s) (k' s)) :
    R f ((get : Parse ParseState) >>= k) ((get : Parse ParseState) >>= k')
  loops (count : Int → Int) : R id (modify fun s => { s with loops := count s.loops } : Parse PUnit)
      (modify fun s => { s with loops := count s.loops } : Parse PUnit)
  switches (count : Int → Int) :
    R id (modify fun s => { s with switches := count s.switches } : Parse PUnit)
      (modify fun s => { s with switches := count s.switches } : Parse PUnit)

end Parse

open Parse

/-- The parts of two grammars that expressions are read with are alike. -/
structure Grammar.Paired (R : ∀ {α β : Type}, (α → β) → Parse α → Parse β → Prop) (g g' : Grammar) :
    Prop where
  expression : ∀ power, R Tree.unplaced (g.expression power) (g'.expression power)
  unaryExpression : R Tree.unplaced g.unaryExpression g'.unaryExpression
  typeSpec : ∀ storage, R id (g.typeSpec storage) (g'.typeSpec storage)
  resolve : ∀ name, R id (g.resolve name) (g'.resolve name)

/-- The parts of a grammar that expressions are read with have the property. -/
abbrev Grammar.Has (P : ∀ {α : Type}, Parse α → Prop) (g : Grammar) : Prop := g.Paired (fun _ x _ => P x) g

namespace Parse

variable {P : ∀ {α : Type}, Parse α → Prop} {R : ∀ {α β : Type}, (α → β) → Parse α → Parse β → Prop}
  {α β : Type} {f : α → β} {g g' : Grammar} {fault : Fault} {line : Int64} {storage : StorageClass} {t : CType}
  {kind : TokenKind} {operand left : Tree} {spec : TypeSpec} {viaPointer : Bool}
variable {k : Unit → Parse α}

/-! ## Properties -/

namespace Closed

variable {c : Prop}

lemma ite (_ : Closed P) [Decidable c] {x y : Parse α} (hx : P x) (hy : P y) :
    P (if c then x else y) := by
  split
  · exact hx
  · exact hy

variable (h : Closed P)
include h

lemma pure (a : α) : P (Pure.pure a : Parse α) := h.view fun _ => a

lemma ifFails [Decidable c] (other : fault ≠ .exhausted) (hk : P (k ())) :
    P (if c then Parse.fail fault >>= k else k ()) :=
  h.ite (h.bind (h.fail other) fun _ => hk) hk

lemma unlessFails [Decidable c] (other : fault ≠ .exhausted) (hk : P (k ())) :
    P (if c then k () else Parse.fail fault >>= k) :=
  h.ite hk (h.bind (h.fail other) fun _ => hk)

lemma pair : Paired fun _ x _ => P x where
  pure _ := h.pure _
  fail other := h.fail other
  bind hx hk := h.bind hx hk
  peek := h.view _
  table := h.view _
  symbol _ := h.view _
  update sym _ same _ := h.update sym same

end Closed

/-! ## Steps that take no token -/

namespace Paired

variable {fault : Fault} {c : Prop} {value : Tree} {ctype : Option SymId}

lemma ite (_ : Paired R) [Decidable c] {x x' : Parse α} {y y' : Parse β} (hx : R f x y)
    (hx' : R f x' y') : R f (if c then x else x') (if c then y else y') := by
  split
  · exact hx
  · exact hx'

variable (h : Paired R)
include h

lemma ifFails [Decidable c] {k' : Unit → Parse β} (other : fault ≠ .exhausted)
    (hk : R f (k ()) (k' ())) :
    R f (if c then Parse.fail fault >>= k else k ()) (if c then Parse.fail fault >>= k' else k' ()) :=
  h.ite (h.bind (f := id) (h.fail other) fun _ => hk) hk

lemma unlessFails [Decidable c] {k' : Unit → Parse β} (other : fault ≠ .exhausted)
    (hk : R f (k ()) (k' ())) :
    R f (if c then k () else Parse.fail fault >>= k) (if c then k' () else Parse.fail fault >>= k') :=
  h.ite hk (h.bind (f := id) (h.fail other) fun _ => hk)

lemma isAt : R id (isAt kind) (isAt kind) := h.bind h.peek fun _ => h.pure rfl

lemma isTypeName : R id isTypeName isTypeName :=
  h.bind h.peek fun _ => h.bind h.table fun _ => h.pure rfl

lemma ofType {x : Except TypeFault α} : R id (ofType x) (ofType x) := by
  cases x with
  | ok a => exact h.pure rfl
  | error e => exact h.fail nofun

lemma conversion {l r : CType} {op : Op} : R id (conversion l r ctype op) (conversion l r ctype op) :=
  h.bind h.table fun _ => h.ofType

lemma storable (other : fault ≠ .exhausted) :
    R Tree.unplaced (storable value t ctype fault) (storable value.unplaced t ctype fault) := by
  unfold Parse.storable
  rw [Tree.type_unplaced]
  refine h.bind h.conversion fun way => ?_
  cases way with
  | none => exact h.fail other
  | some way => exact h.pure (value.converted_unplaced way t ctype)

lemma assignment {target : Tree} :
    R Tree.unplaced (assignment target value line) (assignment target.unplaced value.unplaced 0) := by
  unfold Parse.assignment
  simp only [Tree.isLvalue_unplaced, Tree.asRvalue_unplaced, Tree.type_unplaced, Tree.ctype_unplaced]
  refine h.unlessFails nofun (h.bind (h.storable nofun) fun value => h.pure ?_)
  simp only [Tree.unplaced, Tree.type_unplaced, Info.unplaced]

lemma compoundAssignment {op : Op} {target : Tree} : R Tree.unplaced (compoundAssignment op target value line)
      (compoundAssignment op target.unplaced value.unplaced 0) := by
  unfold Parse.compoundAssignment
  simp only [Tree.isLvalue_unplaced, Tree.asRvalue_unplaced, Tree.type_unplaced, Tree.ctype_unplaced,
    Tree.adapted_unplaced]
  exact h.unlessFails nofun (h.bind h.conversion fun _ => h.bind h.conversion fun _ =>
    h.ifFails nofun (h.pure rfl))

lemma binary {op : Op} {left right : Tree} {line : Int64} :
    R Tree.unplaced (binary op left right line) (binary op left.unplaced right.unplaced 0) := by
  unfold Parse.binary
  simp only [Tree.asRvalue_unplaced, Tree.type_unplaced, Tree.ctype_unplaced, Tree.adapted_unplaced]
  exact h.bind h.conversion fun _ => h.bind h.conversion fun _ =>
    h.ifFails nofun (h.ite (h.pure rfl) (h.pure rfl))

lemma memberBase : R Tree.unplaced (memberBase left viaPointer) (memberBase left.unplaced viaPointer) := by
  unfold Parse.memberBase
  simp only [Tree.type_unplaced]
  refine h.ite (h.unlessFails (by simp) (h.pure rfl)) (h.unlessFails (by simp) ?_)
  cases left with
  | ident i sym => exact h.pure rfl
  | deref i operand => exact h.pure rfl
  | _ => exact h.fail (by simp)

lemma adaptArgs {args : List Tree} (params : List Symbol) :
    R (List.map Tree.unplaced) (adaptArgs args params) (adaptArgs (args.map Tree.unplaced) params) := by
  induction args generalizing params with
  | nil => exact h.pure rfl
  | cons arg args ih =>
    cases params with
    | nil => exact h.pure rfl
    | cons param params =>
      exact h.bind (h.storable nofun) fun _ => h.bind (ih params) fun _ => h.pure rfl

lemma addressOf : R Tree.unplaced (addressOf operand line) (addressOf operand.unplaced 0) := by
  cases operand with
  | ident i sym =>
    exact h.bind h.ofType fun _ => h.bind (h.update _ (fun _ => rfl) fun _ _ => rfl) fun _ => h.pure rfl
  | addrOf i sym a =>
    cases sym with
    | none => exact h.fail nofun
    | some sym => exact h.bind (h.symbol _) fun _ => h.ite (h.fail nofun) (h.fail nofun)
  | _ => exact h.fail nofun

lemma contentOf : R Tree.unplaced (contentOf operand) (contentOf operand.unplaced) := by
  unfold Parse.contentOf
  simp only [Tree.asRvalue_unplaced, Tree.type_unplaced, Tree.ctype_unplaced, Tree.line_unplaced]
  exact h.unlessFails nofun (h.pure rfl)

lemma stepBefore : R Tree.unplaced (stepBefore kind operand line) (stepBefore kind operand.unplaced 0) := by
  cases operand with
  | ident i sym => exact h.pure rfl
  | _ => exact h.fail nofun

lemma resolve (name : Text) : R id (resolve name) (resolve name) := by
  refine h.bind h.table fun st => ?_
  dsimp only [id]
  split
  · exact h.pure rfl
  · split
    · exact h.pure rfl
    · exact h.fail nofun

lemma checkName {name : Text} : R id (checkName storage name) (checkName storage name) :=
  h.bind h.table fun _ => h.ite (h.ite (h.fail nofun) (h.pure rfl)) (h.ite (h.fail nofun) (h.pure rfl))

lemma checkReturns {body : Tree} : R id (checkReturns t body) (checkReturns t body.unplaced) := by
  refine h.ite ?_ (h.pure rfl)
  cases body with
  | block i stmts =>
    rw [Tree.unplaced, Tree.unplacedAll_eq_map]
    dsimp only
    rw [List.getLast?_map]
    cases stmts.getLast? with
    | none => exact h.fail nofun
    | some last =>
      cases last with
      | result i value => exact h.pure rfl
      | _ => exact h.fail nofun
  | _ => exact h.fail nofun

lemma returnType : R id returnType returnType := by
  refine h.bind h.table fun st => ?_
  dsimp only [id]
  split
  · exact h.pure rfl
  · exact h.pure rfl

end Paired

lemma ClosedReading.pair (h : ClosedReading P) : PairedBody fun _ x _ => P x where
  toPaired := h.toClosed.pair
  advance := h.advance
  iterate _ _ := fun _ hstep => h.iterate hstep
  string := h.string
  onlyVoid _ _ hk := h.bind h.toClosed.pair.isAt fun _ => h.bind (h.view _) fun _ => hk _
  levels _ hk := h.bind (h.view id) hk
  loops _ := h.count fun _ => rfl
  switches _ := h.count fun _ => rfl

lemma isStepped_unplaced (t : Tree) : isStepped t.unplaced = isStepped t := by cases t <;> rfl

lemma unaryOf_unplaced : unaryOf kind operand.unplaced 0 = (unaryOf kind operand line).unplaced := by
  unfold unaryOf
  simp only [Tree.asRvalue_unplaced, Tree.type_unplaced, Tree.withType_unplaced]
  split
  · simp only [Tree.unplaced, Tree.type_unplaced, Tree.ctype_unplaced, Info.unplaced]
  · simp only [Tree.unplaced, Tree.type_unplaced, Tree.ctype_unplaced, Info.unplaced]

lemma constantValue_unplaced (t : CType) (tree : Tree) :
    constantValue t tree.unplaced = constantValue t tree := by
  cases tree with
  | cast i operand => cases operand <;> rfl
  | _ => rfl

lemma constantValue_ne_exhausted {tree : Tree} (h : constantValue t tree = .error fault) :
    fault ≠ .exhausted := by
  have checked (p : Prop) [Decidable p] (v : Int64) :
      (if p then pure v else throw .literalMismatch : Except Fault Int64) ≠ .error .exhausted := by
    split
    · exact nofun
    · exact nofun
  rintro rfl
  unfold constantValue at h
  dsimp only at h
  split at h
  · exact checked _ _ h
  · exact checked _ _ h
  · cases h

lemma blockOf_unplaced {stmts : List Tree} :
    blockOf 0 (stmts.map Tree.unplaced) = (blockOf line stmts).unplaced := by
  unfold blockOf
  cases stmts with
  | nil => rfl
  | cons t ts =>
    simp only [List.map_cons, List.isEmpty_cons, Tree.unplaced, Tree.unplacedAll, Tree.unplacedAll_eq_map,
      Bool.false_eq_true, if_false, Info.unplaced]

lemma any_unplacedArm (p : Option Int64 → Bool) (arms : List (ArmHead × Tree)) :
    ((arms.map Tree.unplacedArm).any fun arm => p arm.1.value) = arms.any fun arm => p arm.1.value := by
  rw [List.any_map]
  rfl

namespace PairedReading

variable (h : PairedReading R) {sym : SymId} {length : Option Int64}
include h

/-! ## Tokens and types -/

lemma expect {what : Text} : R Token.unplaced (expect kind what) (expect kind what) :=
  h.bind h.isAt fun _ => h.ite h.advance (h.fail nofun)

lemma expectIdentifier : R id expectIdentifier expectIdentifier :=
  h.bind h.expect fun _ => h.pure rfl

lemma skip (kind : TokenKind) : R id (skip kind) (skip kind) :=
  h.bind h.isAt fun _ => h.ite (h.bind h.advance fun _ => h.pure rfl) (h.pure rfl)

lemma stars : R id (stars t) (stars t) :=
  h.iterate id id rfl fun _ => h.bind h.isAt fun _ =>
    h.ite (h.bind h.ofType fun _ => h.bind h.advance fun _ => h.pure rfl) (h.pure rfl)

lemma storageWords : R id (storageWords storage) (storageWords storage) := by
  refine h.iterate id id rfl fun storage => h.bind h.peek fun t => ?_
  rw [show t.unplaced.kind = t.kind from rfl]
  dsimp only [id]
  split
  · exact h.ifFails nofun (h.bind h.advance fun _ => h.pure rfl)
  · exact h.ifFails nofun (h.ifFails nofun (h.bind h.advance fun _ => h.pure rfl))
  · exact h.pure rfl

lemma tag : R id tag tag :=
  h.bind h.isAt fun _ => h.ite (h.bind h.advance fun _ => h.pure rfl) (h.pure rfl)

lemma orBare : R id (orBare spec) (orBare spec) :=
  h.bind h.isAt fun _ => h.pure rfl

lemma keywordType : R id (keywordType t) (keywordType t) :=
  h.bind h.advance fun _ => h.pure rfl

lemma namedType {name : Text} : R id (namedType name) (namedType name) := by
  refine h.bind h.table fun st => ?_
  dsimp only [id]
  split
  · exact h.bind h.advance fun _ => h.pure rfl
  · exact h.fail nofun

lemma enumeratorValue {next : Int64} : R id (enumeratorValue next) (enumeratorValue next) :=
  h.bind h.isAt fun _ => h.ite (h.bind h.advance fun _ => h.bind h.isAt fun _ =>
      h.unlessFails nofun (h.bind h.advance fun _ => h.pure rfl))
    (h.pure rfl)

lemma memberList (g g' : Grammar) (member : R (Prod.map id (List.map Tree.unplaced))
      (g.declaration .member .semicolon .rbrace) (g'.declaration .member .semicolon .rbrace)) :
    R id (memberList g) (memberList g') :=
  h.iterate id id rfl fun _ => h.bind h.isAt fun _ => h.ite (h.pure rfl)
    (h.bind member fun _ => h.ifFails nofun (h.bind (h.skip _) fun _ => h.pure rfl))

lemma plainType (g g' : Grammar)
    (composite : ∀ isUnion, R id (compositeType g isUnion) (compositeType g' isUnion))
    (enum : R id enumType enumType) (typedef : R id (typedefType g) (typedefType g')) :
    R id (plainType g) (plainType g') := by
  refine h.bind h.peek fun t => ?_
  rw [show t.unplaced.kind = t.kind from rfl]
  split
  · exact h.keywordType
  · exact h.keywordType
  · exact h.keywordType
  · exact h.keywordType
  · exact h.bind (composite _) fun _ => h.orBare
  · exact h.bind (composite _) fun _ => h.orBare
  · exact h.bind enum fun _ => h.orBare
  · exact h.bind typedef fun _ => h.orBare
  · exact h.namedType
  · exact h.fail nofun

section
variable (add : ∀ name storage value, storage = .enumType ∨ storage = .enumVal →
  R id (withTable fun st => st.addEnum name storage value) (withTable fun st => st.addEnum name storage value))
include add

lemma enumerators : R id enumerators enumerators :=
  h.iterate id id rfl fun _ => h.bind h.expectIdentifier fun _ => h.bind h.table fun _ =>
    h.ifFails nofun (h.bind h.enumeratorValue fun _ => h.bind (add _ _ _ (.inr rfl)) fun _ =>
      h.bind h.isAt fun _ => h.ite (h.pure rfl) (h.bind h.expect fun _ => h.pure rfl))

lemma enumType : R id enumType enumType := by
  refine h.bind h.advance fun _ => h.bind h.tag fun name => h.bind h.table fun st => h.bind h.isAt fun _ =>
    h.ite (h.bind h.advance fun _ => ?_) (h.ite (h.fail nofun) (h.pure rfl))
  dsimp only [id]
  split
  · exact h.bind (f := id) (h.fail nofun) fun _ => h.bind (add _ _ _ (.inl rfl)) fun _ =>
      h.bind (h.enumerators add) fun _ => h.bind h.advance fun _ => h.pure rfl
  · exact h.bind (add _ _ _ (.inl rfl)) fun _ => h.bind (h.enumerators add) fun _ =>
      h.bind h.advance fun _ => h.pure rfl

end

lemma typedefType (g g' : Grammar) (inner : ∀ storage, R id (g.typeSpec storage) (g'.typeSpec storage))
    (add : ∀ name t ctype, R id (withTable fun st => st.addTypedef name t ctype)
      (withTable fun st => st.addTypedef name t ctype)) : R id (typedefType g) (typedefType g') :=
  h.bind h.advance fun _ => h.bind (inner _) fun _ => h.ifFails nofun (h.bind h.stars fun _ =>
    h.bind h.isAt fun _ => h.unlessFails nofun (h.bind h.peek fun _ => h.bind h.table fun _ =>
      h.ifFails nofun (h.bind (add _ _ _) fun _ => h.bind h.advance fun _ => h.pure rfl)))

lemma compositeType (g g' : Grammar)
    (body : ∀ isUnion name, R id (compositeBody g isUnion name) (compositeBody g' isUnion name)) (isUnion : Bool) :
    R id (compositeType g isUnion) (compositeType g' isUnion) := by
  refine h.bind h.advance fun _ => h.bind h.tag fun _ => h.bind h.table fun _ => h.bind h.isAt fun _ =>
    h.ite (h.ifFails nofun (body _ _)) ?_
  dsimp only [id]
  split
  · exact h.pure rfl
  · exact h.fail nofun

/-! ## Expressions -/

lemma memberAccess :
    R Tree.unplaced (memberAccess left viaPointer) (memberAccess left.unplaced viaPointer) := by
  refine h.bind h.memberBase fun base => ?_
  rw [Tree.ctype_unplaced]
  split
  · refine h.bind h.advance fun _ => h.bind h.expectIdentifier fun name => h.bind h.table fun st => ?_
    dsimp only [id]
    split
    · refine h.bind h.ofType fun _ => h.pure ?_
      simp only [Tree.unplaced, Tree.line_unplaced, Tree.asRvalue_unplaced, Info.unplaced, id]
    · exact h.fail nofun
  · exact h.fail nofun

lemma stepAfter {t : Token} :
    R Tree.unplaced (stepAfter operand t) (stepAfter operand.unplaced t.unplaced) := by
  unfold Parse.stepAfter
  simp only [Tree.rvalue_unplaced, isStepped_unplaced, Tree.isLvalue_unplaced, Tree.type_unplaced,
    Tree.ctype_unplaced]
  exact h.ifFails nofun (h.ifFails nofun (h.unlessFails nofun (h.bind h.advance fun _ => h.pure rfl)))

variable (hg : g.Paired R g')
include hg

lemma ternary {cond yes : Tree} :
    R Tree.unplaced (ternary g cond yes line) (ternary g' cond.unplaced yes.unplaced 0) := by
  unfold Parse.ternary
  simp only [Tree.asRvalue_unplaced, Tree.asCondition_unplaced, Tree.type_unplaced, Tree.ctype_unplaced]
  exact h.bind h.expect fun _ => h.bind (hg.expression 0) fun _ => h.pure rfl

lemma arrayAccess : R Tree.unplaced (arrayAccess g left) (arrayAccess g' left.unplaced) := by
  unfold Parse.arrayAccess
  simp only [Tree.asRvalue_unplaced, Tree.type_unplaced, Tree.ctype_unplaced, Tree.line_unplaced]
  refine h.unlessFails nofun (h.bind h.advance fun _ => h.bind (hg.expression 0) fun index =>
    h.bind h.expect fun _ => ?_)
  simp only [Tree.type_unplaced]
  refine h.unlessFails nofun (h.bind h.conversion fun way => h.pure ?_)
  cases way with
  | none => rfl
  | some way => simp only [id, Option.elim, Tree.unplaced, Tree.converted_unplaced, Info.unplaced]

lemma castType : R id (castType g) (castType g') :=
  h.bind (hg.typeSpec _) fun _ => h.bind h.stars fun _ => h.ifFails nofun (h.pure rfl)

lemma parenthesised : R Tree.unplaced (parenthesised g) (parenthesised g') :=
  h.bind h.advance fun _ => h.bind h.isTypeName fun _ => h.ite
    (h.bind (h.castType hg) fun _ => h.bind h.expect fun _ => h.bind hg.unaryExpression fun operand =>
      h.pure (by simp only [Tree.asRvalue_unplaced, Tree.unplaced, Token.unplaced, Info.unplaced, id]))
    (h.bind (hg.expression 0) fun _ => h.bind h.expect fun _ => h.pure rfl)

lemma expressionList {last : TokenKind} :
    R (List.map Tree.unplaced) (expressionList g last) (expressionList g' last) :=
  h.iterate (List.map Tree.unplaced) _ rfl fun _ => h.bind h.isAt fun _ => h.ite (h.pure (by simp))
    (h.bind (hg.expression 0) fun _ => h.bind h.isAt fun _ => h.ite (h.pure (by simp))
      (h.bind h.expect fun _ => h.pure rfl))

lemma functionCall : R Tree.unplaced (functionCall g sym line) (functionCall g' sym 0) :=
  h.bind h.expect fun _ => h.bind (h.expressionList hg) fun _ => h.bind h.expect fun _ =>
    h.bind h.table fun _ => h.bind (h.adaptArgs _) fun args =>
      h.pure (by simp only [Tree.unplaced, Tree.unplacedAll_eq_map, Info.unplaced, id])

lemma sizeofOperand : R Tree.unplaced (sizeofOperand g line) (sizeofOperand g' 0) :=
  h.bind h.isAt fun _ => h.unlessFails nofun (h.bind h.advance fun _ => h.bind (hg.typeSpec _) fun _ =>
    h.bind h.stars fun _ => h.bind h.table fun _ => h.bind h.ofType fun _ =>
      h.bind h.expect fun _ => h.pure rfl)

lemma identifierOperand {t : Token} :
    R Tree.unplaced (identifierOperand g t) (identifierOperand g' t.unplaced) := by
  refine h.bind (hg.resolve _) fun referent => ?_
  cases referent with
  | constant v => exact h.bind h.advance fun _ => h.pure rfl
  | symbol found =>
    refine h.bind h.advance fun _ => h.bind (h.symbol _) fun sym => ?_
    dsimp only [id, Token.unplaced]
    split
    · exact h.pure rfl
    · exact h.pure rfl
    · exact h.bind h.isAt fun _ => h.unlessFails nofun (h.functionCall hg)

lemma primary : R Tree.unplaced (primary g) (primary g') := by
  refine h.bind h.peek fun t => ?_
  rw [show t.unplaced.kind = t.kind from rfl]
  split
  · exact h.fail nofun
  · exact h.fail nofun
  · exact h.bind h.advance fun _ => h.sizeofOperand hg
  · exact h.bind h.advance fun _ => h.pure rfl
  · exact h.bind h.advance fun _ => h.string _
  · exact h.identifierOperand hg
  · exact h.parenthesised hg
  · exact h.fail nofun

lemma postfixed : R Tree.unplaced (postfixed g) (postfixed g') := by
  refine h.bind (h.primary hg) fun _ => h.iterate Tree.unplaced _ rfl fun operand => h.bind h.peek fun t => ?_
  rw [show t.unplaced.kind = t.kind from rfl]
  split
  · exact h.bind (h.arrayAccess hg) fun _ => h.pure rfl
  · exact h.bind h.memberAccess fun _ => h.pure rfl
  · exact h.bind h.memberAccess fun _ => h.pure rfl
  · exact h.bind h.stepAfter fun _ => h.pure rfl
  · exact h.bind h.stepAfter fun _ => h.pure rfl
  · exact h.pure rfl

lemma unaryExpression : R Tree.unplaced (unaryExpression g) (unaryExpression g') := by
  refine h.bind h.peek fun t => ?_
  rw [show t.unplaced.kind = t.kind from rfl]
  split
  · exact h.bind h.advance fun _ => h.bind hg.unaryExpression fun _ => h.addressOf
  · exact h.bind h.advance fun _ => h.bind hg.unaryExpression fun _ => h.contentOf
  · exact h.bind h.advance fun _ => h.bind hg.unaryExpression fun _ => h.pure unaryOf_unplaced
  · exact h.bind h.advance fun _ => h.bind hg.unaryExpression fun _ => h.pure unaryOf_unplaced
  · exact h.bind h.advance fun _ => h.bind hg.unaryExpression fun _ => h.pure unaryOf_unplaced
  · exact h.bind h.advance fun _ => h.bind hg.unaryExpression fun _ => h.stepBefore
  · exact h.bind h.advance fun _ => h.bind hg.unaryExpression fun _ => h.stepBefore
  · exact h.postfixed hg

lemma continued {power : Nat} (left : Tree) :
    R (Sum.map Tree.unplaced Tree.unplaced) (continued g power left) (continued g' power left.unplaced) := by
  refine h.bind h.peek fun t => ?_
  rw [show t.unplaced.kind = t.kind from rfl, Tree.asRvalue_unplaced]
  refine h.ite (h.pure rfl) ?_
  split
  · refine h.ite (h.pure rfl) (h.bind h.advance fun _ => h.bind (hg.expression _) fun right => ?_)
    split
    · exact h.bind (h.ternary hg) fun _ => h.pure rfl
    · exact h.bind h.assignment fun _ => h.pure rfl
    · exact h.ite (h.bind h.compoundAssignment fun _ => h.pure rfl)
        (h.bind h.binary fun _ => h.pure rfl)
  · exact h.fail nofun

lemma expression {power : Nat} : R Tree.unplaced (expression g power) (expression g' power) :=
  h.bind (h.unaryExpression hg) fun _ => h.iterate Tree.unplaced _ rfl (h.continued hg)

/-! ## Initialisers and parameters -/

lemma constant : R id (constant g t) (constant g' t) := by
  refine h.bind (h.expression hg) fun tree => ?_
  rw [Tree.fold_unplaced, constantValue_unplaced]
  split
  · exact h.pure rfl
  · rename_i fault failed
    exact h.fail (constantValue_ne_exhausted failed)

lemma initialiser {name : Text} {info : Info} :
    R (Option.map Tree.unplaced) (initialiser g name sym info storage)
      (initialiser g' name sym info.unplaced storage) := by
  refine h.bind h.isAt fun _ => h.ite
    (h.unlessFails nofun (h.bind h.advance fun _ => h.ite (h.bind (h.expression hg) fun value => ?_)
      (h.bind (h.constant hg) fun _ => h.bind (h.update _ (fun _ => rfl) fun _ h => h) fun _ => h.pure rfl)))
    (h.pure rfl)
  rw [Tree.asRvalue_unplaced]
  refine h.bind (h.storable nofun) fun value => h.pure ?_
  simp only [Option.map_some, Tree.unplaced, Tree.type_unplaced, Info.unplaced]

lemma arrayLength : R id (arrayLength g) (arrayLength g') :=
  h.bind h.advance fun _ => h.bind h.isAt fun _ => h.ite (h.bind h.advance fun _ => h.pure rfl)
    (h.bind (h.constant hg) fun _ => h.ifFails nofun (h.bind h.expect fun _ => h.pure rfl))

lemma arrayValues : R id (arrayValues g t length) (arrayValues g' t length) :=
  h.bind h.expect fun _ => h.iterate id id rfl fun _ => h.ifFails nofun
    (h.bind (h.constant hg) fun _ => h.bind h.isAt fun _ =>
      h.ite (h.bind h.advance fun _ => h.pure rfl) (h.bind h.expect fun _ => h.pure rfl))

lemma arrayInitialiser {name : Text} :
    R id (arrayInitialiser g name t storage sym length) (arrayInitialiser g' name t storage sym length) :=
  h.bind h.isAt fun _ => h.ite
    (h.unlessFails nofun (h.bind h.advance fun _ => h.bind (h.arrayValues hg) fun _ =>
      h.bind (h.update _ (fun _ => rfl) fun _ h => h) fun _ => h.pure rfl))
    (h.pure rfl)

omit hg in
lemma parameters (g g' : Grammar)
    (param : R (Prod.map id (List.map Tree.unplaced)) (g.declaration .param .comma .rparen)
      (g'.declaration .param .comma .rparen)) (earlier : Option Symbol) :
    R id (parameters g earlier) (parameters g' earlier) := by
  refine h.bind h.table fun st => h.bind (h.iterate id id rfl fun count => ?_) fun count => ?_
  · exact h.bind h.isAt fun _ => h.ite (h.pure rfl)
      (h.onlyVoid (fun void => if void = true then _ else _) (fun void => if void = true then _ else _)
        fun _ => h.ite (h.bind h.advance fun _ => h.pure rfl)
          (h.bind param fun _ => h.ifFails nofun (h.ifFails nofun (h.bind h.isAt fun _ =>
            h.ite (h.pure rfl) (h.bind h.expect fun _ => h.pure rfl)))))
  · cases earlier with
    | none => exact h.pure rfl
    | some f => exact h.ifFails nofun (h.pure rfl)

omit hg in
lemma nextDeclarator (g g' : Grammar)
    (declares : ∀ t, R (Prod.map id (Option.map Tree.unplaced)) (declarator g t spec.ctype storage)
      (declarator g' t spec.ctype storage)) (end1 end2 : TokenKind) (done : List Tree) :
    R (Sum.map (List.map Tree.unplaced) (Prod.map id (List.map Tree.unplaced)))
      (nextDeclarator g spec storage end1 end2 done)
      (nextDeclarator g' spec storage end1 end2 (done.map Tree.unplaced)) := by
  refine h.bind h.stars fun t => h.bind (declares _) fun r => ?_
  obtain ⟨sym, init⟩ := r
  have whole : done.map Tree.unplaced ++ (init.map Tree.unplaced).toList =
      (done ++ init.toList).map Tree.unplaced := by
    cases init <;> simp
  dsimp only [Prod.map, id]
  rw [whole]
  exact h.bind (h.symbol _) fun _ => h.ite (h.pure rfl) (h.bind h.isAt fun _ =>
    h.bind h.isAt fun _ => h.ite (h.pure rfl) (h.bind h.expect fun _ => h.pure rfl))

end PairedReading

/-! ## Statements -/

namespace PairedBody

variable (h : PairedBody R) (hg : g.Paired R g') (inner : R Tree.unplaced g.statement g'.statement)
  (inBlock : ∀ inSwitch, R Tree.unplaced (g.block inSwitch) (g'.block inSwitch)) {seen : List (ArmHead × Tree)}
include h

include hg in
lemma condition : R Tree.unplaced (condition g) (condition g') :=
  h.bind h.expect fun _ => h.bind (hg.expression 0) fun _ => h.bind h.expect fun _ =>
    h.pure (Tree.asCondition_unplaced _)

include inner in
lemma loopBody : R Tree.unplaced (loopBody g) (loopBody g') :=
  h.bind (h.loops (· + 1)) fun _ => h.bind inner fun _ => h.bind (h.loops (· - 1)) fun _ => h.pure rfl

include inner in
lemma elsePart : R Tree.unplaced (elsePart g) (elsePart g') :=
  h.bind h.isAt fun _ => h.ite (h.bind h.advance fun _ => inner) (h.pure rfl)

include hg inner in
lemma ifStatement : R Tree.unplaced (ifStatement g) (ifStatement g') :=
  h.bind h.advance fun _ => h.bind (h.condition hg) fun _ => h.bind inner fun _ =>
    h.bind (h.elsePart inner) fun _ => h.pure rfl

include hg inner in
lemma whileStatement : R Tree.unplaced (whileStatement g) (whileStatement g') :=
  h.bind h.advance fun _ => h.bind (h.condition hg) fun _ => h.bind (h.loopBody inner) fun _ => h.pure rfl

include hg inner in
lemma forStatement : R Tree.unplaced (forStatement g) (forStatement g') := by
  refine h.bind h.advance fun _ => h.bind h.expect fun _ => h.bind (h.expressionList hg) fun _ =>
    h.bind h.expect fun _ => h.bind (hg.expression 0) fun _ => h.bind h.expect fun _ =>
      h.bind (h.expressionList hg) fun last => h.bind h.expect fun _ =>
        h.bind (h.loopBody inner) fun body => h.pure ?_
  have inside : (if body.unplaced.isEmpty then last.map Tree.unplaced
      else body.unplaced :: last.map Tree.unplaced) =
        (if body.isEmpty then last else body :: last).map Tree.unplaced := by
    rw [Tree.isEmpty_unplaced]
    split <;> rfl
  rw [forLoop, forLoop, inside]
  simp only [Tree.unplaced, Tree.unplacedAll_eq_map, Tree.asCondition_unplaced, List.map_append, List.map_cons,
    List.map_nil, Info.unplaced, Token.unplaced]

include hg in
lemma returned : R Tree.unplaced (returned g spec line) (returned g' spec 0) :=
  h.bind h.isAt fun _ => h.ite (h.pure rfl) (h.ifFails nofun (h.bind (hg.expression 0) fun _ =>
    h.bind (h.storable nofun) fun _ => h.pure rfl))

include hg in
lemma returnStatement : R Tree.unplaced (returnStatement g) (returnStatement g') :=
  h.bind h.advance fun _ => h.bind h.returnType fun _ => h.bind (h.returned hg) fun _ =>
    h.bind h.expect fun _ => h.pure rfl

lemma breakStatement : R Tree.unplaced breakStatement breakStatement :=
  h.levels (fun s s' loops switches => by rw [loops, switches]) fun _ =>
    h.ifFails nofun (h.bind h.advance fun _ => h.bind h.expect fun _ => h.pure rfl)

lemma continueStatement : R Tree.unplaced continueStatement continueStatement :=
  h.levels (fun s s' loops _ => by rw [loops]) fun _ =>
    h.ifFails nofun (h.bind h.advance fun _ => h.bind h.expect fun _ => h.pure rfl)

include hg in
lemma armValue : R id (armValue g seen) (armValue g' (seen.map Tree.unplacedArm)) := by
  refine h.bind (hg.expression 0) fun t => ?_
  cases t with
  | intLit i v =>
    dsimp only [Tree.unplaced]
    rw [any_unplacedArm (fun value => value = some v)]
    exact h.ifFails nofun (h.pure rfl)
  | _ => exact h.fail nofun

include hg in
lemma armLabel : R id (armLabel g seen kind) (armLabel g' (seen.map Tree.unplacedArm) kind) := by
  unfold Parse.armLabel
  refine h.ite (h.pure rfl) ?_
  rw [map_eq_pure_bind, map_eq_pure_bind]
  exact h.bind (h.armValue hg) fun _ => h.pure rfl

include hg inBlock in
lemma nextArm (seen : List (ArmHead × Tree)) :
    R (Sum.map (List.map Tree.unplacedArm) (List.map Tree.unplacedArm)) (nextArm g seen)
      (nextArm g' (seen.map Tree.unplacedArm)) := by
  have body : R Tree.unplaced (armBody g) (armBody g') :=
    h.bind h.isAt fun _ => h.ite (h.pure rfl) (inBlock true)
  refine h.bind h.isAt fun _ => h.ite (h.pure ?_) (h.bind h.peek fun t => ?_)
  · rw [Sum.map_inr, List.map_reverse]
  · rw [any_unplacedArm (fun value => value = none)]
    exact h.unlessFails nofun (h.ifFails nofun (h.bind h.advance fun _ => h.bind (h.armLabel hg) fun _ =>
      h.bind h.expect fun _ => h.bind body fun _ => h.pure rfl))

include hg inBlock in
lemma switchStatement : R Tree.unplaced (switchStatement g) (switchStatement g') := by
  refine h.bind h.advance fun t => h.bind h.expect fun _ => h.bind (hg.expression 0) fun scrutinee =>
    h.bind h.expect fun _ => h.bind h.expect fun _ => ?_
  rw [Tree.type_unplaced]
  refine h.unlessFails nofun (h.bind (h.switches (· + 1)) fun _ =>
    h.bind (h.iterate (List.map Tree.unplacedArm) (List.map Tree.unplacedArm) rfl (h.nextArm hg inBlock))
      fun arms => ?_)
  rw [List.isEmpty_map]
  refine h.ifFails nofun (h.bind h.advance fun _ => h.bind (h.switches (· - 1)) fun _ => h.pure ?_)
  rw [Tree.unplaced, Tree.unplacedArms_eq_map]
  rfl

variable (declares : R (List.map Tree.unplaced) (localDeclaration g) (localDeclaration g'))
include hg inner inBlock declares

lemma statement : R Tree.unplaced (statement g) (statement g') := by
  refine h.bind h.peek fun t => ?_
  rw [show t.unplaced.kind = t.kind from rfl]
  split
  · exact h.bind h.advance fun _ => h.pure rfl
  · exact h.bind h.advance fun _ => h.bind (inBlock _) fun _ => h.bind h.expect fun _ => h.pure rfl
  · exact h.ifStatement hg inner
  · exact h.whileStatement hg inner
  · exact h.forStatement hg inner
  · exact h.returnStatement hg
  · exact h.breakStatement
  · exact h.continueStatement
  · exact h.switchStatement hg inBlock
  · exact h.bind h.isTypeName fun _ => h.ite (h.bind declares fun _ => h.pure blockOf_unplaced)
      (h.bind (h.expression hg) fun _ => h.bind h.expect fun _ => h.pure rfl)

lemma nextStatement {inSwitch : Bool} (done : List Tree) :
    R (Sum.map (List.map Tree.unplaced) (List.map Tree.unplaced)) (nextStatement g inSwitch done)
      (nextStatement g' inSwitch (done.map Tree.unplaced)) := by
  refine h.bind h.peek fun t => h.ite (h.pure ?_) (h.ifFails nofun (h.bind h.isTypeName fun _ => h.ite
    (h.bind declares fun _ => h.pure ?_)
    (h.bind (h.statement hg inner inBlock declares) fun stmt => h.pure ?_)))
  · rw [Sum.map_inr, List.map_reverse]
  · rw [Sum.map_inl, List.map_append, List.map_reverse]
  · rw [Tree.isEmpty_unplaced]
    cases stmt.isEmpty <;> rfl

lemma block (inSwitch : Bool) : R Tree.unplaced (block g inSwitch) (block g' inSwitch) :=
  h.bind h.peek fun _ => h.bind (h.iterate (List.map Tree.unplaced) (List.map Tree.unplaced) rfl
    (h.nextStatement hg inner inBlock declares)) fun _ => h.pure blockOf_unplaced

end PairedBody
end Parse
end SmallC
