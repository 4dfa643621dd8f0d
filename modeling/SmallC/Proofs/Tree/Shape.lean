import SmallC.Conversion
import SmallC.Lowering.Instr
import SmallC.Proofs.Symbol
import SmallC.Tree.Fold

/-!
# The trees of a program

A tree may put any node anywhere. The trees that stand for programs do not: operands are expressions and wanted as
values, a test against zero stands only where a condition does, and statements stand only in statements. Types
agree where a value is stored, returned or handed over and between the operands of an operation.
`IsExpression`, `IsCondition` and `IsStatement` say this, in a `Scope` of what may be named.
-/

namespace SmallC

lemma CType.of_pointerTo {t u : CType} (h : t.pointerTo = .ok u) : u.isPointer = true ∧ u.pointee = t := by
  unfold CType.pointerTo at h
  split at h
  · obtain rfl := Except.ok.inj h
    refine ⟨decide_eq_true fun h => Nat.succ_ne_zero _ (congrArg Fin.val h), ?_⟩
    simp [CType.pointee, CType.valueAt]
  · cases h

/-- There is an instruction for the operation on two values. -/
def Op.isBinary (op : Op) : Bool := op.relation?.isSome || op.arith?.isSome

/-- A value of the type may be stored as one of `target`. -/
def CType.fits (t target : CType) : Bool := t = target || t = .voidPointer && target.isPointer

/-- The symbol stands somewhere in memory, or it is a struct or union. -/
def Symbol.HasPlace (s : Symbol) : Prop :=
  s.isFileScope = true ∨ s.hasAddr = true ∨ s.type.isComposite = true

lemma Symbol.HasPlace.later {a b : Symbol} (h : a.HasPlace) (k : a.Keeps b) : b.HasPlace := by
  rcases h with h | h | h
  · exact .inl (k.fileScope h)
  · exact .inr (.inl (k.hasAddr h))
  · exact .inr (.inr (k.type.symm ▸ h))

/-- What a tree may refer to, and the types of values that may be returned. -/
structure Scope where
  sees : SymId → Prop
  calls : SymId → List CType → Prop := fun _ _ => True
  returns : CType → Prop := fun _ => True

/-- A scope where expressions may refer to more, of the symbols that there are. -/
structure Scope.Narrows (ss : Symbols) (a b : Scope) : Prop where
  sees : ∀ id < ss.size, a.sees id → b.sees id
  calls : ∀ f types, a.calls f types → b.calls f types

structure Scope.Within (ss : Symbols) (a b : Scope) : Prop extends a.Narrows ss b where
  returns : ∀ t, a.returns t → b.returns t

lemma Scope.Within.refl (ss : Symbols) (a : Scope) : a.Within ss a :=
  ⟨⟨fun _ _ h => h, fun _ _ h => h⟩, fun _ h => h⟩

namespace Tree

variable {P : Tree → Prop}

/-- The place of a member: an offset added to the address of a struct or union. -/
def isMember : Op → Tree → Tree → Bool
  | .add, base, .intLit offset _ => offset.type = .long &&
      (base.type.isComposite || base.type = .structPointer || base.type = .unionPointer)
  | _, _, _ => false

/-- The types of the operands of an operation agree. -/
def matched (op : Op) (a b : Tree) : Bool :=
  a.type = b.type || op.isComparison && a.type.isPointer && b.type.isPointer || isMember op a b

/-- A location is wanted for the value in it. -/
def Loaded (t : Tree) : Prop := t.isLvalue = true → t.info.rvalue = true

lemma Loaded.of_not_isLvalue {t : Tree} (h : t.isLvalue = false) : t.Loaded :=
  fun hl => absurd hl (by simp [h])

/-- A node has the type, or is said to be an int where it is a char. -/
def Bears (i : Info) (t : CType) : Prop := i.type = t ∨ i.type = .int ∧ t = .char

/-- The type of a choice is that of its first arm. A char that `-` stands before is said to be an int. -/
def Chooses (i : Info) (a : Tree) : Prop := i.type = a.type ∨ i.type = .int ∧ a.type = .char

/-- What a conversion is applied to. -/
def adaptee : Tree → Tree
  | .widen _ a | .scale _ a _ => a
  | t => t

/-- The types of a target and of the value that an operation combines it with. -/
inductive Combines (op : Op) (a b : Tree) : Prop
  | integers (target : a.type.isInt) (value : b.type.isInt) : Combines op a b
  | index (target : a.type.isPointer) (hop : op = .asPlus ∨ op = .asMinus) (typed : b.type = a.type)
      (value : b.adaptee.type.isInt) : Combines op a b
  /-- Where the pointer is to something of one byte, it is taken for what the integer is widened to. -/
  | stray (target : a.type.isInt) (hop : op = .asPlus ∨ op = .asMinus) (value : b.type.isPointer)
      (defined : Option Int64) (narrow : Conversion.toPointer b.type defined = .ok .widen) : Combines op a b

inductive IsExpression (ss : Symbols) (scope : Scope) : Tree → Prop
  | intLit {i v} : IsExpression ss scope (.intLit i v)
  | strLit {i l} : IsExpression ss scope (.strLit i l)
  | ident {i s} (known : s < ss.size) (visible : scope.sees s)
      (typed : Bears i (ss.get s).type) : IsExpression ss scope (.ident i s)
  | addrOf {i s} (known : s < ss.size) (visible : scope.sees s) (place : (ss.get s).HasPlace) :
      IsExpression ss scope (.addrOf i (some s) .empty)
  /-- The address that a struct or union is taken from. -/
  | base {i a} (ha : IsExpression ss scope a) (la : a.Loaded) :
      IsExpression ss scope (.addrOf i none a)
  | deref {i a} (ha : IsExpression ss scope a) (la : a.Loaded) (pointer : a.type.isPointer)
      (typed : Bears i a.type.pointee) : IsExpression ss scope (.deref i a)
  | binary {i op a b} (ha : IsExpression ss scope a) (la : a.Loaded) (hb : IsExpression ss scope b)
      (lb : b.Loaded) (typed : matched op a b) (hop : op.isBinary) : IsExpression ss scope (.binary i op a b)
  | logical {i op a b} (ha : IsExpression ss scope a) (la : a.Loaded) (hb : IsExpression ss scope b)
      (lb : b.Loaded) : IsExpression ss scope (.logical i op a b)
  | assign {i a b} (ha : IsExpression ss scope a) (location : a.isLvalue)
      (hb : IsExpression ss scope b) (lb : b.Loaded) (typed : b.type.fits a.type) :
      IsExpression ss scope (.assign i a b)
  | compound {i op a b} (ha : IsExpression ss scope a) (location : a.isLvalue)
      (hb : IsExpression ss scope b) (lb : b.Loaded) (typed : Combines op a b)
      (hop : op.underlying.arith?.isSome) : IsExpression ss scope (.compound i op a b)
  | widen {i a} (ha : IsExpression ss scope a) (la : a.Loaded) : IsExpression ss scope (.widen i a)
  | scale {i a n} (ha : IsExpression ss scope a) (la : a.Loaded) :
      IsExpression ss scope (.scale i a n)
  | cast {i a} (ha : IsExpression ss scope a) (la : a.Loaded) : IsExpression ss scope (.cast i a)
  | unary {i op a} (ha : IsExpression ss scope a) (la : a.Loaded)
      (hop : op ∈ [Op.negate, .invert, .logNot]) : IsExpression ss scope (.unary i op a)
  | step {i op a} (ha : IsExpression ss scope a) (location : a.isLvalue) :
      IsExpression ss scope (.step i op a)
  | ternary {i c a b} (hc : IsExpression ss scope c) (compares : c.op.isComparison)
      (ha : IsExpression ss scope a) (la : a.Loaded) (hb : IsExpression ss scope b)
      (lb : b.Loaded) (typed : Chooses i a) : IsExpression ss scope (.ternary i c a b)
  /-- A choice by whether a value differs from zero. -/
  | choice {i j c a b} (hc : IsExpression ss scope c) (lc : c.Loaded)
      (ha : IsExpression ss scope a) (la : a.Loaded) (hb : IsExpression ss scope b)
      (lb : b.Loaded) (typed : Chooses i a) : IsExpression ss scope (.ternary i (.toBool j c) a b)
  | call {i s args} (hargs : ∀ a ∈ args, IsExpression ss scope a) (largs : ∀ a ∈ args, a.Loaded)
      (typed : scope.calls s (args.map type)) (known : s < ss.size) (result : Bears i (ss.get s).type) :
      IsExpression ss scope (.call i s args)

/-- A comparison, or a test against zero. -/
def IsCondition (ss : Symbols) (scope : Scope) (c : Tree) : Prop :=
  (IsExpression ss scope c ∧ c.op.isComparison) ∨
    ∃ j a, c = .toBool j a ∧ IsExpression ss scope a ∧ a.Loaded

/-- No value stands twice among the arms, and `default` can only be last. -/
structure ArmsOrdered (arms : List (ArmHead × Tree)) : Prop where
  distinct : (arms.map fun arm => arm.1.value).Nodup
  defaultLast : ∀ arm ∈ arms.dropLast, arm.1.value ≠ none

inductive IsStatement (ss : Symbols) (scope : Scope) : Tree → Prop
  | empty : IsStatement ss scope .empty
  | expression {t} (ht : IsExpression ss scope t) (lt : t.Loaded) : IsStatement ss scope t
  | block {i ts} (hts : ∀ t ∈ ts, IsStatement ss scope t) : IsStatement ss scope (.block i ts)
  | branch {i c a b} (hc : IsCondition ss scope c) (ha : IsStatement ss scope a)
      (hb : IsStatement ss scope b) : IsStatement ss scope (.branch i c a b)
  | loop {i c a} (hc : IsCondition ss scope c) (ha : IsStatement ss scope a) :
      IsStatement ss scope (.loop i c a)
  | switch {i a arms} (ha : IsExpression ss scope a) (la : a.Loaded) (some : arms ≠ [])
      (ordered : ArmsOrdered arms) (harms : ∀ arm ∈ arms, IsStatement ss scope arm.2) :
      IsStatement ss scope (.switch i a arms)
  | leave {i} : IsStatement ss scope (.result i .empty)
  | result {i a} (ha : IsExpression ss scope a) (la : a.Loaded) (typed : scope.returns a.type) :
      IsStatement ss scope (.result i a)
  | breakOut {i} : IsStatement ss scope (.breakOut i)
  | continueOn {i} : IsStatement ss scope (.continueOn i)

/-! ## Induction -/

/-- The address of a location is an operand of which `P` holds. -/
def Locates (P : Tree → Prop) (t : Tree) : Prop := ∀ i a, t = .deref i a → P a ∧ a.Loaded

def isDeref : Tree → Bool
  | .deref .. => true
  | _ => false

lemma Locates.of_not_deref {t : Tree} (h : t.isDeref = false) : Locates P t := by
  rintro i a rfl
  cases h

variable {ss tt : Symbols} {a c b : Tree}

section
variable {scope scope' : Scope} {t : Tree}

/-- Induction on expressions. Where an operation reads and writes a location, its code is that of the
address of the location, so this is what is known of there. -/
theorem IsExpression.located (ht : IsExpression ss scope t) (intLit : ∀ {i : Info} {v : Int64}, P (.intLit i v))
    (strLit : ∀ {i : Info} {l : Int}, P (.strLit i l))
    (ident : ∀ {i : Info} {s : SymId}, s < ss.size → scope.sees s → P (.ident i s)) (addrOf : ∀ {i :
    Info} {s : SymId}, s < ss.size → scope.sees s → (ss.get s).HasPlace → P (.addrOf i (some s)
    .empty)) (base : ∀ {i : Info} {a : Tree}, a.Loaded → P a → P (.addrOf i none a))
    (deref : ∀ {i : Info} {a : Tree}, a.Loaded → P a → P (.deref i a)) (binary : ∀ {i : Info} {op :
    Op} {a b : Tree}, a.Loaded → P a → b.Loaded → P b → P (.binary i op a b)) (logical : ∀ {i :
    Info} {op : Op} {a b : Tree}, a.Loaded → P a → b.Loaded → P b → P (.logical i op a b))
    (assign : ∀ {i : Info} {a b : Tree}, a.isLvalue → P a → b.Loaded → P b → P (.assign i a b))
    (compound : ∀ {i : Info} {op : Op} {a b : Tree}, a.isLvalue → P a → Locates P a → b.Loaded → P b
    → P (.compound i op a b)) (widen : ∀ {i : Info} {a : Tree}, a.Loaded → P a → P (.widen i a))
    (scale : ∀ {i : Info} {a : Tree} {n : Int64}, a.Loaded → P a → P (.scale i a n))
    (cast : ∀ {i : Info} {a : Tree}, a.Loaded → P a → P (.cast i a)) (unary : ∀ {i : Info} {op : Op}
    {a : Tree}, a.Loaded → P a → op ∈ [Op.negate, .invert, .logNot] → P (.unary i op a))
    (step : ∀ {i : Info} {op : Op} {a : Tree}, a.isLvalue → P a → Locates P a → P (.step i op a))
    (ternary : ∀ {i : Info} {c a b : Tree}, c.op.isComparison → P c → a.Loaded → P a → b.Loaded → P
    b → P (.ternary i c a b)) (choice : ∀ {i j : Info} {c a b : Tree}, c.Loaded → P c → a.Loaded → P
    a → b.Loaded → P b → P (.ternary i (.toBool j c) a b)) (call : ∀ {i : Info} {s : SymId} {args :
    List Tree}, (∀ a ∈ args, P a) → (∀ a ∈ args, a.Loaded) → P (.call i s args)) : P t := by
  suffices h : P t ∧ Locates P t from h.1
  induction ht with
  | intLit => exact ⟨intLit, .of_not_deref rfl⟩
  | strLit => exact ⟨strLit, .of_not_deref rfl⟩
  | ident known visible _ => exact ⟨ident known visible, .of_not_deref rfl⟩
  | addrOf known visible place => exact ⟨addrOf known visible place, .of_not_deref rfl⟩
  | base _ la iha => exact ⟨base la iha.1, .of_not_deref rfl⟩
  | deref _ la _ _ iha =>
    refine ⟨deref la iha.1, ?_⟩
    intro i a h
    cases h
    exact ⟨iha.1, la⟩
  | binary _ la _ lb _ _ iha ihb => exact ⟨binary la iha.1 lb ihb.1, .of_not_deref rfl⟩
  | logical _ la _ lb iha ihb => exact ⟨logical la iha.1 lb ihb.1, .of_not_deref rfl⟩
  | assign _ location _ lb _ iha ihb => exact ⟨assign location iha.1 lb ihb.1, .of_not_deref rfl⟩
  | compound _ location _ lb _ _ iha ihb =>
    exact ⟨compound location iha.1 iha.2 lb ihb.1, .of_not_deref rfl⟩
  | widen _ la iha => exact ⟨widen la iha.1, .of_not_deref rfl⟩
  | scale _ la iha => exact ⟨scale la iha.1, .of_not_deref rfl⟩
  | cast _ la iha => exact ⟨cast la iha.1, .of_not_deref rfl⟩
  | unary _ la hop iha => exact ⟨unary la iha.1 hop, .of_not_deref rfl⟩
  | step _ location iha => exact ⟨step location iha.1 iha.2, .of_not_deref rfl⟩
  | ternary _ compares _ la _ lb _ ihc iha ihb =>
    exact ⟨ternary compares ihc.1 la iha.1 lb ihb.1, .of_not_deref rfl⟩
  | choice _ lc _ la _ lb _ ihc iha ihb =>
    exact ⟨choice lc ihc.1 la iha.1 lb ihb.1, .of_not_deref rfl⟩
  | call _ largs _ _ _ ih => exact ⟨call (fun a ha => (ih a ha).1) largs, .of_not_deref rfl⟩

lemma eq_empty_of_isEmpty (h : t.isEmpty = true) : t = .empty := by
  cases t with
  | empty => rfl
  | _ => cases h

/-! ## Symbols may grow -/

lemma IsExpression.grow (h : ss.Grows tt) (hn : scope.Narrows ss scope')
    (ht : IsExpression ss scope t) : IsExpression tt scope' t := by
  induction ht with
  | intLit => exact .intLit
  | strLit => exact .strLit
  | ident known visible typed =>
    exact .ident (Nat.lt_of_lt_of_le known h.size) (hn.sees _ known visible) ((h.keeps _ known).type ▸ typed)
  | addrOf known visible place =>
    exact .addrOf (Nat.lt_of_lt_of_le known h.size) (hn.sees _ known visible)
      (place.later (h.keeps _ known))
  | base _ la iha => exact .base iha la
  | deref _ la pointer typed iha => exact .deref iha la pointer typed
  | binary _ la _ lb typed hop iha ihb => exact .binary iha la ihb lb typed hop
  | logical _ la _ lb iha ihb => exact .logical iha la ihb lb
  | assign _ location _ lb typed iha ihb => exact .assign iha location ihb lb typed
  | compound _ location _ lb typed hop iha ihb => exact .compound iha location ihb lb typed hop
  | widen _ la iha => exact .widen iha la
  | scale _ la iha => exact .scale iha la
  | cast _ la iha => exact .cast iha la
  | unary _ la hop iha => exact .unary iha la hop
  | step _ location iha => exact .step iha location
  | ternary _ compares _ la _ lb typed ihc iha ihb => exact .ternary ihc compares iha la ihb lb typed
  | choice _ lc _ la _ lb typed ihc iha ihb => exact .choice ihc lc iha la ihb lb typed
  | call _ largs typed known result ih =>
    exact .call ih largs (hn.calls _ _ typed) (Nat.lt_of_lt_of_le known h.size) ((h.keeps _ known).type ▸ result)

lemma IsCondition.grow (h : ss.Grows tt) (hn : scope.Narrows ss scope')
    (hc : IsCondition ss scope c) : IsCondition tt scope' c := by
  rcases hc with ⟨he, hop⟩ | ⟨j, a, rfl, ha, la⟩
  · exact .inl ⟨he.grow h hn, hop⟩
  · exact .inr ⟨j, a, rfl, ha.grow h hn, la⟩

lemma IsStatement.grow (h : ss.Grows tt) (hn : scope.Within ss scope')
    (ht : IsStatement ss scope t) : IsStatement tt scope' t := by
  induction ht with
  | empty => exact .empty
  | expression ht lt => exact .expression (ht.grow h hn.toNarrows) lt
  | block _ ih => exact .block ih
  | branch hc _ _ iha ihb => exact .branch (hc.grow h hn.toNarrows) iha ihb
  | loop hc _ iha => exact .loop (hc.grow h hn.toNarrows) iha
  | switch ha la some ordered _ ih => exact .switch (ha.grow h hn.toNarrows) la some ordered ih
  | leave => exact .leave
  | result ha la typed => exact .result (ha.grow h hn.toNarrows) la (hn.returns _ typed)
  | breakOut => exact .breakOut
  | continueOn => exact .continueOn

/-! ## Changing what a node says of itself -/

lemma Bears.mapInfo {i j : Info} {t : CType} (h : Bears i t)
    (hj : j.type = i.type ∨ j.type = .int ∧ i.type = .char) : Bears j t := by
  rcases hj with same | ⟨int, char⟩
  · rwa [Bears, same]
  · rcases h with same | ⟨other, -⟩
    · exact .inr ⟨int, same.symm.trans char⟩
    · cases other.symm.trans char

/-- A node is an expression whether its value is wanted, and if it is said to be an int where it is a
char. -/
lemma IsExpression.mapInfo {f : Info → Info}
    (hf : (f t.info).type = t.info.type ∨ (f t.info).type = .int ∧ t.info.type = .char)
    (ht : IsExpression ss scope t) : IsExpression ss scope (t.mapInfo f) := by
  cases ht with
  | intLit => exact .intLit
  | strLit => exact .strLit
  | ident known visible typed => exact .ident known visible (typed.mapInfo hf)
  | addrOf known visible place => exact .addrOf known visible place
  | base ha la => exact .base ha la
  | deref ha la pointer typed => exact .deref ha la pointer (typed.mapInfo hf)
  | binary ha la hb lb typed hop => exact .binary ha la hb lb typed hop
  | logical ha la hb lb => exact .logical ha la hb lb
  | assign ha location hb lb typed => exact .assign ha location hb lb typed
  | compound ha location hb lb typed hop => exact .compound ha location hb lb typed hop
  | widen ha la => exact .widen ha la
  | scale ha la => exact .scale ha la
  | cast ha la => exact .cast ha la
  | unary ha la hop => exact .unary ha la hop
  | step ha location => exact .step ha location
  | ternary hc compares ha la hb lb typed => exact .ternary hc compares ha la hb lb (Bears.mapInfo typed hf)
  | choice hc lc ha la hb lb typed => exact .choice hc lc ha la hb lb (Bears.mapInfo typed hf)
  | call hargs largs typed known result => exact .call hargs largs typed known (result.mapInfo hf)

lemma IsExpression.asRvalue (ht : IsExpression ss scope t) : IsExpression ss scope t.asRvalue :=
  IsExpression.mapInfo (f := fun i => { i with rvalue := true }) (.inl rfl) ht

lemma IsExpression.withType (ht : IsExpression ss scope t) (char : t.type = .char) :
    IsExpression ss scope (t.withType .int) :=
  IsExpression.mapInfo (f := fun i => { i with type := .int }) (.inr ⟨rfl, char⟩) ht

lemma loaded_asRvalue (t : Tree) : t.asRvalue.Loaded := by
  intro hl
  cases t with
  | ident | deref => rfl
  | _ => cases hl

lemma Loaded.withType (h : t.Loaded) (type : CType) : (t.withType type).Loaded := by
  intro hl
  cases t with
  | ident | deref => exact h rfl
  | _ => cases hl

lemma Loaded.converted (h : t.Loaded) (c : Conversion) (type : CType) (ctype : Option SymId) :
    (t.converted c type ctype).Loaded := by
  cases c with
  | keep => exact h
  | widen | scale => exact .of_not_isLvalue rfl

lemma IsExpression.converted (ht : IsExpression ss scope t) (lt : t.Loaded) (c : Conversion)
    (type : CType) (ctype : Option SymId) : IsExpression ss scope (t.converted c type ctype) := by
  cases c with
  | keep => exact ht
  | widen => exact .widen ht lt
  | scale => exact .scale ht lt

lemma Loaded.adapted (h : t.Loaded) (c : Option Conversion) (type : CType) (ctype : Option SymId) :
    (t.adapted c type ctype).Loaded := by
  cases c with
  | none => exact h
  | some c => exact h.converted c type ctype

lemma IsExpression.adapted (ht : IsExpression ss scope t) (lt : t.Loaded) (c : Option Conversion)
    (type : CType) (ctype : Option SymId) : IsExpression ss scope (t.adapted c type ctype) := by
  cases c with
  | none => exact ht
  | some c => exact ht.converted lt c type ctype

lemma IsExpression.asCondition (ht : IsExpression ss scope t) (lt : t.Loaded) :
    IsCondition ss scope t.asCondition := by
  unfold Tree.asCondition
  split
  · rename_i compares
    exact .inl ⟨ht, compares⟩
  · exact .inr ⟨_, t, rfl, ht, lt⟩

/-! ## Folding keeps the shape -/

/-- An operation that folding knows, on literals: a sum, difference, product, a quotient by something
other than zero, `~` or `!`. -/
def isConstant : Tree → Bool
  | .binary _ op (.intLit ..) (.intLit _ b) =>
    op = .add || op = .subtract || op = .multiply || op = .divide && b ≠ 0
  | .unary _ op (.intLit ..) => op = .invert || op = .logNot
  | _ => false

/-- What becomes of a node over folded children. -/
def FoldsTo (t folded : Tree) : Prop := t.isConstant = false ∧ folded = t ∨
  t.isConstant = true ∧ ∃ v, folded = .intLit { type := t.type, line := t.line } v

lemma foldsTo_binary (i : Info) (op : Op) (a b : Tree) :
    (Tree.binary i op a b).FoldsTo (foldBinary i op a b) := by
  cases a with
  | intLit _ x =>
    cases b with
    | intLit _ y =>
      cases op with
      | add | subtract | multiply => exact .inr ⟨rfl, _, rfl⟩
      | divide =>
        by_cases zero : y = 0
        · exact .inl ⟨by simp [isConstant, zero], if_pos zero⟩
        · exact .inr ⟨by simp [isConstant, zero], _, if_neg zero⟩
      | _ => exact .inl ⟨rfl, rfl⟩
    | _ => exact .inl ⟨rfl, rfl⟩
  | _ => exact .inl ⟨rfl, rfl⟩

lemma foldsTo_unary (i : Info) (op : Op) (a : Tree) : (Tree.unary i op a).FoldsTo (foldUnary i op a) := by
  cases a with
  | intLit =>
    cases op with
    | invert | logNot => exact .inr ⟨rfl, _, rfl⟩
    | _ => exact .inl ⟨rfl, rfl⟩
  | _ => exact .inl ⟨rfl, rfl⟩

lemma not_isComparison {i : Info} {op : Op} (h : (Tree.binary i op a b).isConstant = true) :
    ¬ op.isComparison := by
  unfold isConstant at h
  split at h
  · rename_i same
    cases same
    simp only [Bool.or_eq_true, Bool.and_eq_true, decide_eq_true_eq] at h
    rcases h with ((rfl | rfl) | rfl) | ⟨rfl, -⟩ <;> nofun
  · contradiction
  · cases h

lemma type_fold (t : Tree) : t.fold.type = t.type := by
  cases t with
  | binary i op a b =>
    rcases foldsTo_binary i op a.fold b.fold with ⟨-, h⟩ | ⟨-, v, h⟩ <;> rw [fold, h] <;> rfl
  | unary i op a =>
    rcases foldsTo_unary i op a.fold with ⟨-, h⟩ | ⟨-, v, h⟩ <;> rw [fold, h] <;> rfl
  | _ => rfl

lemma isMember_fold {op : Op} (h : isMember op a b) : isMember op a.fold b.fold := by
  unfold isMember at h
  split at h
  · simpa [isMember, fold, type_fold] using h
  · cases h

lemma matched_fold {op : Op} (h : matched op a b) : matched op a.fold b.fold := by
  unfold matched at h ⊢
  rw [type_fold, type_fold]
  rcases Bool.or_eq_true_iff.mp h with h | h
  · rw [h, Bool.true_or]
  · exact Bool.or_eq_true_iff.mpr (.inr (isMember_fold h))

lemma adaptee_fold (t : Tree) : t.fold.adaptee = t.adaptee.fold := by
  cases t with
  | binary i op a b =>
    rcases foldsTo_binary i op a.fold b.fold with ⟨-, h⟩ | ⟨-, v, h⟩ <;> simp only [fold, h, adaptee]
  | unary i op a =>
    rcases foldsTo_unary i op a.fold with ⟨-, h⟩ | ⟨-, v, h⟩ <;> simp only [fold, h, adaptee]
  | _ => simp only [fold, adaptee]

lemma Combines.fold {op : Op} (h : Combines op a b) : Combines op a.fold b.fold := by
  cases h with
  | integers target value => exact .integers (by rwa [type_fold]) (by rwa [type_fold])
  | index target hop typed value =>
    refine .index (by rwa [type_fold]) hop (by rwa [type_fold, type_fold]) ?_
    rwa [adaptee_fold, type_fold]
  | stray target hop value defined narrow =>
    exact .stray (by rwa [type_fold]) hop (by rwa [type_fold]) defined (by rwa [type_fold])

lemma fold_isLvalue (t : Tree) : t.fold.isLvalue = t.isLvalue := by
  cases t with
  | binary i op a b =>
    rcases foldsTo_binary i op a.fold b.fold with ⟨-, h⟩ | ⟨-, v, h⟩ <;> rw [fold, h] <;> rfl
  | unary i op a =>
    rcases foldsTo_unary i op a.fold with ⟨-, h⟩ | ⟨-, v, h⟩ <;> rw [fold, h] <;> rfl
  | _ => rfl

lemma Loaded.fold (h : t.Loaded) : t.fold.Loaded := by
  cases t with
  | ident => exact h
  | deref => exact h
  | binary i op a b =>
    intro hl
    rw [fold_isLvalue] at hl
    cases hl
  | unary i op a =>
    intro hl
    rw [fold_isLvalue] at hl
    cases hl
  | _ => exact fun hl => nomatch hl

lemma IsExpression.fold_op (hc : IsExpression ss scope c) (h : c.op.isComparison) :
    c.fold.op = c.op := by
  cases hc with
  | binary =>
    rcases foldsTo_binary _ _ (Tree.fold _) (Tree.fold _) with ⟨-, e⟩ | ⟨constant, -⟩
    · rw [fold, e]; rfl
    · exact absurd h (not_isComparison constant)
  | unary _ _ hop =>
    simp only [List.mem_cons, List.not_mem_nil, or_false] at hop
    rcases hop with rfl | rfl | rfl <;> simp [op, Op.isComparison] at h
  | _ => rfl

lemma foldAll_eq_map (ts : List Tree) : foldAll ts = ts.map fold := by
  induction ts with
  | nil => rfl
  | cons t ts ih => rw [foldAll, ih]; rfl

lemma foldArms_eq_map (arms : List (ArmHead × Tree)) :
    foldArms arms = arms.map fun arm => (arm.1, arm.2.fold) := by
  induction arms with
  | nil => rfl
  | cons arm arms ih => rw [foldArms, ih]; rfl

theorem IsExpression.fold (ht : IsExpression ss scope t) : IsExpression ss scope t.fold := by
  induction ht with
  | intLit => exact .intLit
  | strLit => exact .strLit
  | ident known visible typed => exact .ident known visible typed
  | addrOf known visible place => exact .addrOf known visible place
  | base _ la iha => exact .base iha la.fold
  | deref _ la pointer typed iha => exact .deref iha la.fold (by rwa [type_fold]) (by rwa [type_fold])
  | @binary i op a b _ la _ lb typed hop iha ihb =>
    rcases foldsTo_binary i op a.fold b.fold with ⟨-, e⟩ | ⟨-, v, e⟩
    · rw [Tree.fold, e]
      exact .binary iha la.fold ihb lb.fold (matched_fold typed) hop
    · rw [Tree.fold, e]
      exact .intLit
  | logical _ la _ lb iha ihb => exact .logical iha la.fold ihb lb.fold
  | assign _ location _ lb typed iha ihb =>
    refine .assign iha ?_ ihb lb.fold ?_
    · rwa [fold_isLvalue]
    · rwa [type_fold, type_fold]
  | compound _ location _ lb typed hop iha ihb =>
    refine .compound iha ?_ ihb lb.fold typed.fold hop
    rwa [fold_isLvalue]
  | widen _ la iha => exact .widen iha la.fold
  | scale _ la iha => exact .scale iha la.fold
  | cast _ la iha => exact .cast iha la.fold
  | @unary i op a _ la hop iha =>
    rcases foldsTo_unary i op a.fold with ⟨-, e⟩ | ⟨-, v, e⟩
    · rw [Tree.fold, e]
      exact .unary iha la.fold hop
    · rw [Tree.fold, e]
      exact .intLit
  | step _ location iha =>
    refine .step iha ?_
    rwa [fold_isLvalue]
  | ternary hc compares _ la _ lb typed ihc iha ihb =>
    refine .ternary ihc ?_ iha la.fold ihb lb.fold (by rwa [Chooses, type_fold])
    rwa [hc.fold_op compares]
  | choice _ lc _ la _ lb typed ihc iha ihb =>
    exact .choice ihc lc.fold iha la.fold ihb lb.fold (by rwa [Chooses, type_fold])
  | call _ largs typed known result ih =>
    rw [Tree.fold, foldAll_eq_map]
    refine .call ?_ ?_ ?_ known result
    · simpa using ih
    · simpa using fun a ha => (largs a ha).fold
    · simpa [Function.comp_def, type_fold] using typed

lemma IsCondition.fold (hc : IsCondition ss scope c) : IsCondition ss scope c.fold := by
  rcases hc with ⟨he, hop⟩ | ⟨j, a, rfl, ha, la⟩
  · exact .inl ⟨he.fold, by rwa [he.fold_op hop]⟩
  · exact .inr ⟨j, a.fold, rfl, ha.fold, la.fold⟩

lemma ArmsOrdered.foldArms {arms : List (ArmHead × Tree)} (h : ArmsOrdered arms) :
    ArmsOrdered (foldArms arms) := by
  rw [foldArms_eq_map]
  constructor
  · simpa [Function.comp_def] using h.distinct
  · intro arm harm
    rw [← List.map_dropLast] at harm
    obtain ⟨source, hmem, rfl⟩ := List.mem_map.mp harm
    exact h.defaultLast source hmem

theorem IsStatement.fold (ht : IsStatement ss scope t) : IsStatement ss scope t.fold := by
  induction ht with
  | empty => exact .empty
  | expression ht lt => exact .expression ht.fold lt.fold
  | block _ ih =>
    rw [Tree.fold, foldAll_eq_map]
    exact .block (by simpa using ih)
  | branch hc _ _ iha ihb => exact .branch hc.fold iha ihb
  | loop hc _ iha => exact .loop hc.fold iha
  | @switch i a arms ha la some ordered _ ih =>
    refine .switch ha.fold la.fold ?_ ordered.foldArms ?_
    · simpa [foldArms_eq_map] using some
    · intro arm harm
      rw [foldArms_eq_map] at harm
      obtain ⟨source, hmem, rfl⟩ := List.mem_map.mp harm
      exact ih source hmem
  | leave => exact .leave
  | result ha la typed => exact .result ha.fold la.fold (by rwa [type_fold])
  | breakOut => exact .breakOut
  | continueOn => exact .continueOn

end

end Tree
end SmallC
