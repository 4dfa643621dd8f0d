import SmallC.Proofs.Course.Signatures

/-!
# What a file declares

A survey reads a file as compiling does and writes down, name by name, what the declarations at its top
say: what kind of thing a name stands for, its type, and the types of the parameters of a function.
Compiling leaves no such list, as a declaration of a name that is known leaves no trace of its own.
-/

namespace SmallC

/-- What a declaration at the top of a file says of a name. The type of an array is that of a pointer to
its elements, the type of a function is that of its result. -/
structure Announced where
  name : Text
  kind : Kind
  type : CType
  /-- The definition of the struct or union that the type is built on. -/
  ctype : Option SymId
  parameters : List CType
  deriving DecidableEq, Repr

structure Survey where
  names : List Announced := []
  /-- The tokens of the declarations, each without the words of storage class that it begins with. -/
  inner : List Token := []

def Survey.Plain (u : Survey) : Prop := ∀ t ∈ u.inner, t.kind ≠ .staticKw ∧ t.kind ≠ .externKw

instance (u : Survey) : Decidable u.Plain :=
  inferInstanceAs (Decidable (∀ t ∈ u.inner, t.kind ≠ .staticKw ∧ t.kind ≠ .externKw))

/-- What the token after a name makes of it. -/
def TokenKind.declares : TokenKind → Kind
  | .lparen => .function
  | .lbracket => .array
  | _ => .variable

def ParseState.taken (s s' : ParseState) : List Token := s.rest.take (s.rest.length - s'.rest.length)

/-- What is said of the name in front by a declaration with a type, where all that belongs to the name has
been read in the end. -/
def announced (t : CType) (ctype : Option SymId) (s s' : ParseState) : Announced where
  name := s.front.lexeme
  kind := s.advanced.front.kind.declares
  type := if s.advanced.front.kind = .lbracket then t.pointerTo.toOption.getD t else t
  ctype
  parameters := s'.table.paramTypes.drop s.table.paramTypes.length

namespace Parse

variable {g : Grammar}

def surveyDeclarator (g : Grammar) (spec : TypeSpec) (storage : StorageClass) (names : List Announced) :
    Parse (List Announced ⊕ List Announced) := do
  let t ← stars spec.type
  let before ← get
  let (id, _) ← declarator g t spec.ctype storage
  let names := names ++ [announced t spec.ctype before (← get)]
  if (← symbol id).kind = .function then return .inr names
  if (← isAt .semicolon) || (← isAt .eof) then return .inr names
  let _ ← expect .comma "comma"
  return .inl names

def surveyNames (g : Grammar) (spec : TypeSpec) (storage : StorageClass) : Parse (List Announced) :=
  if spec.bare then return [] else iterate (surveyDeclarator g spec storage) []

def surveyDeclaration (g : Grammar) : Parse Survey := do
  let storage ← storageWords .global
  let before ← get
  let spec ← plainType g
  let names ← surveyNames g spec storage
  return { names, inner := before.taken (← get) }

def surveyNext (g : Grammar) (u : Survey) : Parse (Survey ⊕ Survey) := do
  if ← isAt .eof then return .inr u
  let more ← surveyDeclaration g
  skip .semicolon
  return .inl { names := u.names ++ more.names, inner := u.inner ++ more.inner }

def survey : Parse Survey := do
  iterate (surveyNext (grammar (← get).bound)) {}

/-! ## Reading the same -/

variable {α β γ δ : Type} {R : α → β → Prop} {S : γ → δ → Prop}

/-- Wherever `y` ends without a diagnostic, `x` ends in the same state. -/
def Shadows (R : α → β → Prop) (x : Parse α) (y : Parse β) : Prop :=
  ∀ s b s', y s = .ok b s' → ∃ a, x s = .ok a s' ∧ R a b

namespace Shadows

lemma refl (x : Parse α) : Shadows Eq x x := fun _ a _ run => ⟨a, run, rfl⟩

lemma pure {a : α} {b : β} (h : R a b) : Shadows R (pure a) (pure b) := by
  intro s b' s' run
  obtain ⟨rfl, rfl⟩ := pure_eq_ok.mp run
  exact ⟨a, rfl, h⟩

lemma bind {x : Parse α} {y : Parse β} {f : α → Parse γ} {h : β → Parse δ} (first : Shadows R x y)
    (next : ∀ a b, R a b → Shadows S (f a) (h b)) : Shadows S (x >>= f) (y >>= h) := by
  intro s d s' run
  obtain ⟨b, s1, run1, run2⟩ := bind_eq_ok.mp run
  obtain ⟨a, run1', related⟩ := first s b s1 run1
  obtain ⟨c, run2', related'⟩ := next a b related s1 d s' run2
  exact ⟨c, bind_eq_ok.mpr ⟨a, s1, run1', run2'⟩, related'⟩

lemma after (x : Parse α) {f : α → Parse γ} {h : α → Parse δ} (next : ∀ a, Shadows S (f a) (h a)) :
    Shadows S (x >>= f) (x >>= h) := by
  refine (refl x).bind ?_
  rintro a _ rfl
  exact next a

lemma get {f : ParseState → Parse γ} {y : Parse δ} (h : ∀ s, Shadows S (f s) y) : Shadows S (get >>= f) y := by
  intro s d s' run
  obtain ⟨c, run', related⟩ := h s s d s' run
  exact ⟨c, bind_eq_ok.mpr ⟨s, s, rfl, run'⟩, related⟩

lemma ite {p : Prop} [Decidable p] {x x' : Parse γ} {y y' : Parse δ} (h : Shadows S x y)
    (h' : Shadows S x' y') : Shadows S (if p then x else x') (if p then y else y') := by
  split
  · exact h
  · exact h'

lemma iterate {f : α → Parse (α ⊕ γ)} {h : β → Parse (β ⊕ δ)}
    (round : ∀ a b, R a b → Shadows (Sum.LiftRel R S) (f a) (h b)) {a : α} {b : β} (start : R a b) :
    Shadows S (iterate f a) (iterate h b) := by
  intro s d s' run
  replace run : iterateUpTo h s.bound b s = .ok d s' := run
  change ∃ c, iterateUpTo f s.bound a s = .ok c s' ∧ S c d
  generalize s.bound = bound at run ⊢
  induction bound generalizing a b s with
  | zero => cases run
  | succ bound ih =>
    obtain ⟨r, s1, run1, run2⟩ := bind_eq_ok.mp run
    obtain ⟨r', run1', related⟩ := round a b start s r s1 run1
    cases related with
    | inl related =>
      obtain ⟨c, run2', related'⟩ := ih related s1 run2
      exact ⟨c, bind_eq_ok.mpr ⟨_, s1, run1', run2'⟩, related'⟩
    | inr related =>
      obtain ⟨rfl, rfl⟩ := pure_eq_ok.mp run2
      exact ⟨_, bind_eq_ok.mpr ⟨_, _, run1', rfl⟩, related⟩

end Shadows

/-- A survey and a reading go on together, or both are done. -/
abbrev InStep : α ⊕ γ → β ⊕ δ → Prop := Sum.LiftRel (fun _ _ => True) fun _ _ => True

lemma shadows_declarator {spec : TypeSpec} {storage : StorageClass} {names : List Announced} {done : List Tree} :
    Shadows InStep (surveyDeclarator g spec storage names)
      (nextDeclarator g spec storage .semicolon .eof done) := by
  refine .after _ fun t => .get fun before => .after _ fun r => .get fun s => .after _ fun y => ?_
  refine .ite (.pure (.inr trivial)) (.after _ fun _ => .after _ fun _ => ?_)
  exact .ite (.pure (.inr trivial)) (.after _ fun _ => .pure (.inl trivial))

lemma shadows_declaration :
    Shadows (fun _ _ => True) (surveyDeclaration g) (declaration g .global .semicolon .eof) := by
  unfold declaration typeSpec
  simp only [bind_assoc, pure_bind]
  refine .after _ fun storage => .get fun before => .after _ fun spec => ?_
  have names : Shadows (fun _ _ => True) (surveyNames g spec storage)
      (if spec.bare then pure (spec, []) else iterate (nextDeclarator g spec storage .semicolon .eof) []) :=
    .ite (.pure trivial) (.iterate (R := fun _ _ => True)
      (fun names done _ => shadows_declarator) trivial)
  rw [← bind_pure (ite ..)]
  exact names.bind fun _ _ _ => .get fun _ => .pure trivial

lemma shadows_file : Shadows (fun _ _ => True) survey file := by
  refine .after _ fun s => .iterate (R := fun _ _ => True) (fun u _ _ => ?_) trivial
  refine .after _ fun _ => .ite (.pure (.inr trivial)) (shadows_declaration.bind fun more _ _ => ?_)
  exact .after _ fun _ => .pure (.inl trivial)

end Parse

def surveyOf (file source : Text) : Option Survey :=
  match Parse.survey (Session.start { file } (lex source file).1) with
  | .ok u _ => some u
  | .error .. => none

end SmallC
