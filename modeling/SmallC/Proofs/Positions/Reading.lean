import SmallC.Proofs.Parse.Closure

/-!
# Reading tokens without their places

A reading is set beside one of the same tokens with no lines and files in them. Both have the same tables and the
same code at every step, and their trees differ in lines only: either both go on, or both end with one fault.
The second one may have larger bounds, and more tokens after those of the first. Then nothing is said about a
first reading that ends because of its own bounds, or with a fault.
-/

namespace SmallC

def Definition.unplaced (d : Definition) : Definition :=
  { d with info := d.info.unplaced, read := d.read.unplaced }

namespace Parse

variable {fault : Fault}

structure Comparison where
  /-- The second one may have larger bounds. -/
  wider : Prop := False
  /-- The functions that the second one begins with. -/
  before : Array Definition := #[]
  /-- The loops and switches around the statement at hand are the same ones. -/
  levels : Prop := True
  /-- What the second one has after a semicolon that only the end follows in the first one. -/
  onward : Option (List Token) := none

namespace Comparison

/-- The comparison inside the body of a function. -/
def inBody (c : Comparison) : Comparison := { c with levels := True }

/-- The tokens that the second reading has before it when the first one has `ts`. -/
def Ahead (c : Comparison) (ts us : List Token) : Prop :=
  match c.onward with
  | none => us = ts.map Token.unplaced
  | some more => ∃ (before : List Token) (stop last : Token), ts = before ++ [stop, last] ∧
      stop.kind = .semicolon ∧ us = before.map Token.unplaced ++ stop.unplaced :: more

/-- Where the second reading is when the first one is at `s`. -/
structure Mirrors (c : Comparison) (s s' : ParseState) : Prop where
  rest : c.Ahead s.rest s'.rest
  bound : s'.bound = s.bound ∨ c.wider ∧ s.bound ≤ s'.bound
  table : s'.table = s.table
  out : s'.out = s.out
  functions : s'.functions = c.before ++ s.functions.map Definition.unplaced
  levels : c.levels → s'.loops = s.loops ∧ s'.switches = s.switches

/-- The first reading has not gone where the second one has other tokens. -/
def Shares (c : Comparison) (s : ParseState) : Prop := c.onward = none ∨ 2 ≤ s.rest.length

/-- Faults of the first reading that mean nothing for the second one. -/
def Excuses (c : Comparison) (fault : Fault) : Prop := c.wider ∧ fault = .exhausted ∨ c.onward ≠ none

end Comparison

def Shrinks {α : Type} (x : Parse α) : Prop := ∀ s, Ends x s fun _ t => t.rest <:+ s.rest

/-- Reading `y` in the second place goes as reading `x` in the first, and `f` forgets the places in what
is read. -/
structure Mirrored {α β : Type} (c : Comparison) (f : α → β) (x : Parse α) (y : Parse β) : Prop where
  shrinks : Shrinks x
  mirrors : ∀ s s', c.Mirrors s s' →
    match x s with
    | .ok a t => c.Shares t → ∃ t', y s' = .ok (f a) t' ∧ c.Mirrors t t'
    | .error d _ => c.Excuses d.fault ∨ ∃ d' t', y s' = .error d' t' ∧ d'.fault = d.fault

variable {c : Comparison} {α α' β β' : Type} {s s' t : ParseState}
variable {f : α → β} {x : Parse α}

namespace Comparison

variable {ts us : List Token}

lemma Shares.of_suffix (h : c.Shares t) (shorter : t.rest <:+ s.rest) : c.Shares s :=
  h.imp_right fun two => Nat.le_trans two shorter.length_le

lemma not_excuses : ¬ Excuses {} fault := by
  rintro (⟨none, -⟩ | some)
  · exact none
  · exact some rfl

lemma Ahead.head (h : c.Ahead ts us) : us.headD default = (ts.headD default).unplaced := by
  unfold Ahead at h
  split at h
  · subst h
    cases ts <;> rfl
  · obtain ⟨before, stop, last, rfl, -, rfl⟩ := h
    cases before <;> rfl

lemma Ahead.tail (h : c.Ahead ts us) (shares : c.onward = none ∨ 2 ≤ ts.tail.length) :
    c.Ahead ts.tail us.tail := by
  unfold Ahead at h ⊢
  split at h
  · subst h
    exact List.map_tail.symm
  · rename_i onward
    obtain ⟨before, stop, last, rfl, kind, rfl⟩ := h
    cases before with
    | nil =>
      rcases shares with none | two
      · cases onward.symm.trans none
      · cases Nat.not_succ_le_self 1 two
    | cons t before => exact ⟨before, stop, last, rfl, kind, rfl⟩

lemma Ahead.shares (h : c.Ahead ts us) (more : (ts.headD default).kind ≠ .semicolon) :
    c.onward = none ∨ 2 ≤ ts.tail.length := by
  unfold Ahead at h
  split at h
  · rename_i none
    exact .inl none
  · obtain ⟨before, stop, last, rfl, kind, -⟩ := h
    cases before with
    | nil => exact absurd kind more
    | cons t before => simp

namespace Mirrors

lemma front (h : c.Mirrors s s') : s'.front = s.front.unplaced := h.rest.head

lemma advanced (h : c.Mirrors s s') (shares : c.Shares s.advanced) : c.Mirrors s.advanced s'.advanced :=
  { h with rest := h.rest.tail shares }

lemma ofBody (h : c.inBody.Mirrors s s') : c.Mirrors s s' :=
  ⟨h.rest, h.bound, h.table, h.out, h.functions, fun _ => h.levels trivial⟩

lemma onlyVoid (h : c.Mirrors s s') :
    (decide (s'.front.kind = .voidKw) && decide (s'.advanced.front.kind = .rparen)) =
      (decide (s.front.kind = .voidKw) && decide (s.advanced.front.kind = .rparen)) := by
  have first : s'.front.kind = s.front.kind := by rw [h.front, Token.unplaced]
  rw [first]
  by_cases void : s.front.kind = .voidKw
  · have second : s'.advanced.front.kind = s.advanced.front.kind := by
      have shares : c.Shares s.advanced := h.rest.shares fun stop => by cases void.symm.trans stop
      rw [(h.advanced shares).front, Token.unplaced]
    rw [second]
  · simp [void]

end Mirrors
end Comparison

/-! ## Sequences and loops -/

lemma shrinks_of_rest (h : ∀ s, Ends x s fun _ t => t.rest = s.rest) : Shrinks x :=
  fun s => (h s).mono fun _ _ same => same ▸ List.suffix_rfl

lemma Shrinks.bind {k : α → Parse β} (hx : Shrinks x) (hk : ∀ a, Shrinks (k a)) : Shrinks (x >>= k) :=
  fun s => (hx s).bind fun a t shorter => (hk a t).mono fun _ _ shortest => shortest.trans shorter

lemma mirrored_pure {a : α} {b : β} (h : b = f a) : Mirrored c f (pure a) (pure b) where
  shrinks := shrinks_of_rest fun _ => ends_pure.mpr rfl
  mirrors _ s' mirrors _ := ⟨s', congrArg (EStateM.Result.ok · s') h, mirrors⟩

lemma mirrored_fail : Mirrored c f (fail fault) (fail fault) where
  shrinks _ := ends_fail.mpr trivial
  mirrors _ _ _ := .inr ⟨_, _, rfl, rfl⟩

namespace Mirrored

lemma bind {f' : α' → β'} {y : Parse β} {k : α → Parse α'} {k' : β → Parse β'} (hx : Mirrored c f x y)
    (hk : ∀ a, Mirrored c f' (k a) (k' (f a))) : Mirrored c f' (x >>= k) (y >>= k') where
  shrinks := hx.shrinks.bind fun a => (hk a).shrinks
  mirrors := by
    intro s s' mirrors
    have first := hx.mirrors s s' mirrors
    change match EStateM.bind x k s with
      | .ok a t => c.Shares t → ∃ t', EStateM.bind y k' s' = .ok (f' a) t' ∧ c.Mirrors t t'
      | .error d _ => c.Excuses d.fault ∨
        ∃ d' t', EStateM.bind y k' s' = .error d' t' ∧ d'.fault = d.fault
    unfold EStateM.bind
    cases run : x s with
    | ok a t =>
      rw [run] at first
      by_cases shares : c.Shares t
      · obtain ⟨t', run', mirrors'⟩ := first shares
        rw [run']
        exact (hk a).mirrors t t' mirrors'
      · -- the first reading has gone too far, and cannot come back
        change match k a t with | .ok a t => _ | .error d _ => _
        cases run2 : k a t with
        | ok b u =>
          intro late
          exact absurd (late.of_suffix ((hk a).shrinks t b u run2)) shares
        | error d u => exact .inl (.inr fun none => shares (.inl none))
    | error d t =>
      rw [run] at first
      rcases first with excused | ⟨d', t', run', same⟩
      · exact .inl excused
      · rw [run']
        exact .inr ⟨d', t', rfl, same⟩

lemma iterateUpTo {f : α → α'} {f' : β → β'} {step : α → Parse (α ⊕ β)} {step' : α' → Parse (α' ⊕ β')}
    (hstep : ∀ a, Mirrored c (Sum.map f f') (step a) (step' (f a))) {bound bound' : Nat}
    (h : bound' = bound ∨ c.wider ∧ bound ≤ bound') (a : α) :
    Mirrored c f' (iterateUpTo step bound a) (iterateUpTo step' bound' (f a)) := by
  induction bound generalizing bound' a with
  | zero =>
    rcases h with rfl | ⟨wider, -⟩
    · exact mirrored_fail
    · exact ⟨(mirrored_fail (c := c) (f := id)).shrinks, fun _ _ _ => .inl (.inl ⟨wider, rfl⟩)⟩
  | succ bound ih =>
    obtain ⟨bound', rfl⟩ : ∃ n, bound' = n + 1 := Nat.exists_eq_succ_of_ne_zero (by omega)
    refine (hstep a).bind fun r => ?_
    cases r with
    | inl a => exact ih (h.imp Nat.succ.inj (And.imp id Nat.le_of_succ_le_succ)) a
    | inr b => exact mirrored_pure rfl

lemma iterate (f : α → α') (f' : β → β') {step : α → Parse (α ⊕ β)} {step' : α' → Parse (α' ⊕ β')}
    {a : α} {a' : α'} (start : a' = f a)
    (hstep : ∀ a, Mirrored c (Sum.map f f') (step a) (step' (f a))) :
    Mirrored c f' (iterate step a) (iterate step' a') where
  shrinks s := (iterateUpTo hstep (.inl rfl) a).shrinks s
  mirrors s s' mirrors := start ▸ (iterateUpTo hstep mirrors.bound a).mirrors s s' mirrors

end Mirrored

/-! ## Steps -/

lemma mirrored_peek : Mirrored c Token.unplaced peek peek where
  shrinks := shrinks_of_rest fun s a t h => by
    cases h
    rfl
  mirrors _ s' mirrors _ := ⟨s', congrArg (EStateM.Result.ok · s') mirrors.front, mirrors⟩

lemma mirrored_onlyVoid (k : Bool → Parse α) (k' : Bool → Parse β)
    (h : ∀ b, Mirrored c f (k b) (k' b)) :
    Mirrored c f (do k ((← isAt .voidKw) && (← peekNext).kind = .rparen))
      (do k' ((← isAt .voidKw) && (← peekNext).kind = .rparen)) where
  shrinks s := (h _).shrinks s
  mirrors s s' mirrors := by
    have run : (do k' ((← isAt .voidKw) && (← peekNext).kind = .rparen) : Parse β) s' =
        k' (decide (s.front.kind = .voidKw) && decide (s.advanced.front.kind = .rparen)) s' :=
      congrArg (k' · s') mirrors.onlyVoid
    rw [run]
    exact (h _).mirrors s s' mirrors

lemma mirrored_advance : Mirrored c Token.unplaced advance advance where
  shrinks s a t h := by
    cases h
    exact List.tail_suffix _
  mirrors _ s' mirrors shares :=
    ⟨s'.advanced, congrArg (EStateM.Result.ok · s'.advanced) mirrors.front, mirrors.advanced shares⟩

lemma mirrored_get {k : ParseState → Parse α} {k' : ParseState → Parse β}
    (shrinks : ∀ s, Shrinks (k s)) (h : ∀ s s', c.Mirrors s s' → Mirrored c f (k s) (k' s')) :
    Mirrored c f ((get : Parse ParseState) >>= k) ((get : Parse ParseState) >>= k') where
  shrinks s := shrinks s s
  mirrors s s' mirrors := (h s s' mirrors).mirrors s s' mirrors

lemma mirrored_look {k : ParseState → Parse α} {k' : ParseState → Parse β}
    (same : ∀ s s', c.Mirrors s s' → k' s' = k' s) (h : ∀ s, Mirrored c f (k s) (k' s)) :
    Mirrored c f ((get : Parse ParseState) >>= k) ((get : Parse ParseState) >>= k') :=
  mirrored_get (fun s => (h s).shrinks) fun s s' mirrors => same s s' mirrors ▸ h s

lemma mirrored_modifyGet {f f' : ParseState → α × ParseState} (rest : ∀ s, (f s).2.rest = s.rest)
    (h : ∀ s s', c.Mirrors s s' → (f' s').1 = (f s).1 ∧ c.Mirrors (f s).2 (f' s').2) :
    Mirrored c id (modifyGet f : Parse α) (modifyGet f') where
  shrinks := shrinks_of_rest fun s a t h => by
    cases h
    exact rest s
  mirrors s s' mirrors _ := ⟨(f' s').2, congrArg (EStateM.Result.ok · (f' s').2) (h s s' mirrors).1,
    (h s s' mirrors).2⟩

lemma mirrored_modify {f f' : ParseState → ParseState} (rest : ∀ s, (f s).rest = s.rest)
    (h : ∀ s s', c.Mirrors s s' → c.Mirrors (f s) (f' s')) :
    Mirrored c id (modify f : Parse PUnit) (modify f') :=
  mirrored_modifyGet rest fun s s' mirrors => ⟨rfl, h s s' mirrors⟩

lemma mirrored_table : Mirrored c id table table where
  shrinks := shrinks_of_rest fun s a t h => by
    cases h
    rfl
  mirrors _ s' mirrors _ := ⟨s', congrArg (EStateM.Result.ok · s') mirrors.table, mirrors⟩

lemma mirrored_symbol (sym : SymId) : Mirrored c id (symbol sym) (symbol sym) where
  shrinks := shrinks_of_rest fun s a t h => by
    cases h
    rfl
  mirrors _ s' mirrors _ :=
    ⟨s', congrArg (fun st : SymbolTable => EStateM.Result.ok (st.get sym) s') mirrors.table, mirrors⟩

lemma mirrored_withTable {f : SymbolTable → α × SymbolTable} : Mirrored c id (withTable f) (withTable f) :=
  mirrored_modifyGet (fun _ => rfl) fun _ _ mirrors =>
    ⟨congrArg (fun st => (f st).1) mirrors.table,
      { mirrors with table := congrArg (fun st => (f st).2) mirrors.table }⟩

lemma mirrored_modifyTable {f : SymbolTable → SymbolTable} :
    Mirrored c id (modifyTable f) (modifyTable f) :=
  mirrored_withTable

lemma mirrored_emit {code : Lower α} : Mirrored c id (emit code) (emit code) where
  shrinks := shrinks_of_rest fun s a t h => by
    rw [emit_eq] at h
    cases run : code s.out with
    | ok a out =>
      rw [run] at h
      cases h
      rfl
    | error e out =>
      rw [run] at h
      cases h
  mirrors s s' mirrors := by
    rw [emit_eq, emit_eq, mirrors.out]
    cases code s.out with
    | ok a out => exact fun _ => ⟨_, rfl, { mirrors with out := rfl }⟩
    | error e out => exact .inr ⟨_, _, rfl, rfl⟩

lemma mirrored_stringOperand (first : Token) :
    Mirrored c Tree.unplaced (stringOperand first) (stringOperand first.unplaced) := by
  refine mirrored_emit.bind fun _ => .bind (.iterate id id rfl fun _ => .bind (f := id) ?_ fun more => ?_)
    fun _ => mirrored_emit.bind fun _ => mirrored_pure rfl
  · exact mirrored_peek.bind fun _ => mirrored_pure rfl
  · dsimp only [id]
    split
    · exact mirrored_advance.bind fun _ => mirrored_pure rfl
    · exact mirrored_pure rfl

lemma mirrored : PairedReading (Mirrored c) where
  pure := mirrored_pure
  fail _ := mirrored_fail
  bind := Mirrored.bind
  peek := mirrored_peek
  table := mirrored_table
  symbol := mirrored_symbol
  update _ _ _ _ := mirrored_modifyTable
  advance := mirrored_advance
  iterate := Mirrored.iterate
  string := mirrored_stringOperand
  onlyVoid := mirrored_onlyVoid

lemma mirroredBody : PairedBody (Mirrored c.inBody) where
  toPairedReading := mirrored
  levels same h := mirrored_look (fun s s' mirrors => (mirrors.levels trivial).elim (same s s')) h
  loops count := mirrored_modify (fun _ => rfl) fun _ _ mirrors =>
    { mirrors with levels := fun h => (mirrors.levels h).imp (congrArg count) id }
  switches count := mirrored_modify (fun _ => rfl) fun _ _ mirrors =>
    { mirrors with levels := fun h => (mirrors.levels h).imp id (congrArg count) }

end Parse

/-- Each part of one grammar reads as the same part of another does. -/
structure Grammar.Mirrored (c : Parse.Comparison) (g g' : Grammar) : Prop extends
    g.Paired (Parse.Mirrored c) g' where
  declaration : ∀ storage end1 end2,
    Parse.Mirrored c (Prod.map id (List.map Tree.unplaced)) (g.declaration storage end1 end2)
      (g'.declaration storage end1 end2)
  statement : Parse.Mirrored c.inBody Tree.unplaced g.statement g'.statement
  block : ∀ inSwitch, Parse.Mirrored c.inBody Tree.unplaced (g.block inSwitch) (g'.block inSwitch)

end SmallC
