import SmallC.Proofs.Outcome
import SmallC.Session

/-!
# Steps of reading

`Ends x s Q` says that wherever reading `x` from the state `s` ends without a diagnostic, `Q` holds
of its outcome and of the state then. For each step that looks at tokens or at the tables: what is
left to show of a sequence that begins with it.

Nothing is said about the diagnostics.
-/

namespace SmallC

namespace ParseState

def front (s : ParseState) : Token := s.rest.headD default

/-- What is said to be wrong at the token in front. -/
def diagnostic (s : ParseState) (fault : Fault) : Diagnostic :=
  { fault, line := s.front.line, file := if s.front.file = [] then s.file else s.front.file }

@[simps table out functions loops switches]
def advanced (s : ParseState) : ParseState := { s with rest := s.rest.tail }

lemma rest_eq_of_front {s : ParseState} (h : s.front.kind ≠ .eof) : s.rest = s.front :: s.advanced.rest := by
  unfold front advanced at *
  cases rest : s.rest with
  | nil =>
    rw [rest] at h
    exact absurd rfl h
  | cons t ts => rfl

end ParseState

namespace Parse

variable {fault : Fault}

def Ends {α : Type} (x : Parse α) (s : ParseState) (Q : α → ParseState → Prop) : Prop :=
  ∀ a s', x s = .ok a s' → Q a s'

variable {α β : Type} {s : ParseState} {Q : α → ParseState → Prop}
variable {f : β → Parse α} {x : Parse α}

namespace Ends

lemma bind {x : Parse β} {P : β → ParseState → Prop} (hx : Ends x s P)
    (hf : ∀ b s1, P b s1 → Ends (f b) s1 Q) : Ends (x >>= f) s Q := by
  intro a s' h
  obtain ⟨b, s1, h1, h⟩ := bind_eq_ok.mp h
  exact hf b s1 (hx b s1 h1) a s' h

lemma later {x : Parse β} (hf : ∀ b s1, Ends (f b) s1 Q) : Ends (x >>= f) s Q :=
  bind (P := fun _ _ => True) (fun _ _ _ => trivial) fun b s1 _ => hf b s1

lemma mono {P : α → ParseState → Prop} (hx : Ends x s P) (h : ∀ a s', P a s' → Q a s') : Ends x s Q :=
  fun a s' ha => h a s' (hx a s' ha)

lemma and {P : α → ParseState → Prop} (hx : Ends x s P) (hy : Ends x s Q) :
    Ends x s fun a s' => P a s' ∧ Q a s' :=
  fun a s' h => ⟨hx a s' h, hy a s' h⟩

lemma iterate {step : β → Parse (β ⊕ α)} {b : β} (P : β → ParseState → Prop) (start : P b s)
    (round : ∀ b s, P b s → Ends (step b) s fun r s' => r.elim (P · s') (Q · s')) :
    Ends (iterate step b) s Q := by
  intro a s' h
  have run : iterateUpTo step s.bound b s = .ok a s' := h
  clear h
  generalize s.bound = bound at run
  induction bound generalizing b s with
  | zero => cases run
  | succ bound ih =>
    obtain ⟨r, s1, h1, run⟩ := bind_eq_ok.mp run
    have kept := round b s start r s1 h1
    cases r with
    | inl b' => exact ih kept run
    | inr a' =>
      obtain ⟨rfl, rfl⟩ := pure_eq_ok.mp run
      exact kept

end Ends

@[simp] lemma ends_pure {a : α} : Ends (pure a) s Q ↔ Q a s :=
  ⟨fun h => h a s rfl, fun h a' s' h' => by
    obtain ⟨rfl, rfl⟩ := pure_eq_ok.mp h'
    exact h⟩

@[simp] lemma ends_fail : Ends (fail fault) s Q ↔ True :=
  iff_true_intro fun a s' h => by cases h

@[simp] lemma ends_fail_bind : Ends ((fail fault : Parse β) >>= f) s Q ↔ True :=
  iff_true_intro (Ends.bind (P := fun _ _ => False) (ends_fail.mpr trivial) fun _ _ h => h.elim)

section
variable {kind : TokenKind} {what : Text} {f : Token → Parse α}

@[simp] lemma ends_ite {c : Prop} [Decidable c] {y : Parse α} :
    Ends (if c then x else y) s Q ↔ (c → Ends x s Q) ∧ (¬ c → Ends y s Q) := by
  by_cases h : c <;> simp [h]

/-! ## Tokens -/

@[simp] lemma ends_peek : Ends (peek >>= f) s Q ↔ Ends (f s.front) s Q := Iff.rfl

@[simp] lemma ends_peekNext : Ends (peekNext >>= f) s Q ↔ Ends (f s.advanced.front) s Q := Iff.rfl

@[simp] lemma ends_isAt {f : Bool → Parse α} :
    Ends (isAt kind >>= f) s Q ↔ Ends (f (decide (s.front.kind = kind))) s Q := Iff.rfl

@[simp] lemma ends_advance : Ends (advance >>= f) s Q ↔ Ends (f s.front) s.advanced Q := Iff.rfl

lemma expect_eq_ok {t : Token} {s' : ParseState} (h : expect kind what s = .ok t s') :
    s.front.kind = kind ∧ t = s.front ∧ s' = s.advanced := by
  have : Ends (expect kind what) s fun t s' => s.front.kind = kind ∧ t = s.front ∧ s' = s.advanced := by
    simp only [expect, ends_isAt, ends_ite, ends_fail, decide_eq_true_eq, implies_true, and_true]
    intro hk t s' h
    cases h
    exact ⟨hk, rfl, rfl⟩
  exact this t s' h

lemma ends_expect (h : s.front.kind = kind → Ends (f s.front) s.advanced Q) :
    Ends (expect kind what >>= f) s Q := by
  refine Ends.bind (fun t s1 ht => expect_eq_ok ht) ?_
  rintro t s1 ⟨hk, rfl, rfl⟩
  exact h hk

end

lemma ends_expectIdentifier {f : Text → Parse α}
    (h : s.front.kind = .identifier → Ends (f s.front.lexeme) s.advanced Q) :
    Ends (expectIdentifier >>= f) s Q := by
  rw [expectIdentifier, bind_assoc]
  exact ends_expect h

lemma ends_skip {kind : TokenKind} {f : Unit → Parse α} (h1 : Ends (f ()) s.advanced Q)
    (h2 : Ends (f ()) s Q) : Ends (skip kind >>= f) s Q := by
  have : Ends (skip kind) s fun _ s' => s' = s.advanced ∨ s' = s := by
    simp only [skip, ends_isAt, ends_ite, ends_advance, ends_pure, true_or, or_true, implies_true,
      and_self]
  refine this.bind ?_
  rintro - s1 (rfl | rfl)
  · exact h1
  · exact h2

/-! ## The state -/

@[simp] lemma ends_get {f : ParseState → Parse α} :
    Ends ((get : Parse ParseState) >>= f) s Q ↔ Ends (f s) s Q := Iff.rfl

@[simp] lemma ends_modify {g : ParseState → ParseState} {f : PUnit → Parse α} :
    Ends ((modify g : Parse PUnit) >>= f) s Q ↔ Ends (f ⟨⟩) (g s) Q := Iff.rfl

@[simp] lemma ends_modifyGet {g : ParseState → β × ParseState} :
    Ends ((modifyGet g : Parse β) >>= f) s Q ↔ Ends (f (g s).1) (g s).2 Q := Iff.rfl

@[simp] lemma ends_table {f : SymbolTable → Parse α} :
    Ends (table >>= f) s Q ↔ Ends (f s.table) s Q := Iff.rfl

@[simp] lemma ends_symbol {id : SymId} {f : Symbol → Parse α} :
    Ends (symbol id >>= f) s Q ↔ Ends (f (s.table.get id)) s Q := Iff.rfl

@[simp] lemma ends_withTable {f : SymbolTable → α × SymbolTable} :
    Ends (withTable f) s Q ↔ Q (f s.table).1 { s with table := (f s.table).2 } :=
  ends_pure (s := { s with table := (f s.table).2 })

@[simp] lemma ends_withTable_bind {g : SymbolTable → β × SymbolTable} :
    Ends (withTable g >>= f) s Q ↔
      Ends (f (g s.table).1) { s with table := (g s.table).2 } Q := Iff.rfl

@[simp] lemma ends_modifyTable {f : SymbolTable → SymbolTable} {Q : Unit → ParseState → Prop} :
    Ends (modifyTable f) s Q ↔ Q () { s with table := f s.table } := ends_withTable

@[simp] lemma ends_modifyTable_bind {g : SymbolTable → SymbolTable} {f : Unit → Parse α} :
    Ends (modifyTable g >>= f) s Q ↔ Ends (f ()) { s with table := g s.table } Q := Iff.rfl

lemma emit_eq (code : Lower α) (s : ParseState) : emit code s = match code s.out with
      | .ok a out => .ok a { s with out }
      | .error e out => (fail (.lowering e) : Parse α) { s with out } := by
  unfold emit
  change EStateM.bind _ _ s = _
  unfold EStateM.bind
  simp only [modifyGet, MonadStateOf.modifyGet, EStateM.modifyGet]
  cases code s.out <;> rfl

lemma ends_emit {code : Lower α} (h : ∀ a out, code s.out = .ok a out → Q a { s with out }) :
    Ends (emit code) s Q := by
  intro a s' ha
  rw [emit_eq] at ha
  cases hc : code s.out with
  | ok b out =>
    rw [hc] at ha
    cases ha
    exact h a out hc
  | error e out =>
    rw [hc] at ha
    cases ha

@[simp] lemma ends_ofType_bind {x : Except TypeFault β} :
    Ends (ofType x >>= f) s Q ↔ ∀ b, x = .ok b → Ends (f b) s Q := by
  cases x with
  | ok b => simp [ofType]
  | error e => simp [ofType]

@[simp] lemma ends_conversion {l r : CType} {ctype : Option SymId} {op : Op}
    {f : Option Conversion → Parse α} :
    Ends (conversion l r ctype op >>= f) s Q ↔
      ∀ c, Conversion.between l r (s.table.symbols.definedSize ctype) op = .ok c →
        Ends (f c) s Q := by
  simp only [conversion, bind_assoc, ends_table, ends_ofType_bind]

lemma ends_isTypeName {f : Bool → Parse α} (h : ∀ b, Ends (f b) s Q) :
    Ends (isTypeName >>= f) s Q := h _

end Parse

/-! ## Sources -/

namespace Session

variable {s : Session} {source code : Text} {tokens : List Token} {t : ParseState}

lemma compile_of_file (lexed : lex source s.file = (tokens, none)) (run : Parse.file (s.start tokens) = .ok () t) :
    (s.compile source).1.outcome = .ok t.out.text ∧ (s.compile source).1.functions = t.functions.toList ∧
      (s.compile source).2 = { s with table := t.table.purgeStatics, out := t.out } := by
  rw [compile, lexed]
  dsimp only
  rw [run]
  exact ⟨rfl, rfl, rfl⟩

lemma compile_of_error {d : Diagnostic} (lexed : lex source s.file = (tokens, none))
    (run : Parse.file (s.start tokens) = .error d t) :
    (s.compile source).1.outcome = .error d ∧ (s.compile source).1.functions = t.functions.toList := by
  rw [compile, lexed]
  dsimp only
  rw [run]
  exact ⟨rfl, rfl⟩

lemma compile_eq_ok : (s.compile source).1.outcome = .ok code ↔
    ∃ tokens t, lex source s.file = (tokens, none) ∧ Parse.file (s.start tokens) = .ok () t ∧
      code = t.out.text := by
  constructor
  · intro h
    unfold compile at h
    split at h
    · cases h
    · rename_i tokens lexed
      cases run : Parse.file (s.start tokens) with
      | error d t =>
        rw [run] at h
        cases h
      | ok u t =>
        rw [run] at h
        cases h
        exact ⟨tokens, t, lexed, run, rfl⟩
  · rintro ⟨tokens, t, lexed, run, rfl⟩
    exact (compile_of_file lexed run).1

end Session
end SmallC
