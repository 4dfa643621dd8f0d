import SmallC.Proofs.Parse.Primitives

/-!
# Both ways that reading ends

`Runs x s Q E` says what holds however reading `x` from the state `s` ends: `Q` of its outcome and of
the state then, or `E` of what is wrong and of the state where reading broke off. It breaks off with a
diagnostic at the token then in front. For each step that looks at tokens or at the tables: what is left to
show of a sequence that begins with it.
-/

namespace SmallC.Parse

variable {fault : Fault}

def Runs {α : Type} (x : Parse α) (s : ParseState) (Q : α → ParseState → Prop)
    (E : Fault → ParseState → Prop) : Prop :=
  match x s with
  | .ok a s' => Q a s'
  | .error d s' => d = s'.diagnostic d.fault ∧ E d.fault s'

variable {α β : Type} {s : ParseState} {Q : α → ParseState → Prop} {E : Fault → ParseState → Prop}
variable {f : β → Parse α}

namespace Runs

section
variable {x : Parse α} {P : α → ParseState → Prop} {F : Fault → ParseState → Prop}

lemma bind {x : Parse β} {P : β → ParseState → Prop} (hx : Runs x s P E)
    (hf : ∀ b s1, P b s1 → Runs (f b) s1 Q E) : Runs (x >>= f) s Q E := by
  unfold Runs at hx ⊢
  change match EStateM.bind x f s with | .ok a s' => _ | .error d s' => _
  unfold EStateM.bind
  cases run : x s with
  | ok b s1 =>
    rw [run] at hx
    exact hf b s1 hx
  | error d s1 =>
    rw [run] at hx
    exact hx

lemma imp (hx : Runs x s P F) (h : ∀ a s', P a s' → Q a s')
    (he : ∀ fault s', F fault s' → E fault s') : Runs x s Q E := by
  unfold Runs at hx ⊢
  cases run : x s with
  | ok a s' =>
    rw [run] at hx
    exact h a s' hx
  | error d s' =>
    rw [run] at hx
    exact hx.imp_right (he d.fault s')

lemma mono (hx : Runs x s P E) (h : ∀ a s', P a s' → Q a s') :
    Runs x s Q E := hx.imp h fun _ _ h => h

lemma ends (hx : Runs x s Q E) : Ends x s Q := by
  intro a s' run
  rwa [Runs, run] at hx

lemma also (hx : Runs x s P E) (h : Ends x s Q) : Runs x s (fun a s' => P a s' ∧ Q a s') E := by
  unfold Runs at hx ⊢
  cases run : x s with
  | ok a s' =>
    rw [run] at hx
    exact ⟨hx, h a s' run⟩
  | error d s' =>
    rw [run] at hx
    exact hx

lemma given (hx : Runs x s P E) (h : Ends x s Q) : Runs x s Q E := (hx.also h).mono fun _ _ => And.right

lemma error (hx : Runs x s Q E) {d : Diagnostic} {s' : ParseState} (run : x s = .error d s') :
    d = s'.diagnostic d.fault ∧ E d.fault s' := by
  rwa [Runs, run] at hx

end

lemma iterate {step : β → Parse (β ⊕ α)} {b : β} (P : β → ParseState → Prop) (start : P b s)
    (exhausted : ∀ b s', P b s' → E .exhausted s')
    (round : ∀ b s, P b s → Runs (step b) s (fun r s' => r.elim (P · s') (Q · s')) E) :
    Runs (iterate step b) s Q E := by
  change Runs (iterateUpTo step s.bound b) s Q E
  generalize s.bound = bound
  induction bound generalizing b s with
  | zero => exact ⟨rfl, exhausted b s start⟩
  | succ bound ih =>
    refine (round b s start).bind ?_
    rintro (b' | a) s1 kept
    · exact ih kept
    · exact kept

end Runs

@[simp] lemma runs_pure {a : α} : Runs (pure a) s Q E ↔ Q a s := Iff.rfl

@[simp] lemma runs_fail : Runs (fail fault) s Q E ↔ E fault s := and_iff_right rfl

@[simp] lemma runs_fail_bind : Runs ((fail fault : Parse β) >>= f) s Q E ↔ E fault s := and_iff_right rfl

section
variable {kind : TokenKind} {what : Text} {f : Token → Parse α}

@[simp] lemma runs_ite {c : Prop} [Decidable c] {x y : Parse α} :
    Runs (if c then x else y) s Q E ↔ (c → Runs x s Q E) ∧ (¬ c → Runs y s Q E) := by
  by_cases h : c <;> simp [h]

/-! ## Tokens -/

@[simp] lemma runs_peek : Runs (peek >>= f) s Q E ↔ Runs (f s.front) s Q E := Iff.rfl

@[simp] lemma runs_peekNext :
    Runs (peekNext >>= f) s Q E ↔ Runs (f s.advanced.front) s Q E := Iff.rfl

@[simp] lemma runs_isAt {f : Bool → Parse α} :
    Runs (isAt kind >>= f) s Q E ↔ Runs (f (decide (s.front.kind = kind))) s Q E := Iff.rfl

@[simp] lemma runs_advance : Runs (advance >>= f) s Q E ↔ Runs (f s.front) s.advanced Q E := Iff.rfl

lemma expect_eq (kind : TokenKind) (what : Text) (s : ParseState) : expect kind what s =
      if s.front.kind = kind then .ok s.front s.advanced else fail (.expected what) s := by
  change (if decide (s.front.kind = kind) = true then advance else fail (.expected what)) s = _
  by_cases h : s.front.kind = kind
  · rw [if_pos h, if_pos (decide_eq_true h)]
    rfl
  · rw [if_neg h, if_neg (by simpa using h)]

@[simp] lemma runs_expect :
    Runs (expect kind what >>= f) s Q E ↔ (s.front.kind = kind → Runs (f s.front) s.advanced Q E) ∧
        (s.front.kind ≠ kind → E (.expected what) s) := by
  have run : (expect kind what >>= f) s = EStateM.bind (expect kind what) f s := rfl
  unfold Runs
  rw [run, EStateM.bind, expect_eq]
  by_cases h : s.front.kind = kind
  · rw [if_pos h]
    exact ⟨fun e => ⟨fun _ => e, fun k => absurd h k⟩, fun e => e.1 h⟩
  · rw [if_neg h]
    exact ⟨fun e => ⟨fun k => absurd k h, fun _ => e.2⟩, fun e => ⟨rfl, e.2 h⟩⟩

end

@[simp] lemma runs_expectIdentifier {f : Text → Parse α} : Runs (expectIdentifier >>= f) s Q E ↔
      (s.front.kind = .identifier → Runs (f s.front.lexeme) s.advanced Q E) ∧
        (s.front.kind ≠ .identifier → E (.expected "identifier") s) := by
  rw [expectIdentifier, bind_assoc]
  exact runs_expect

lemma skip_eq (kind : TokenKind) (s : ParseState) :
    skip kind s = .ok () (if s.front.kind = kind then s.advanced else s) := by
  change (if decide (s.front.kind = kind) = true then _ else _ : Parse Unit) s = _
  by_cases h : s.front.kind = kind
  · rw [if_pos h, if_pos (decide_eq_true h)]
    rfl
  · rw [if_neg h, if_neg (by simpa using h)]
    rfl

@[simp] lemma runs_skip {kind : TokenKind} {f : Unit → Parse α} : Runs (skip kind >>= f) s Q E ↔
      Runs (f ()) (if s.front.kind = kind then s.advanced else s) Q E := by
  have run : (skip kind >>= f) s = EStateM.bind (skip kind) f s := rfl
  unfold Runs
  rw [run, EStateM.bind, skip_eq]

/-! ## The state -/

@[simp] lemma runs_get {f : ParseState → Parse α} :
    Runs ((get : Parse ParseState) >>= f) s Q E ↔ Runs (f s) s Q E := Iff.rfl

@[simp] lemma runs_modify {g : ParseState → ParseState} {f : PUnit → Parse α} :
    Runs ((modify g : Parse PUnit) >>= f) s Q E ↔ Runs (f ⟨⟩) (g s) Q E := Iff.rfl

@[simp] lemma runs_modifyGet {g : ParseState → β × ParseState} :
    Runs ((modifyGet g : Parse β) >>= f) s Q E ↔ Runs (f (g s).1) (g s).2 Q E := Iff.rfl

@[simp] lemma runs_table {f : SymbolTable → Parse α} :
    Runs (table >>= f) s Q E ↔ Runs (f s.table) s Q E := Iff.rfl

@[simp] lemma runs_symbol {id : SymId} {f : Symbol → Parse α} :
    Runs (symbol id >>= f) s Q E ↔ Runs (f (s.table.get id)) s Q E := Iff.rfl

@[simp] lemma runs_withTable {f : SymbolTable → α × SymbolTable} :
    Runs (withTable f) s Q E ↔ Q (f s.table).1 { s with table := (f s.table).2 } := Iff.rfl

@[simp] lemma runs_withTable_bind {g : SymbolTable → β × SymbolTable} :
    Runs (withTable g >>= f) s Q E ↔
      Runs (f (g s.table).1) { s with table := (g s.table).2 } Q E := Iff.rfl

@[simp] lemma runs_modifyTable {f : SymbolTable → SymbolTable} {Q : Unit → ParseState → Prop} :
    Runs (modifyTable f) s Q E ↔ Q () { s with table := f s.table } := Iff.rfl

@[simp] lemma runs_modifyTable_bind {g : SymbolTable → SymbolTable} {f : Unit → Parse α} :
    Runs (modifyTable g >>= f) s Q E ↔ Runs (f ()) { s with table := g s.table } Q E := Iff.rfl

lemma runs_emit {code : Lower α} (ok : ∀ a out, code s.out = .ok a out → Q a { s with out })
    (error : ∀ e out, code s.out = .error e out → E (.lowering e) { s with out }) :
    Runs (emit code) s Q E := by
  unfold Runs
  rw [emit_eq]
  cases run : code s.out with
  | ok a out => exact ok a out run
  | error e out => exact ⟨rfl, error e out run⟩

@[simp] lemma runs_ofType_bind {x : Except TypeFault β} : Runs (ofType x >>= f) s Q E ↔
      (∀ b, x = .ok b → Runs (f b) s Q E) ∧ ∀ e, x = .error e → E (.lowering (.type e)) s := by
  cases x with
  | ok b => simp [ofType]
  | error e => simp [ofType]

end SmallC.Parse
