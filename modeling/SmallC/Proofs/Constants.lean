import SmallC.Proofs.Folding
import SmallC.Proofs.Parse.Primitives

/-!
# Expressions of literals

Integers, parentheses, `-`, `~`, `!` and the operators `+`, `-`, `*`, `/`: the tokens that spell such an
expression, its type, and the value that folding leaves of it. A literal below 256 is a char and any other an
int. Where both stand beside each other the char is widened, which is not folded.
-/

namespace SmallC

variable (i : Info) (op : Op) (a : Tree)

/-- An operator between two operands that groups to the left. -/
def TokenKind.joins : TokenKind → Bool
  | .orLogical | .andLogical | .pipe | .caret | .amp | .equals | .notEquals | .less | .greater
  | .lessEq | .greaterEq | .shiftLeft | .shiftRight | .plus | .minus | .star | .slash | .percent => true
  | _ => false

def Token.power (t : Token) : Nat := t.kind.power?.getD 0

/-- An expression of literals as it is written. -/
inductive Constant where
  | literal (v : Int64)
  | grouped (e : Constant)
  | unary (sign : TokenKind) (e : Constant)
  | binary (sign : TokenKind) (a b : Constant)

namespace Constant

def power : Constant → Nat
  | .binary sign _ _ => sign.power?.getD 0
  | _ => 200

def type : Constant → CType
  | .literal v => if 0 ≤ v && v < 256 then .char else .int
  | .grouped e => e.type
  | .unary sign e => if sign = .minus then .int else e.type
  | .binary _ a b => if a.type = b.type then a.type else .int

/-- The value that folding leaves, if it leaves a literal. -/
def value? : Constant → Option Int64
  | .literal v => some v
  | .grouped e => e.value?
  | .unary sign e => e.value?.bind fun v =>
    match sign with
    | .tilde => some (~~~v)
    | .bang => some (if v = 0 then 1 else 0)
    | _ => none
  | .binary sign a b => do
    let v ← a.value?
    let w ← b.value?
    if a.type = b.type then sign.binaryOp.arith?.bind (·.wide v w) else none

/-- Tokens spell an expression. To the left of an operator stands what binds at least as tightly, and to
its right what binds more tightly. -/
inductive Spells : Constant → List Token → Prop
  | literal {t : Token} (kind : t.kind = .integer) : Spells (.literal t.value) [t]
  | grouped {e : Constant} {opening closing : Token} {ts : List Token} (first : opening.kind = .lparen)
      (last : closing.kind = .rparen) (h : Spells e ts) :
      Spells (.grouped e) (opening :: ts ++ [closing])
  | unary {e : Constant} {t : Token} {ts : List Token} (sign : t.kind ∈ [.minus, .tilde, .bang])
      (operand : e.power = 200) (h : Spells e ts) : Spells (.unary t.kind e) (t :: ts)
  | binary {a b : Constant} {t : Token} {ts us : List Token}
      (sign : t.kind ∈ [.plus, .minus, .star, .slash]) (left : t.kind.power?.getD 0 ≤ a.power)
      (right : t.kind.power?.getD 0 < b.power) (ha : Spells a ts) (hb : Spells b us) :
      Spells (.binary t.kind a b) (ts ++ t :: us)

lemma type_cases (e : Constant) : e.type = .char ∨ e.type = .int := by
  induction e with
  | literal v => unfold type; split <;> simp
  | grouped e ih => exact ih
  | unary sign e ih => unfold type; split <;> simp [ih]
  | binary sign a b iha ihb => unfold type; split <;> simp [iha]

end Constant

namespace Tree

def literal? : Tree → Option Int64
  | .intLit _ v => some v
  | _ => none

def isArithmetic : Tree → Bool
  | .intLit .. | .unary .. | .binary .. => true
  | _ => false

structure Denotes (t : Tree) (e : Constant) : Prop where
  arithmetic : t.isArithmetic = true
  type : t.type = e.type
  value : t.fold.literal? = e.value?

lemma literal?_foldBinary (b : Tree) : (foldBinary i op a b).literal? = wide? op a b := by
  rw [foldBinary_eq]
  cases wide? op a b <;> rfl

lemma literal?_foldUnary : (foldUnary i op a).literal? = wideOne? op a := by
  rw [foldUnary_eq]
  cases wideOne? op a <;> rfl

lemma literal?_fold_mapInfo (f : Info → Info) (t : Tree) :
    (t.mapInfo f).fold.literal? = t.fold.literal? := by
  cases t with
  | binary i op a b => simp only [mapInfo, fold, literal?_foldBinary]
  | unary i op a => simp only [mapInfo, fold, literal?_foldUnary]
  | _ => rfl

lemma wide?_eq (b : Tree) :
    wide? op a b = a.literal?.bind fun v => b.literal?.bind fun w => op.arith?.bind (·.wide v w) := by
  cases a with
  | intLit i v => cases b <;> rfl
  | _ => rfl

lemma wideOne?_eq : wideOne? op a = a.literal?.bind fun v => wideOne? op (.intLit {} v) := by
  cases a <;> rfl

namespace Denotes

variable {t l r : Tree} {e a b : Constant}
variable {sign : TokenKind}

lemma asRvalue (h : t.Denotes e) : t.asRvalue.Denotes e := by
  refine ⟨?_, ?_, (literal?_fold_mapInfo _ t).trans h.value⟩
  · rw [← h.arithmetic]
    cases t <;> rfl
  · rw [← h.type]
    cases t <;> rfl

lemma fold_eq {v : Int64} (h : t.Denotes e) (hv : e.value? = some v) :
    ∃ i, t.fold = .intLit i v ∧ i.type = e.type := by
  have value := h.value.trans hv
  have type := (type_fold t).trans h.type
  cases folded : t.fold with
  | intLit i w =>
    rw [folded] at value type
    exact ⟨i, by rw [Option.some.inj value], type⟩
  | _ =>
    rw [folded] at value
    cases value

lemma literal (t : Token) (line : Int64) :
    (Tree.intLit { type := if 0 ≤ t.value && t.value < 256 then .char else .int, line } t.value).Denotes
      (.literal t.value) := ⟨rfl, rfl, rfl⟩

lemma type_withType (h : t.Denotes e) (type : CType) : (t.withType type).type = type := by
  have := h.arithmetic
  cases t with
  | intLit | unary | binary => rfl
  | _ => cases this

lemma operand (h : t.Denotes e) (sign : TokenKind) :
    let u := if sign = .minus && t.type = .char then t.withType .int else t
    u.type = (Constant.unary sign e).type ∧ u.fold.literal? = e.value? := by
  intro u
  constructor
  · simp only [u, Constant.type, Bool.and_eq_true, decide_eq_true_eq, h.type]
    by_cases minus : sign = .minus
    · rcases e.type_cases with char | int
      · simp [minus, char, h.type_withType]
      · simp [minus, int, h.type]
    · simp [minus, h.type]
  · simp only [u, apply_ite (fun u : Tree => u.fold.literal?), Tree.withType, literal?_fold_mapInfo,
      h.value, ite_self]

lemma unary (h : t.Denotes e) (hs : sign ∈ [.minus, .tilde, .bang]) (line : Int64) :
    (Parse.unaryOf sign t line).Denotes (.unary sign e) := by
  obtain ⟨type, value⟩ := h.asRvalue.operand sign
  refine ⟨rfl, type, ?_⟩
  simp only [Parse.unaryOf, fold, literal?_foldUnary, Constant.value?]
  rw [wideOne?_eq, value]
  simp only [List.mem_cons, List.not_mem_nil, or_false] at hs
  rcases hs with rfl | rfl | rfl <;> rfl

lemma binary_same {i : Info} (hl : l.Denotes a) (hr : r.Denotes b) (same : a.type = b.type)
    (type : i.type = l.type) : (Tree.binary i sign.binaryOp l r).Denotes (.binary sign a b) := by
  refine ⟨rfl, ?_, ?_⟩
  · rw [Constant.type, if_pos same]
    exact type.trans hl.type
  · rw [fold, literal?_foldBinary, wide?_eq, hl.value, hr.value]
    simp [Constant.value?, same]

lemma binary_mixed {i : Info} (mixed : a.type ≠ b.type) (type : i.type = .int)
    (widened : l.fold.literal? = none ∨ r.fold.literal? = none) :
    (Tree.binary i sign.binaryOp l r).Denotes (.binary sign a b) := by
  refine ⟨rfl, ?_, ?_⟩
  · rw [Constant.type, if_neg mixed]
    exact type
  · have none : (Constant.binary sign a b).value? = none := by simp [Constant.value?, mixed]
    rw [fold, literal?_foldBinary, wide?_eq, none]
    rcases widened with h | h <;> simp [h]

end Denotes
end Tree

lemma between_constants {a b : Constant} {defined : Option Int64} {op : Op} (hop : op.isLogical = false) :
    Conversion.between a.type b.type defined op =
      .ok (if a.type = b.type then some .keep else if a.type = .char then some .widen else none) := by
  rw [Conversion.between, hop]
  rcases a.type_cases with ha | ha <;> rcases b.type_cases with hb | hb <;> rw [ha, hb] <;> rfl

namespace Parse

variable {s : ParseState} {l r : Tree} {a b : Constant} {sign : TokenKind}
variable {g : Grammar}

lemma binary_denotes (hl : l.Denotes a) (hr : r.Denotes b)
    (hs : sign ∈ [TokenKind.plus, .minus, .star, .slash]) {line : Int64} :
    Ends (binary sign.binaryOp l r line) s fun t s' => t.Denotes (.binary sign a b) ∧ s' = s := by
  have hl := hl.asRvalue
  have hr := hr.asRvalue
  have plain : sign.binaryOp.isLogical = false ∧ sign.binaryOp.isComparison = false := by
    simp only [List.mem_cons, List.not_mem_nil, or_false] at hs
    rcases hs with rfl | rfl | rfl | rfl <;> exact ⟨rfl, rfl⟩
  simp only [binary, hl.type, hr.type, ends_conversion, between_constants plain.1, plain.1,
    plain.2, Bool.false_eq_true, if_false]
  rintro _ ⟨⟩ _ ⟨⟩
  by_cases same : a.type = b.type
  · simp only [same, if_true, reduceCtorEq, decide_false, Bool.and_self, Bool.false_eq_true, if_false,
      ends_pure, and_true]
    exact hl.binary_same hr same rfl
  · simp only [if_neg same, if_neg (Ne.symm same)]
    rcases a.type_cases with ha | ha <;> rcases b.type_cases with hb | hb
    · exact absurd (ha.trans hb.symm) same
    · simp only [ha, hb, if_true, reduceCtorEq, decide_false, Bool.false_and, Bool.false_eq_true,
        if_false, ends_pure, and_true]
      exact .binary_mixed same rfl (.inl rfl)
    · simp only [ha, hb, if_true, reduceCtorEq, decide_false, Bool.and_false, Bool.false_eq_true,
        if_false, ends_pure, and_true]
      exact .binary_mixed same (hl.type.trans ha) (.inr rfl)
    · exact absurd (ha.trans hb.symm) same

/-! ## Reading -/

/-- An operand does not go on behind operators that bind as tightly as a power, at the token. -/
def stops (power : Nat) (kind : TokenKind) : Bool :=
  kind.endsExpression || !kind.isAssignment && kind.power?.any (· ≤ power)

lemma stops_mono {q : Nat} {kind : TokenKind} (h : stops p kind = true) (le : p ≤ q) :
    stops q kind = true := by
  simp only [stops, Bool.or_eq_true, Bool.and_eq_true, Option.any_eq_true, decide_eq_true_eq] at h ⊢
  refine h.imp_right fun ⟨plain, m, hm, small⟩ => ⟨plain, m, hm, Nat.le_trans small le⟩

variable {α : Type} {n p : Nat} {k ts : List Token} {e : Constant} {Q : Tree → ParseState → Prop}

variable {t : Token} {s' : ParseState} {m q : Nat}

/-! What each step does to the state. -/

lemma front_of_rest (rest : s.rest = t :: k) : s.front = t := by
  rw [ParseState.front, rest]
  rfl

lemma advanced_of_rest (rest : s.rest = t :: k) : s.advanced = { s with rest := k } := by
  rw [ParseState.advanced, rest]
  rfl

lemma Ends.of_eq {x y : Parse α} {R : α → ParseState → Prop} (same : x s = y s') (h : Ends y s' R) :
    Ends x s R :=
  fun o s1 run => h o s1 (same ▸ run)

section
variable {β : Type} {f : Token → Parse α} {kind : TokenKind} {step : β → Parse (β ⊕ α)} {b : β}

lemma run_peek : (peek >>= f) s = f s.front s := rfl

lemma run_advance : (advance >>= f) s = f s.front s.advanced := rfl

lemma run_table {f : SymbolTable → Parse α} : (table >>= f) s = f s.table s := rfl

lemma run_symbol {id : SymId} {f : Symbol → Parse α} : (symbol id >>= f) s = f (s.table.get id) s := rfl

lemma run_isAt {f : Bool → Parse α} : (isAt kind >>= f) s = f (decide (s.front.kind = kind)) s := rfl

lemma run_expect {what : Text} (h : s.front.kind = kind) :
    (expect kind what >>= f) s = f s.front s.advanced := by
  have taken : expect kind what s = .ok s.front s.advanced := by
    unfold expect
    rw [run_isAt, decide_eq_true h, if_pos rfl]
    rfl
  exact bind_of_ok taken

lemma run_iterate : iterate step b s = iterateUpTo step s.bound b s := rfl

lemma run_iterateUpTo_inl {b' : β} (h : step b s = .ok (.inl b') s') :
    iterateUpTo step (m + 1) b s = iterateUpTo step m b' s' :=
  bind_of_ok h

lemma run_iterateUpTo_inr {a : α} (h : step b s = .ok (.inr a) s') (rounds : 0 < m) :
    iterateUpTo step m b s = .ok a s' := by
  obtain ⟨m, rfl⟩ := Nat.exists_eq_succ_of_ne_zero (Nat.ne_of_gt rounds)
  exact bind_of_ok h

end

/-! Operators. -/

lemma joins_goes (joins : t.kind.joins = true) : 0 < t.power ∧ t.power < 200 ∧
    t.kind.power? = some t.power ∧ t.kind.endsExpression = false ∧ t.kind.isAssignment = false := by
  unfold TokenKind.joins at joins
  split at joins
  case h_19 => cases joins
  all_goals
    rename_i kind
    rw [Token.power, kind]
    exact ⟨by decide, by decide, rfl, rfl, rfl⟩

lemma stops_of_joins (joins : t.kind.joins = true) (le : t.power ≤ q) : stops q t.kind = true := by
  obtain ⟨-, -, power, -, plain⟩ := joins_goes joins
  simp [stops, power, plain, le]

lemma continued_stop (h : stops p s.front.kind = true) : continued g p l s = .ok (.inr l.asRvalue) s := by
  unfold continued
  rw [run_peek]
  by_cases last : s.front.kind.endsExpression = true
  · rw [if_pos last]
    rfl
  · simp only [stops, last, Bool.false_or, Bool.and_eq_true, Option.any_eq_true, decide_eq_true_eq,
      Bool.not_eq_true'] at h
    obtain ⟨plain, q, power, small⟩ := h
    simp only [last, Bool.false_eq_true, if_false, power, plain]
    rw [if_pos (by simp; omega)]
    rfl

lemma continued_joins (joins : t.kind.joins = true) (rest : s.rest = t :: k) (more : p < t.power) :
    continued g p l s = (do
      let r ← g.expression t.power
      return .inl (← binary t.kind.binaryOp l r t.line) : Parse (Tree ⊕ Tree)) { s with rest := k } := by
  obtain ⟨-, -, power, goes, plain⟩ := joins_goes joins
  have looser : ¬ (decide (t.power < p) || decide (t.power = p) && !t.kind.isAssignment) = true := by
    simp only [Bool.or_eq_true, Bool.and_eq_true, decide_eq_true_eq]
    omega
  unfold continued
  simp only [run_peek, front_of_rest rest, goes, Bool.false_eq_true, if_false, power, if_neg looser, run_advance,
    advanced_of_rest rest]
  refine congrFun (congrArg _ (funext fun r => ?_)) _
  split
  · rename_i kind
    rw [kind] at joins
    cases joins
  · rename_i kind
    rw [kind] at joins
    cases joins
  · rw [if_neg (by simp [plain])]

lemma operators_end (h : stops p s.front.kind = true) :
    Ends (iterateUpTo (continued g p) m l) s fun t s' => t = l.asRvalue ∧ s' = s := by
  cases m with
  | zero => exact ends_fail.mpr trivial
  | succ m => exact .of_eq (run_iterateUpTo_inr (continued_stop h) m.succ_pos) (ends_pure.mpr ⟨rfl, rfl⟩)

/-! Operands. -/

lemma postfixed_run (h : primary g s = .ok l s') (rounds : 0 < s'.bound) (stop : stops 200 s'.front.kind = true) :
    postfixed g s = .ok l s' := by
  unfold postfixed
  rw [bind_of_ok h, run_iterate]
  refine run_iterateUpTo_inr ?_ rounds
  rw [run_peek]
  refine congrFun (g := (pure (.inr l) : Parse (Tree ⊕ Tree))) ?_ s'
  split
  case h_6 => rfl
  all_goals
    rename_i kind
    rw [kind] at stop
    cases stop

lemma postfixed_stops (h : Ends (primary g) s fun t s1 => stops 200 s1.front.kind = true ∧ Q t s1) :
    Ends (postfixed g) s Q := by
  intro o s' run
  obtain ⟨t, s1, operand, rounds⟩ := bind_eq_ok.mp run
  obtain ⟨stop, holds⟩ := h t s1 operand
  have bound : 0 < s1.bound := by
    refine Nat.pos_of_ne_zero fun none => ?_
    rw [run_iterate, none] at rounds
    cases rounds
  cases (postfixed_run operand bound stop).symm.trans run
  exact holds

lemma unaryExpression_integer (hk : s.front.kind = .integer)
    (stop : stops 200 s.advanced.front.kind = true) :
    Ends (unaryExpression g) s fun t s' => t.Denotes (.literal s.front.value) ∧ s' = s.advanced := by
  simp only [unaryExpression, ends_peek, hk]
  refine postfixed_stops ?_
  simp only [primary, ends_peek, hk, ends_advance, ends_pure]
  exact ⟨stop, .literal _ _, trivial⟩

lemma unaryExpression_sign (hs : s.front.kind ∈ [TokenKind.minus, .tilde, .bang])
    (h : Ends g.unaryExpression s.advanced fun t s' => t.Denotes e ∧ Q (unaryOf s.front.kind t s.front.line) s') :
    Ends (unaryExpression g) s fun t s' => t.Denotes (.unary s.front.kind e) ∧ Q t s' := by
  have read : Ends (g.unaryExpression >>= fun t => pure (unaryOf s.front.kind t s.front.line)) s.advanced
      fun t s' => t.Denotes (.unary s.front.kind e) ∧ Q t s' :=
    h.bind fun t s1 ⟨denotes, holds⟩ => ends_pure.mpr ⟨denotes.unary hs _, holds⟩
  simp only [unaryExpression, ends_peek]
  have signs := hs
  simp only [List.mem_cons, List.not_mem_nil, or_false] at signs
  rcases signs with hk | hk | hk <;> simp only [hk, ends_advance] at read ⊢ <;> exact read

lemma unaryExpression_grouped (hk : s.front.kind = .lparen)
    (first : s.advanced.front.kind.beginsType = false ∧ s.advanced.front.kind ≠ .identifier)
    (h : Ends (g.expression 0) s.advanced fun t s1 => t.Denotes e ∧ s1.front.kind = .rparen ∧
      stops 200 s1.advanced.front.kind = true ∧ Q t s1.advanced) :
    Ends (unaryExpression g) s fun t s' => t.Denotes (.grouped e) ∧ Q t s' := by
  simp only [unaryExpression, ends_peek, hk]
  refine postfixed_stops ?_
  simp only [primary, ends_peek, hk, parenthesised, ends_advance, isTypeName, ends_table, bind_assoc,
    pure_bind, first.1, first.2, decide_false, Bool.false_and, Bool.or_self, Bool.false_eq_true,
    if_false]
  refine h.bind ?_
  rintro t s1 ⟨denotes, -, stop, holds⟩
  refine ends_expect fun _ => ends_pure.mpr ⟨stop, ⟨denotes.arithmetic, denotes.type, denotes.value⟩, holds⟩

lemma joins_of_sign (sign : t.kind ∈ [TokenKind.plus, .minus, .star, .slash]) : t.kind.joins = true := by
  simp only [List.mem_cons, List.not_mem_nil, or_false] at sign
  rcases sign with kind | kind | kind | kind <;> rw [kind] <;> rfl

lemma power_pos (h : e.Spells ts) : 0 < e.power := by
  cases h with
  | binary sign => exact (joins_goes (joins_of_sign sign)).1
  | _ => exact Nat.zero_lt_succ _

lemma spells_front (h : e.Spells ts) :
    ∃ t us, ts = t :: us ∧ t.kind.beginsType = false ∧ t.kind ≠ .identifier := by
  induction h with
  | literal kind => exact ⟨_, _, rfl, by rw [kind]; exact ⟨rfl, nofun⟩⟩
  | grouped first _ _ _ => exact ⟨_, _, rfl, by rw [first]; exact ⟨rfl, nofun⟩⟩
  | unary sign _ _ _ =>
    refine ⟨_, _, rfl, ?_⟩
    simp only [List.mem_cons, List.not_mem_nil, or_false] at sign
    rcases sign with kind | kind | kind <;> rw [kind] <;> exact ⟨rfl, nofun⟩
  | binary _ _ _ _ _ iha _ =>
    obtain ⟨t, us, rfl, first⟩ := iha
    exact ⟨t, _, rfl, first⟩

def ReadsOperand (e : Constant) (ts : List Token) : Prop :=
  ∀ (n : Nat) (s : ParseState) (k : List Token), s.rest = ts ++ k → stops 200 (k.headD default).kind = true →
    Ends (unaryExpression (grammar n)) s fun t s' => t.Denotes e ∧ s' = { s with rest := k }

/-- Tokens that spell an expression, with others behind them: what is left to do is what the operators
behind them ask for. -/
def ReadsExpression (e : Constant) (ts : List Token) : Prop :=
  ∀ (n p : Nat) (s : ParseState) (k : List Token) (Q : Tree → ParseState → Prop), s.rest = ts ++ k →
    p < e.power → stops e.power (k.headD default).kind = true →
    (∀ m t, t.Denotes e → Ends (iterateUpTo (continued (grammar n) p) m t) { s with rest := k } Q) →
    Ends (expression (grammar n) p) s Q

lemma ReadsOperand.expression (h : ReadsOperand e ts) (operand : e.power = 200) : ReadsExpression e ts := by
  intro n p s k Q rest _ stop goesOn
  unfold Parse.expression
  refine (h n s k rest (operand ▸ stop)).bind ?_
  rintro t _ ⟨denotes, rfl⟩
  exact goesOn _ t denotes

lemma ReadsExpression.whole (h : ReadsExpression e ts) (rest : s.rest = ts ++ k) (more : p < e.power)
    (stop : stops p (k.headD default).kind = true) :
    Ends (expression (grammar n) p) s fun t s' => t.Denotes e ∧ s' = { s with rest := k } := by
  refine h n p s k _ rest more (stops_mono stop (Nat.le_of_lt more)) fun m t denotes => ?_
  refine (operators_end stop).mono ?_
  rintro _ _ ⟨rfl, rfl⟩
  exact ⟨denotes.asRvalue, rfl⟩

/-- Reading the tokens of an expression of literals gives a tree of it, whatever the state. -/
theorem spells_reads (h : e.Spells ts) : (e.power = 200 → ReadsOperand e ts) ∧ ReadsExpression e ts := by
  induction h with
  | @literal t kind =>
    have operand : ReadsOperand (.literal t.value) [t] := by
      intro n s k rest stop
      have front := front_of_rest rest
      have advanced := advanced_of_rest rest
      have read := unaryExpression_integer (g := grammar n) (front ▸ kind) (advanced ▸ stop)
      rwa [front, advanced] at read
    exact ⟨fun _ => operand, operand.expression rfl⟩
  | @grouped e opening closing ts first last h ih =>
    have operand : ReadsOperand (.grouped e) (opening :: ts ++ [closing]) := by
      intro n s k rest stop
      have front := front_of_rest rest
      have advanced : s.advanced = { s with rest := ts ++ closing :: k } := by
        rw [ParseState.advanced, rest]; simp
      refine unaryExpression_grouped (front ▸ first) ?_ ?_
      · obtain ⟨t, us, rfl, kind⟩ := spells_front h
        rw [advanced]
        exact kind
      · cases n with
        | zero => exact ends_fail.mpr trivial
        | succ n =>
          refine (ih.2.whole (s := s.advanced) (k := closing :: k) (by rw [advanced]) (power_pos h) ?_).mono ?_
          · simp [stops, last, TokenKind.endsExpression]
          · rintro t _ ⟨denotes, rfl⟩
            exact ⟨denotes, last, stop, by rw [advanced]; rfl⟩
    exact ⟨fun _ => operand, operand.expression rfl⟩
  | @unary e t ts sign operand h ih =>
    have reads : ReadsOperand (.unary t.kind e) (t :: ts) := by
      intro n s k rest stop
      have front := front_of_rest rest
      have advanced := advanced_of_rest rest
      have read := unaryExpression_sign (g := grammar n) (e := e) (Q := fun _ s' => s' = { s with rest := k }) (front ▸ sign) ?_
      · rwa [front] at read
      · cases n with
        | zero => exact ends_fail.mpr trivial
        | succ n =>
          refine (ih.1 operand n s.advanced k (by rw [advanced]; rfl) stop).mono ?_
          rintro u _ ⟨denotes, rfl⟩
          exact ⟨denotes, by rw [advanced]⟩
    exact ⟨fun _ => reads, reads.expression rfl⟩
  | @binary a b t ts us sign left right ha hb iha ihb =>
    have joins := joins_of_sign sign
    refine ⟨fun power => absurd power (Nat.ne_of_lt (joins_goes joins).2.1), fun n p s k Q rest more stop goesOn => ?_⟩
    refine iha.2 n p s (t :: us ++ k) Q (by simp [rest]) (Nat.lt_of_lt_of_le more left)
      (stops_of_joins joins left) fun m l hl => ?_
    cases m with
    | zero => exact ends_fail.mpr trivial
    | succ m =>
      refine Ends.bind (P := fun out s2 => ∃ u : Tree, u.Denotes (.binary t.kind a b) ∧ out = .inl u ∧
        s2 = { s with rest := k }) (.of_eq (continued_joins joins rfl more) ?_) ?_
      · cases n with
        | zero => exact ends_fail_bind.mpr trivial
        | succ n =>
          refine (ihb.2.whole (s := { s with rest := us ++ k }) rfl right stop).bind ?_
          rintro r _ ⟨hr, rfl⟩
          refine (binary_denotes hl hr sign).bind ?_
          rintro u _ ⟨hu, rfl⟩
          exact ends_pure.mpr ⟨u, hu, rfl, rfl⟩
      · rintro _ _ ⟨u, hu, rfl, rfl⟩
        exact goesOn m u hu

lemma expression_denotes (h : e.Spells ts) (rest : s.rest = ts ++ k)
    (last : (k.headD default).kind.endsExpression = true) :
    Ends (expression (grammar n) 0) s fun t s' => t.Denotes e ∧ s' = { s with rest := k } :=
  (spells_reads h).2.whole rest (power_pos h) (by rw [stops, last, Bool.true_or])

end Parse
end SmallC
