import SmallC.Proofs.Constants
import SmallC.Proofs.Conversion

/-!
# How operators group

A chain is made of operands with operators between them. A grouping says which operator is applied to what. It is
ordered if to the left of an operator stands what binds at least as tightly and to its right what binds more
tightly. Every chain has an ordered grouping, and reading a chain of int variables gives the tree of an ordered
grouping, whichever one is taken. Assignments and choices are not part of a chain.
-/

namespace SmallC

structure SymbolTable.IsInt (st : SymbolTable) (name : Text) (id : SymId) : Prop where
  found : st.lookup name = some id
  noConstant : st.findEnumVal name = none
  noType : st.findTypedef name = none
  kind : (st.get id).kind = .variable
  type : (st.get id).type = .int

mutual

inductive Operand (st : SymbolTable) : List Token → Prop
  | name {t : Token} {id : SymId} (kind : t.kind = .identifier) (stands : st.IsInt t.lexeme id) :
      Operand st [t]
  | parens {opening closing : Token} {ts : List Token} (first : opening.kind = .lparen)
      (last : closing.kind = .rparen) (inner : Chain st ts) : Operand st (opening :: ts ++ [closing])

/-- Operands with operators between them. -/
inductive Chain (st : SymbolTable) : List Token → Prop
  | one {ts : List Token} (operand : Operand st ts) : Chain st ts
  | more {ts us : List Token} {sign : Token} (before : Chain st ts) (joins : sign.kind.joins = true)
      (operand : Operand st us) : Chain st (ts ++ sign :: us)

end

inductive Grouping where
  | name (t : Token)
  | parens (opening closing : Token) (inner : Grouping)
  | join (sign : Token) (left right : Grouping)

namespace Grouping

def tokens : Grouping → List Token
  | .name t => [t]
  | .parens opening closing g => opening :: g.tokens ++ [closing]
  | .join sign l r => l.tokens ++ sign :: r.tokens

def power : Grouping → Nat
  | .join sign _ _ => sign.power
  | _ => 200

inductive Ordered (st : SymbolTable) : Grouping → Prop
  | name {t : Token} {id : SymId} (kind : t.kind = .identifier) (stands : st.IsInt t.lexeme id) :
      Ordered st (.name t)
  | parens {opening closing : Token} {g : Grouping} (first : opening.kind = .lparen)
      (last : closing.kind = .rparen) (inner : Ordered st g) : Ordered st (.parens opening closing g)
  | join {sign : Token} {l r : Grouping} (joins : sign.kind.joins = true) (hl : Ordered st l)
      (left : sign.power ≤ l.power) (hr : Ordered st r) (right : sign.power < r.power) :
      Ordered st (.join sign l r)

structure Groups (st : SymbolTable) (g : Grouping) (ts : List Token) : Prop where
  ordered : g.Ordered st
  tokens : g.tokens = ts

end Grouping

/-! ## There is an ordered grouping -/

namespace Grouping

variable {st : SymbolTable} {g b : Grouping} {sign : Token}

/-- One more operator and operand on the right: they take as much from the end of what stands before
as binds at least as tightly. -/
def attach : Grouping → (sign : Token) → (b : Grouping) → Grouping
  | .join top l r, sign, b =>
    if sign.power ≤ top.power then .join sign (.join top l r) b else .join top l (r.attach sign b)
  | g, sign, b => .join sign g b

lemma tokens_attach (g : Grouping) : (g.attach sign b).tokens = g.tokens ++ sign :: b.tokens := by
  induction g with
  | name | parens => rfl
  | join top l r _ ihr =>
    unfold attach
    split
    · rfl
    · simp [tokens, ihr]

lemma power_attach (g : Grouping) : min sign.power g.power ≤ (g.attach sign b).power := by
  cases g with
  | name | parens => exact Nat.min_le_left _ _
  | join top l r =>
    unfold attach
    split
    · exact Nat.min_le_left _ _
    · exact Nat.min_le_right _ _

lemma Ordered.attach (h : g.Ordered st) (hb : b.Ordered st) (operand : b.power = 200)
    (joins : sign.kind.joins = true) : (g.attach sign b).Ordered st := by
  have small := (Parse.joins_goes joins).2.1
  have right : sign.power < b.power := by omega
  induction h with
  | name kind stands =>
    exact .join joins (.name kind stands) (show sign.power ≤ 200 by omega) hb right
  | parens first last inner =>
    exact .join joins (.parens first last inner) (show sign.power ≤ 200 by omega) hb right
  | @join top l r joins' hl left hr right' _ ihr =>
    unfold Grouping.attach
    split
    · rename_i looser
      exact .join joins (.join joins' hl left hr right') looser hb right
    · rename_i tighter
      refine .join joins' hl left ihr ?_
      exact Nat.lt_of_lt_of_le (Nat.lt_min.mpr ⟨Nat.lt_of_not_le tighter, right'⟩) (power_attach r)

end Grouping

mutual

theorem Operand.groups {st : SymbolTable} {ts : List Token} :
    Operand st ts → ∃ g : Grouping, g.Groups st ts ∧ g.power = 200
  | .name kind stands => ⟨.name _, ⟨.name kind stands, rfl⟩, rfl⟩
  | .parens first last inner => by
    obtain ⟨g, ordered, rfl⟩ := inner.groups
    exact ⟨.parens _ _ g, ⟨.parens first last ordered, rfl⟩, rfl⟩

theorem Chain.groups {st : SymbolTable} {ts : List Token} :
    Chain st ts → ∃ g : Grouping, g.Groups st ts
  | .one operand => by
    obtain ⟨g, groups, -⟩ := operand.groups
    exact ⟨g, groups⟩
  | .more before joins operand => by
    obtain ⟨g, ordered, rfl⟩ := before.groups
    obtain ⟨b, ⟨ordered', rfl⟩, power⟩ := operand.groups
    exact ⟨g.attach _ b, ordered.attach ordered' power joins, Grouping.tokens_attach g⟩

end

/-! ## Reading -/

/-- The variables and operators of a tree from left to right. -/
def Tree.inorder : Tree → List (SymId ⊕ Op)
  | .ident _ id => [.inl id]
  | .binary _ op a b | .logical _ op a b => a.inorder ++ .inr op :: b.inorder
  | _ => []

/-- The variable or operator that a token stands for. A parenthesis stands for neither. -/
def Token.entry? (st : SymbolTable) (t : Token) : Option (SymId ⊕ Op) :=
  match t.kind with
  | .identifier => (st.lookup t.lexeme).map .inl
  | .lparen | .rparen => none
  | kind => some (.inr kind.binaryOp)

def Tree.joined (op : Op) (line : Int64) (a b : Tree) : Tree :=
  if op.isLogical then .logical { type := .int, ctype := a.ctype, line } op a b
  else .binary { type := .int, ctype := a.ctype, line } op a b

namespace Grouping

/-- The tree of a grouping, before anything is asked of its value. -/
def read (st : SymbolTable) : Grouping → Tree
  | .name t =>
    let id := (st.lookup t.lexeme).getD 0
    .ident { type := (st.get id).type, ctype := (st.get id).ctype, line := t.line } id
  | .parens _ _ g => (g.read st).asRvalue
  | .join sign l r => .joined sign.kind.binaryOp sign.line (l.read st).asRvalue (r.read st).asRvalue

def tree (st : SymbolTable) (g : Grouping) : Tree := (g.read st).asRvalue

end Grouping

namespace Tree

variable {op : Op} {line : Int64} {a b : Tree}

lemma type_joined : (joined op line a b).type = .int := by
  unfold joined
  split <;> rfl

lemma inorder_joined : (joined op line a b).inorder = a.inorder ++ .inr op :: b.inorder := by
  unfold joined
  split <;> rfl

lemma asRvalue_asRvalue (t : Tree) : t.asRvalue.asRvalue = t.asRvalue := by
  cases t <;> rfl

lemma inorder_asRvalue (t : Tree) : t.asRvalue.inorder = t.inorder := by
  cases t <;> rfl

end Tree

lemma Token.entry?_of_joins {st : SymbolTable} {t : Token} (joins : t.kind.joins = true) :
    t.entry? st = some (.inr t.kind.binaryOp) := by
  unfold Token.entry?
  split <;> simp_all [TokenKind.joins]

namespace Grouping.Ordered

variable {st : SymbolTable} {g : Grouping}

lemma type_read (h : g.Ordered st) : (g.read st).type = .int := by
  induction h with
  | name kind stands =>
    simp only [read, stands.found, Option.getD_some]
    exact stands.type
  | parens _ _ _ ih => rw [read, Tree.type_asRvalue, ih]
  | join => exact Tree.type_joined

lemma inorder_read (h : g.Ordered st) : (g.read st).inorder = g.tokens.filterMap (Token.entry? st) := by
  induction h with
  | name kind stands => simp [read, tokens, Tree.inorder, Token.entry?, kind, stands.found]
  | parens first last _ ih =>
    simp [read, tokens, Tree.inorder_asRvalue, ih, Token.entry?, first, last]
  | join joins _ _ _ _ ihl ihr =>
    simp [read, tokens, Tree.inorder_joined, Tree.inorder_asRvalue, ihl, ihr, Token.entry?_of_joins joins]

end Grouping.Ordered

namespace Parse

variable {st : SymbolTable} {g : Grammar} {p q n m : Nat} {l r : Tree} {t : Token} {s s' : ParseState} {op : Op}
  {k : List Token}

lemma conversion_ints {ctype : Option SymId} : conversion .int .int ctype op s = .ok (some .keep) s := by
  have keep (defined : Option Int64) : Conversion.between .int .int defined op = .ok (some .keep) := by
    unfold Conversion.between
    split
    · rfl
    · rfl
  unfold conversion
  rw [run_table, keep]
  rfl

lemma binary_ints (hl : l.type = .int) (hr : r.type = .int) (line : Int64) :
    binary op l r line s = .ok (.joined op line l.asRvalue r.asRvalue) s := by
  have hl' : l.asRvalue.type = .int := (Tree.type_asRvalue l).trans hl
  have hr' : r.asRvalue.type = .int := (Tree.type_asRvalue r).trans hr
  unfold binary
  simp only [hl', hr']
  rw [bind_of_ok conversion_ints, bind_of_ok conversion_ints, if_neg (by decide)]
  simp only [Tree.adapted, Tree.converted, hl', ite_self]
  unfold Tree.joined
  split
  · rfl
  · rfl

/-! Operands. -/

lemma unaryExpression_name {id : SymId} (plain : g.resolve = resolve) (kind : t.kind = .identifier) (stands : s.table.IsInt t.lexeme id)
    (rest : s.rest = t :: k) (rounds : 0 < s.bound) (stop : stops 200 (k.headD default).kind = true) :
    unaryExpression g s = .ok ((Grouping.name t).read s.table) { s with rest := k } := by
  have front := front_of_rest rest
  have advanced := advanced_of_rest rest
  have read : primary g s = .ok ((Grouping.name t).read s.table) { s with rest := k } := by
    unfold primary
    simp only [run_peek, front, kind]
    have stand : resolve t.lexeme s = .ok (.symbol id) s := by
      unfold resolve
      simp only [run_table, stands.noConstant, stands.found]
      rfl
    unfold identifierOperand
    rw [plain, bind_of_ok stand]
    simp only [run_advance, run_symbol, advanced, stands.kind, stands.found, Grouping.read, Option.getD_some]
    rfl
  unfold unaryExpression
  simp only [run_peek, front, kind]
  exact postfixed_run read rounds stop

lemma unaryExpression_parens {opening closing : Token} {ts : List Token} (first : opening.kind = .lparen)
    (last : closing.kind = .rparen) (rest : s.rest = opening :: ts ++ closing :: k)
    (noType : isTypeName { s with rest := ts ++ closing :: k } = .ok false { s with rest := ts ++ closing :: k })
    (inner : g.expression 0 { s with rest := ts ++ closing :: k } = .ok l { s' with rest := closing :: k })
    (rounds : 0 < s'.bound) (stop : stops 200 (k.headD default).kind = true) :
    unaryExpression g s = .ok l { s' with rest := k } := by
  have front := front_of_rest rest
  have advanced : s.advanced = { s with rest := ts ++ closing :: k } := advanced_of_rest rest
  have read : primary g s = .ok l { s' with rest := k } := by
    unfold primary
    simp only [run_peek, front, first]
    unfold parenthesised
    rw [run_advance, advanced, bind_of_ok noType]
    simp only [Bool.false_eq_true, if_false]
    rw [bind_of_ok inner, run_expect (s := { s' with rest := closing :: k }) last]
    rfl
  unfold unaryExpression
  simp only [run_peek, front, first]
  exact postfixed_run read rounds stop

/-! Operators. -/

lemma continued_join (joins : t.kind.joins = true) (rest : s.rest = t :: k) (more : p < t.power)
    (hl : l.type = .int) (hr : r.type = .int)
    (right : g.expression t.power { s with rest := k } = .ok r s') :
    continued g p l s = .ok (.inl (.joined t.kind.binaryOp t.line l.asRvalue r.asRvalue)) s' := by
  rw [continued_joins joins rest more, bind_of_ok right]
  exact bind_of_ok (binary_ints hl hr t.line)

end Parse

namespace Grouping

open Parse

variable {st : SymbolTable} {g : Grouping} {p n : Nat} {s : ParseState} {k : List Token}

/-- Reading the tokens of a grouping, with others behind them: what is left to do is what the operators
behind them ask for, with as many rounds as were not used up. -/
def Reads (st : SymbolTable) (g : Grouping) : Prop :=
  ∀ (n p : Nat) (s : ParseState) (k : List Token), s.table = st → s.rest = g.tokens ++ k → p < g.power →
    stops g.power (k.headD default).kind = true → g.tokens.length ≤ n → g.tokens.length < s.bound →
    ∃ m, s.bound < m + g.tokens.length ∧ expression (grammar n) p s =
      iterateUpTo (continued (grammar n) p) m (g.read st) { s with rest := k }

lemma Reads.whole (h : g.Reads st) (table : s.table = st) (rest : s.rest = g.tokens ++ k) (more : p < g.power)
    (stop : stops p (k.headD default).kind = true) (depth : g.tokens.length ≤ n)
    (rounds : g.tokens.length < s.bound) :
    expression (grammar n) p s = .ok (g.tree st) { s with rest := k } := by
  obtain ⟨m, left, hm⟩ := h n p s k table rest more (stops_mono stop (Nat.le_of_lt more)) depth rounds
  rw [hm]
  exact run_iterateUpTo_inr (continued_stop stop) (by omega)

namespace Ordered

lemma power_pos (h : g.Ordered st) : 0 < g.power := by
  cases h with
  | join joins => exact (joins_goes joins).1
  | _ => exact Nat.zero_lt_succ _

lemma front (h : g.Ordered st) : ∃ t ts, g.tokens = t :: ts ∧ t.kind.beginsType = false ∧
    (t.kind = .identifier → st.findTypedef t.lexeme = none) := by
  induction h with
  | name kind stands => exact ⟨_, _, rfl, by rw [kind]; rfl, fun _ => stands.noType⟩
  | parens first => exact ⟨_, _, rfl, by rw [first]; rfl, by rw [first]; nofun⟩
  | join _ _ _ _ _ ihl =>
    obtain ⟨t, ts, tokens, noType⟩ := ihl
    exact ⟨t, _, by rw [Grouping.tokens, tokens]; rfl, noType⟩

lemma isTypeName_run (h : g.Ordered s.table) (rest : s.rest = g.tokens ++ k) : isTypeName s = .ok false s := by
  obtain ⟨t, ts, tokens, noWord, noName⟩ := h.front
  have front : s.front = t := by rw [ParseState.front, rest, tokens]; rfl
  unfold isTypeName
  rw [run_peek, run_table, front, noWord]
  by_cases kind : t.kind = .identifier
  · rw [noName kind]
    simp
  · simp [kind]

lemma reads (h : g.Ordered st) : g.Reads st := by
  induction h with
  | name kind stands =>
    intro n p s k table rest _ stop _ rounds
    subst table
    refine ⟨s.bound, Nat.lt_succ_self _, ?_⟩
    unfold expression
    have plain : (grammar n).resolve = resolve := grammarBy_resolve resolve n
    have operand := unaryExpression_name plain kind stands rest (Nat.zero_lt_of_lt rounds) stop
    rw [bind_of_ok operand, run_iterate]
    rfl
  | @parens opening closing g first last inner ih =>
    intro n p s k table rest _ stop depth rounds
    subst table
    simp only [tokens, List.length_append, List.length_cons, List.length_nil] at depth rounds
    obtain ⟨n, rfl⟩ : ∃ n', n = n' + 1 := ⟨n - 1, by omega⟩
    have rest' : s.rest = opening :: g.tokens ++ closing :: k := by simp [rest, tokens]
    have read : (grammar (n + 1)).expression 0 { s with rest := g.tokens ++ closing :: k } =
        .ok (g.tree s.table) { s with rest := closing :: k } :=
      ih.whole rfl rfl inner.power_pos (by rw [List.headD_cons, last]; rfl) (by omega)
        (show g.tokens.length < s.bound by omega)
    have noType := isTypeName_run (s := { s with rest := g.tokens ++ closing :: k }) inner rfl
    have operand := unaryExpression_parens first last rest' noType read (by omega) stop
    refine ⟨s.bound, by simp [tokens], ?_⟩
    unfold expression
    rw [bind_of_ok operand, run_iterate]
    rfl
  | @join sign l r joins hl left hr right ihl ihr =>
    intro n p s k table rest more stop depth rounds
    subst table
    simp only [tokens, List.length_append, List.length_cons] at depth rounds
    obtain ⟨n, rfl⟩ : ∃ n', n = n' + 1 := ⟨n - 1, by omega⟩
    have rest' : s.rest = l.tokens ++ sign :: (r.tokens ++ k) := by simp [rest, tokens]
    obtain ⟨m, used, hm⟩ := ihl (n + 1) p s _ rfl rest' (Nat.lt_of_lt_of_le more left) (stops_of_joins joins left)
      (by omega) (by omega)
    obtain ⟨m, rfl⟩ : ∃ m', m = m' + 1 := ⟨m - 1, by omega⟩
    have read : (grammar (n + 1)).expression sign.power { s with rest := r.tokens ++ k } =
        .ok (r.tree s.table) { s with rest := k } :=
      ihr.whole rfl rfl right stop (by omega) (show r.tokens.length < s.bound by omega)
    have type : (r.tree s.table).type = .int := (Tree.type_asRvalue _).trans hr.type_read
    have step := continued_join (s := { s with rest := sign :: (r.tokens ++ k) }) joins rfl more hl.type_read
      type read
    refine ⟨m, by simp only [tokens, List.length_append, List.length_cons]; omega, ?_⟩
    rw [hm, run_iterateUpTo_inl step, tree, Tree.asRvalue_asRvalue]
    rfl

end Ordered
end Grouping

/-- A chain of variables of type int up to a semicolon is read to its end, if the grammar is as deep and the
loops are as long as it is. The tree has its variables and operators in order. The chain has an ordered
grouping, and there is no ordered grouping with another tree. -/
theorem Parse.expression_groups {s : ParseState} {ts k : List Token} {n : Nat} (chain : Chain s.table ts)
    (rest : s.rest = ts ++ k) (last : (k.headD default).kind = .semicolon) (depth : ts.length ≤ n)
    (rounds : ts.length < s.bound) :
    ∃ t, Parse.expression (grammar n) 0 s = .ok t { s with rest := k } ∧
      t.inorder = ts.filterMap (Token.entry? s.table) ∧ (∃ g : Grouping, g.Groups s.table ts) ∧
      ∀ g : Grouping, g.Groups s.table ts → g.tree s.table = t := by
  have stop : Parse.stops 0 (k.headD default).kind = true := by rw [last]; rfl
  have reads (g : Grouping) (h : g.Groups s.table ts) :
      Parse.expression (grammar n) 0 s = .ok (g.tree s.table) { s with rest := k } := by
    obtain ⟨ordered, rfl⟩ := h
    exact ordered.reads.whole rfl rest ordered.power_pos stop depth rounds
  obtain ⟨g, groups⟩ := chain.groups
  refine ⟨g.tree s.table, reads g groups, ?_, ⟨g, groups⟩, fun g' groups' => ?_⟩
  · rw [Grouping.tree, Tree.inorder_asRvalue, groups.ordered.inorder_read, groups.tokens]
  · exact (EStateM.Result.ok.inj ((reads g' groups').symm.trans (reads g groups))).1

/-- `x - y - (x + y) * x` in a file with two variables. -/
theorem Parse.expression_groups_differences :
    let st := (SymbolTable.addGlobal (SymbolTable.addGlobal {} "x" .int none .variable .global 1).2
      "y" .int none .variable .global 1).2
    let x : Token := { kind := .identifier, lexeme := "x" }
    let y : Token := { kind := .identifier, lexeme := "y" }
    let ts : List Token := [x, { kind := .minus }, y, { kind := .minus }, { kind := .lparen }, x, { kind := .plus },
      y, { kind := .rparen }, { kind := .star }, x]
    let s : ParseState := { rest := ts ++ [{ kind := .semicolon }], bound := 13, table := st, out := {}, file := [] }
    Chain st ts ∧
      ∃ t, Parse.expression (grammar 13) 0 s = .ok t { s with rest := [{ kind := .semicolon }] } ∧
        t.inorder = ts.filterMap (Token.entry? st) ∧ (∃ g : Grouping, g.Groups st ts) ∧
        ∀ g : Grouping, g.Groups st ts → g.tree st = t := by
  intro st x y ts s
  have first : st.IsInt x.lexeme 0 := ⟨rfl, rfl, rfl, rfl, rfl⟩
  have second : st.IsInt y.lexeme 1 := ⟨rfl, rfl, rfl, rfl, rfl⟩
  have isX : Operand st [x] := .name rfl first
  have isY : Operand st [y] := .name rfl second
  have sum : Operand st ({ kind := .lparen } :: [x, { kind := .plus }, y] ++ [{ kind := .rparen }]) :=
    .parens rfl rfl (.more (.one isX) rfl isY)
  have chain : Chain st ts := .more (.more (.more (.one isX) rfl isY) rfl sum) rfl isX
  exact ⟨chain, Parse.expression_groups chain rfl rfl (by decide) (by decide)⟩

end SmallC
