import SmallC.Proofs.Labels
import SmallC.Proofs.Tree.Nodes

/-!
# Types agree in the trees of functions

In the tree of a function, as it is read and as its code is made, what is stored or returned has the type that is
asked for, and operands have types that agree. So have arguments, where no word of storage class stands. A
choice has the type of its first arm, and nothing brings the second arm to it. An operation that stores its
outcome is done on two integers, or on a pointer and an integer that counts what it points to.
-/

namespace SmallC

open Ir ParseState

namespace Tree

variable {i : Info}

/-- Types agree in a tree, where the values that are returned have the type `returns`. -/
structure Conforms (returns : CType) (t : Tree) : Prop where
  assign : ∀ i target value, .assign i target value ∈ t.nodes → value.type.fits target.type = true
  result : ∀ i value, .result i value ∈ t.nodes → value = .empty ∨ value.type.fits returns = true
  compare : ∀ i op a b, .binary i op a b ∈ t.nodes → op.isComparison = true →
    a.type = b.type ∨ a.type.isPointer = true ∧ b.type.isPointer = true
  operate : ∀ i op a b, .binary i op a b ∈ t.nodes → op.isComparison = false →
    a.type = b.type ∨ isMember op a b = true
  classes : ∀ i op a b, .binary i op a b ∈ t.nodes → isMember op a b = false →
    a.type.cls = b.type.cls

/-- The types of the arguments of a call with those of the parameters that there are for them. -/
def handed (ss : Symbols) : Tree → List (CType × CType)
  | .call _ f args => (args.map type).zip ((ss.get f).members.map fun p => (ss.get p).type)
  | _ => []

def CallsFit (ss : Symbols) (t : Tree) : Prop :=
  ∀ n ∈ t.nodes, ∀ p ∈ n.handed ss, p.1.fits p.2 = true

/-- Both arms of a choice have its type, and a target is combined with an integer. -/
def balanced : Tree → Bool
  | .ternary i _ a b => a.type = i.type && b.type = i.type
  | .compound _ op a b => a.type.isInt && b.type.isInt ||
      a.type.isPointer && (op = .asPlus || op = .asMinus) && b.adaptee.type.isInt
  | _ => true

/-- The arms of a choice have different types, or `-` stands before it and they are chars; or an integer
is combined with a pointer. -/
def tilts : Tree → Bool
  | .ternary i _ a b => b.type ≠ a.type || i.type = .int && a.type = .char
  | .compound _ _ a b => a.type.isInt && b.type.isPointer
  | _ => false

/-- How the types of a choice and of a combination are related. -/
def Joins : Tree → Prop
  | .ternary i _ a _ => Chooses i a
  | .compound _ op a b => Combines op a b
  | _ => True

variable {ss : Symbols} {scope : Scope} {t a b : Tree} {op : Op}

lemma isMember_not_comparison (h : isMember op a b = true) : op.isComparison = false := by
  unfold isMember at h
  split at h
  · rfl
  · cases h

lemma cls_of_isPointer {u : CType} (h : u.isPointer = true) : u.cls = .ok .long := if_pos h

lemma matched_cases (h : matched op a b = true) :
    a.type = b.type ∨ op.isComparison = true ∧ a.type.isPointer = true ∧ b.type.isPointer = true ∨
      isMember op a b = true := by
  simpa [matched, and_assoc, or_assoc] using h

lemma IsStatement.conforms {returns : CType} (h : IsStatement ss scope t)
    (hreturns : ∀ u, scope.returns u → u.fits returns = true) : t.Conforms returns := by
  have binary : ∀ {i op a b}, .binary i op a b ∈ t.nodes → matched op a b = true := by
    intro i op a b hn
    cases (h.nodes _ hn).isExpression rfl with
    | binary _ _ _ _ typed => exact typed
  constructor
  · intro i target value hn
    cases (h.nodes _ hn).isExpression rfl with
    | assign _ _ _ _ typed => exact typed
  · intro i value hn
    rcases h.nodes _ hn with part | part | ⟨part, -⟩ | ⟨_, _, part, -⟩
    · cases part with
      | expression part => cases part
      | leave => exact .inl rfl
      | result _ _ typed => exact .inr (hreturns _ typed)
    · cases part
    · cases part
    · cases part
  · intro i op a b hn compares
    rcases matched_cases (binary hn) with same | ⟨-, pointers⟩ | member
    · exact .inl same
    · exact .inr pointers
    · rw [isMember_not_comparison member] at compares
      cases compares
  · intro i op a b hn operates
    rcases matched_cases (binary hn) with same | ⟨compares, -⟩ | member
    · exact .inl same
    · rw [operates] at compares
      cases compares
    · exact .inr member
  · intro i op a b hn plain
    rcases matched_cases (binary hn) with same | ⟨-, left, right⟩ | member
    · rw [same]
    · rw [cls_of_isPointer left, cls_of_isPointer right]
    · rw [plain] at member
      cases member

lemma IsStatement.callsFit (h : IsStatement ss scope t) (hcalls : ∀ f types, scope.calls f types →
    ss.Accepts f types) : t.CallsFit ss := by
  intro n hn p hp
  cases n with
  | call i f args =>
    cases (h.nodes _ hn).isExpression rfl with
    | call _ _ typed =>
      rw [handed, List.zip_map_right] at hp
      obtain ⟨q, hq, rfl⟩ := List.mem_map.mp hp
      exact (hcalls _ _ typed q hq).2
  | _ => cases hp

lemma IsStatement.joins (h : IsStatement ss scope t) : ∀ n ∈ t.nodes, n.Joins := by
  intro n hn
  cases n with
  | ternary =>
    cases (h.nodes _ hn).isExpression rfl with
    | ternary _ _ _ _ _ _ typed | choice _ _ _ _ _ _ typed => exact typed
  | compound =>
    cases (h.nodes _ hn).isExpression rfl with
    | compound _ _ _ _ typed => exact typed
  | _ => trivial

lemma Chooses.balanced_iff {c : Tree} (h : Chooses i a) :
    (ternary i c a b).balanced = true ↔ (ternary i c a b).tilts = false := by
  simp only [balanced, tilts, Bool.and_eq_true, Bool.or_eq_false_iff, decide_eq_true_eq,
    decide_eq_false_iff_not, not_not, Bool.and_eq_false_iff]
  rcases h with same | ⟨int, char⟩
  · have apart : i.type ≠ .int ∨ a.type ≠ .char := by
      rw [same]
      exact not_and_or.mp fun h => by cases h.1.symm.trans h.2
    exact ⟨fun h => ⟨h.2.trans same, apart⟩, fun h => ⟨same.symm, h.1.trans same.symm⟩⟩
  · simp [int, char]

lemma Combines.balanced_iff (h : Combines op a b) :
    (compound i op a b).balanced = true ↔ (compound i op a b).tilts = false := by
  cases h with
  | integers target value => simp [balanced, tilts, target, value, CType.isPointer_of_isInt value]
  | index target hop _ value =>
    simp [balanced, tilts, target, hop, value, CType.isInt_of_isPointer target]
  | stray target _ value =>
    simp [balanced, tilts, target, value, CType.isInt_of_isPointer value, CType.isPointer_of_isInt target]

lemma Joins.balanced_iff (h : t.Joins) : t.balanced = true ↔ t.tilts = false := by
  cases t with
  | ternary => exact Chooses.balanced_iff h
  | compound => exact Combines.balanced_iff h
  | _ => exact iff_of_true rfl rfl

end Tree

theorem compile_types {file source code : Text}
    (h : (Session.compile { file } source).1.outcome = .ok code) :
    let functions := (Session.compile { file } source).1.functions
    (∀ d ∈ functions, d.read.Conforms d.symbol.type ∧ d.body.Conforms d.symbol.type) ∧
      ((∀ t ∈ (lex source file).1, t.kind ≠ .staticKw ∧ t.kind ≠ .externKw) →
        ∀ d ∈ functions, d.read.CallsFit d.symbols ∧ d.body.CallsFit d.symbols) := by
  obtain ⟨s, leads, hfunctions, -, rfl⟩ := compile_leads h
  simp only [hfunctions]
  constructor
  · intro d hd
    obtain ⟨text, -, written, -⟩ := exists_of_mem_right leads.sound.layout.written.flip hd
    obtain ⟨scope, shape, returns, -⟩ := written.shape
    exact ⟨shape.conforms returns, shape.fold.conforms returns⟩
  · intro clean d hd
    have closed := (functions_closed leads clean d hd).1
    exact ⟨closed.callsFit fun _ _ fits => fits, closed.fold.callsFit fun _ _ fits => fits⟩

theorem compile_types_mixed :
    let source : Text := "long g(long a) \x7b return a; \x7d long f(int a, char c) \x7b int *p; p = &a; p = p + c; if (a < c) return g(c); return *p; \x7d"
    let functions := (Session.compile { file := "t.c" } source).1.functions
    (∃ code, (Session.compile { file := "t.c" } source).1.outcome = .ok code) ∧
      functions.length = 2 ∧
      (∀ d ∈ functions, d.read.Conforms d.symbol.type ∧ d.body.Conforms d.symbol.type) ∧
      ∀ d ∈ functions, d.read.CallsFit d.symbols ∧ d.body.CallsFit d.symbols := by
  intro source functions
  obtain ⟨code, ok⟩ := exists_of_isSome (x := (Session.compile { file := "t.c" } source).1.outcome)
    (by decide +kernel)
  obtain ⟨conform, calls⟩ := compile_types ok
  exact ⟨⟨code, ok⟩, by decide +kernel, conform, calls (by decide +kernel)⟩

/-- A function is defined after a call of it, inside of the caller and with another parameter than it
was declared with: the argument is a char, the parameter a long. -/
theorem compile_call_misfits :
    let source : Text :=
      "int f(char a, long b); void g(char c, long l) \x7b f(c, l); struct s \x7b static int f(extern char x, long y) \x7b return 1; \x7d int z; \x7d v; \x7d"
    let functions := (Session.compile { file := "t.c" } source).1.functions
    (Session.compile { file := "t.c" } source).1.outcome.toOption.isSome = true ∧
      functions.flatMap (fun d => d.body.nodes.flatMap (Tree.handed d.symbols)) =
        [(.char, .long)] := by
  decide +kernel

/-- In every function, as it is read and as its code is made, a choice has the type of its first arm, and
what is combined with a target is an integer, but for integers that a pointer to bytes is added to. -/
theorem compile_balances {file source code : Text}
    (h : (Session.compile { file } source).1.outcome = .ok code) :
    ∀ d ∈ (Session.compile { file } source).1.functions, ∀ n ∈ d.read.nodes ++ d.body.nodes,
      n.Joins ∧ (n.balanced = true ↔ n.tilts = false) := by
  obtain ⟨s, leads, hfunctions, -, rfl⟩ := compile_leads h
  rw [hfunctions]
  intro d hd n hn
  obtain ⟨text, -, written, -⟩ := exists_of_mem_right leads.sound.layout.written.flip hd
  obtain ⟨scope, shape, -⟩ := written.shape
  have joins : n.Joins := by
    rcases List.mem_append.mp hn with hn | hn
    · exact shape.joins n hn
    · exact shape.fold.joins n hn
  exact ⟨joins, joins.balanced_iff⟩

theorem compile_balances_sums :
    let source : Text := "int f(int a, char c, int *p, char *q) \x7b p += c; q -= a; a += c; c *= a; return a ? *p : a; \x7d"
    let functions := (Session.compile { file := "t.c" } source).1.functions
    (∃ code, (Session.compile { file := "t.c" } source).1.outcome = .ok code) ∧
      functions.length = 1 ∧ ∀ d ∈ functions, ∀ n ∈ d.read.nodes ++ d.body.nodes, n.balanced = true := by
  intro source functions
  obtain ⟨code, ok⟩ := exists_of_isSome (x := (Session.compile { file := "t.c" } source).1.outcome)
    (by decide +kernel)
  have level : ∀ d ∈ functions, ∀ n ∈ d.read.nodes ++ d.body.nodes, n.tilts = false := by decide +kernel
  exact ⟨⟨code, ok⟩, by decide +kernel, fun d hd n hn =>
    (compile_balances ok d hd n hn).2.mpr (level d hd n hn)⟩

/-- The first arm is a char and the second one an int, which is cut to a char; and the address in `p` is
cut to an int. -/
theorem compile_unbalanced :
    let source : Text := "int f(int x, char *p) \x7b x += p; return x ? 1 : 300; \x7d"
    let functions := (Session.compile { file := "t.c" } source).1.functions
    (Session.compile { file := "t.c" } source).1.outcome.toOption.isSome = true ∧
      (functions.flatMap fun d => d.body.nodes.filter fun n => !n.balanced).map
        (fun n => (n.op, n.type)) = [(.asPlus, .charPointer), (.ternary, .char)] := by
  decide +kernel

end SmallC
