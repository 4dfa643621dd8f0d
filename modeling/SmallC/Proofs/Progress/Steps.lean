import SmallC.Proofs.Names.Table
import SmallC.Proofs.Parse.Closure

/-!
# Progress of reading

Reading takes tokens from the front, and how many it may take is bounded: so is the number of rounds of every
loop and the depth of the grammar. `Takes` says what a part of the grammar takes, and that it does not end
because of a bound. Along the way it is seen that static symbols come from the word `static` only.
-/

namespace SmallC

variable {fault : Fault} {kind : TokenKind} {what : Text}

/-- Neither a semicolon nor the end of the source. -/
def TokenKind.isSolid : TokenKind → Bool
  | .semicolon | .eof => false
  | _ => true

def SymbolTable.Plain (st : SymbolTable) : Prop := ∀ id, (st.get id).storage ≠ .static

/-- What is known of tokens that were taken. -/
structure Extent where
  /-- There are some. -/
  isSome : Bool
  /-- The last one, if there are any, is solid. -/
  isWhole : Bool
  deriving DecidableEq

namespace Extent

def any : Extent := ⟨false, false⟩

def idle : Extent := ⟨false, true⟩

def some : Extent := ⟨true, false⟩

def whole : Extent := ⟨true, true⟩

def andThen (a b : Extent) : Extent := ⟨a.isSome || b.isSome, b.isWhole && (b.isSome || a.isWhole)⟩

def tells (a b : Extent) : Bool := (a.isSome || !b.isSome) && (a.isWhole || !b.isWhole)

lemma andThen_whole (a : Extent) : a.andThen whole = whole := by simp [andThen, whole]

lemma andThen_some (a : Extent) : a.andThen some = some := by simp [andThen, some]

lemma idle_andThen (a : Extent) : idle.andThen a = a := by simp [andThen, idle]

end Extent

namespace ParseState

/-- Bounds are large enough for the tokens left. Where no symbols are to belong to one file only, there are
none, and no token makes one. -/
structure Fits (plain : Prop) (n : Nat) (s : ParseState) : Prop where
  depth : s.rest.length < n
  bound : s.rest.length < s.bound
  words : plain → ∀ t ∈ s.rest, t.kind ≠ .staticKw
  table : plain → s.table.Plain

/-- Where reading stands, and what it does not change. -/
def place (s : ParseState) : List Token × Nat × Text := (s.rest, s.bound, s.file)

/-- From `s` to `t` reading went on and did not take the token of the end. -/
def Onward (s t : ParseState) : Prop :=
  t.file = s.file ∧ ∃ ts, s.rest = ts ++ t.rest ∧ ∀ u ∈ ts, u.kind ≠ .eof

structure Took (plain : Prop) (e : Extent) (s t : ParseState) : Prop where
  bound : t.bound = s.bound
  file : t.file = s.file
  table : plain → t.table.Plain
  tokens : ∃ ts, s.rest = ts ++ t.rest ∧ (∀ u ∈ ts, u.kind ≠ .eof) ∧ (e.isSome = true → ts ≠ []) ∧
    (e.isWhole = true → ∀ u ∈ ts.getLast?, u.kind.isSolid = true)

variable {plain : Prop} {n : Nat} {e e' : Extent} {s t u : ParseState}

lemma rest_of_place (h : t.place = s.place) : t.rest = s.rest := congrArg Prod.fst h

lemma file_of_place (h : t.place = s.place) : t.file = s.file := congrArg (·.2.2) h

lemma Onward.trans (h : s.Onward t) (k : t.Onward u) : s.Onward u := by
  obtain ⟨file, ts, first, inner⟩ := h
  obtain ⟨file', us, second, inner'⟩ := k
  refine ⟨file'.trans file, ts ++ us, by rw [first, second, List.append_assoc], fun v mem => ?_⟩
  exact (List.mem_append.mp mem).elim (inner v) (inner' v)

lemma Onward.at_place (h : s.Onward t) (place : u.place = t.place) : s.Onward u := by
  rw [Onward, rest_of_place place, file_of_place place]
  exact h

lemma Onward.mem_rest (h : s.Onward t) {v : Token} (mem : v ∈ s.rest) (eof : v.kind = .eof) : v ∈ t.rest := by
  obtain ⟨-, ts, split, inner⟩ := h
  rw [split, List.mem_append] at mem
  exact mem.resolve_left fun taken => inner v taken eof

namespace Took

lemma refl (h : plain → s.table.Plain) : s.Took plain .idle s :=
  ⟨rfl, rfl, h, [], rfl, nofun, nofun, fun _ _ mem => by cases mem⟩

section
variable (h : s.Took plain e t)
include h

lemma at_place (place : u.place = t.place) (table : plain → u.table.Plain) : s.Took plain e u where
  bound := Eq.trans (congrArg (·.2.1) place) h.bound
  file := (file_of_place place).trans h.file
  table := table
  tokens := by
    rw [rest_of_place place]
    exact h.tokens

lemma onward : s.Onward t := ⟨h.file, h.tokens.imp fun _ h => ⟨h.1, h.2.1⟩⟩

lemma trans (k : t.Took plain e' u) : s.Took plain (e.andThen e') u := by
  obtain ⟨ts, first, inner, some, whole⟩ := h.tokens
  obtain ⟨us, second, inner', some', whole'⟩ := k.tokens
  refine ⟨k.bound.trans h.bound, k.file.trans h.file, k.table, ts ++ us,
    by rw [first, second, List.append_assoc], fun v mem => ?_, ?_, ?_⟩
  · exact (List.mem_append.mp mem).elim (inner v) (inner' v)
  · intro moved none
    obtain ⟨rfl, rfl⟩ := List.append_eq_nil_iff.mp none
    rcases Bool.or_eq_true _ _ ▸ moved with moved | moved
    · exact some moved rfl
    · exact some' moved rfl
  · intro known v mem
    obtain ⟨known', before⟩ := Bool.and_eq_true _ _ ▸ known
    cases us with
    | nil =>
      rw [List.append_nil] at mem
      rcases Bool.or_eq_true _ _ ▸ before with moved | known
      · exact absurd rfl (some' moved)
      · exact whole known v mem
    | cons x us =>
      rw [List.getLast?_append_cons] at mem
      exact whole' known' v mem

lemma weaken (tells : e.tells e' = true) : s.Took plain e' t := by
  obtain ⟨ts, split, inner, some, whole⟩ := h.tokens
  obtain ⟨tellsSome, tellsWhole⟩ := Bool.and_eq_true _ _ ▸ tells
  refine ⟨h.bound, h.file, h.table, ts, split, inner, fun moved => some ?_, fun known => whole ?_⟩
  · simpa [moved] using tellsSome
  · simpa [known] using tellsWhole

lemma length_le : t.rest.length ≤ s.rest.length := by
  obtain ⟨ts, split, -⟩ := h.tokens
  rw [split, List.length_append]
  exact Nat.le_add_left _ _

lemma length_lt (some : e.isSome = true) : t.rest.length < s.rest.length := by
  obtain ⟨ts, split, -, moved, -⟩ := h.tokens
  have := List.length_pos_iff.mpr (moved some)
  rw [split, List.length_append]
  omega

end

lemma fits (h : s.Took plain e t) (fits : s.Fits plain n) : t.Fits plain n where
  depth := Nat.lt_of_le_of_lt h.length_le fits.depth
  bound := h.bound ▸ Nat.lt_of_le_of_lt h.length_le fits.bound
  words is v mem := by
    obtain ⟨ts, split, -⟩ := h.tokens
    exact fits.words is v (split ▸ List.mem_append_right ts mem)
  table := h.table

lemma fits_inner (h : s.Took plain e t) (some : e.isSome = true) (fits : s.Fits plain (n + 1)) :
    t.Fits plain n :=
  { h.fits fits with depth := Nat.lt_of_lt_of_le (h.length_lt some) (Nat.le_of_lt_succ fits.depth) }

end Took

lemma took_advanced_some (h : plain → s.table.Plain) (some : s.front.kind ≠ .eof) :
    s.Took plain .some s.advanced :=
  ⟨rfl, rfl, h, [s.front], rest_eq_of_front some, by simpa using some, fun _ => List.cons_ne_nil _ _, nofun⟩

lemma took_advanced_whole (h : plain → s.table.Plain) (solid : s.front.kind.isSolid = true) :
    s.Took plain .whole s.advanced := by
  have some : s.front.kind ≠ .eof := fun eof => by
    rw [eof] at solid
    cases solid
  refine ⟨rfl, rfl, h, [s.front], rest_eq_of_front some, by simpa using some, fun _ => List.cons_ne_nil _ _,
    fun _ u mem => ?_⟩
  cases mem
  exact solid

end ParseState

namespace Parse

variable {plain : Prop} {α β : Type}

/-! ## Steps that take nothing -/

/-- Reading takes no token and makes no symbol static. -/
def Pauses (plain : Prop) (x : Parse α) : Prop := ∀ s : ParseState, (plain → s.table.Plain) →
    Runs x s (fun _ t => t.place = s.place ∧ (plain → t.table.Plain))
      fun fault t => fault ≠ .exhausted ∧ t.place = s.place

namespace Pauses

lemma bind {x : Parse α} {k : α → Parse β} (hx : Pauses plain x) (hk : ∀ a, Pauses plain (k a)) :
    Pauses plain (x >>= k) := by
  intro s table
  refine (hx s table).bind ?_
  rintro a t ⟨place, table'⟩
  rw [← place]
  exact hk a t table'

end Pauses

lemma pauses_emit {code : Lower α} : Pauses plain (emit code) := fun _ h =>
  runs_emit (fun _ _ _ => ⟨rfl, h⟩) fun _ _ _ => ⟨nofun, rfl⟩

lemma pauses_withTable {f : SymbolTable → α × SymbolTable} (h : ∀ st, (plain → st.Plain) → plain → (f st).2.Plain) :
    Pauses plain (withTable f) := fun s table => ⟨rfl, h s.table table⟩

lemma pauses_modifyTable {f : SymbolTable → SymbolTable} (h : ∀ st, (plain → st.Plain) → plain → (f st).Plain) :
    Pauses plain (modifyTable f) := pauses_withTable h

lemma pauses_modify {f : ParseState → ParseState} (place : ∀ s, (f s).place = s.place)
    (table : ∀ s, (f s).table = s.table) : Pauses plain (modify f : Parse PUnit) :=
  fun s h => ⟨place s, fun is => table s ▸ h is⟩

/-! ## Steps that take tokens -/

/-- After the tokens `sofar`, where the token in front is one of `front`, reading goes on until tokens as in
`e` have been taken in all. There are fewer than `n` of them. -/
def Takes (plain : Prop) (n : Nat) (sofar : Extent) (front : TokenKind → Prop) (x : Parse α)
    (e : α → Extent) : Prop :=
  ∀ s t : ParseState, s.Fits plain n → s.Took plain sofar t → front t.front.kind →
    Runs x t (fun a u => s.Took plain (e a) u) fun fault u => fault ≠ .exhausted ∧ s.Onward u

/-- Reading takes tokens as in `e` from here on. -/
abbrev Spends (plain : Prop) (n : Nat) (x : Parse α) (e : Extent) : Prop :=
  Takes plain n .idle (fun _ => True) x fun _ => e

/-- The same where the token in front is solid. -/
abbrev SpendsSolid (plain : Prop) (n : Nat) (x : Parse α) (e : Extent) : Prop :=
  Takes plain n .idle (fun kind => kind.isSolid = true) x fun _ => e

variable {n : Nat} {sofar : Extent} {front : TokenKind → Prop} {e : α → Extent}

lemma takes_pure {a : α} (h : sofar.tells (e a) = true) :
    Takes plain n sofar front (pure a) e := fun _ _ _ took _ => took.weaken h

lemma takes_fail (h : fault ≠ .exhausted) :
    Takes plain n sofar front (fail fault) e := fun _ _ _ took _ => ⟨rfl, h, took.onward⟩

lemma takes_fail_bind {k : β → Parse α} (h : fault ≠ .exhausted) :
    Takes plain n sofar front (fail fault >>= k) e := fun _ _ _ took _ => ⟨rfl, h, took.onward⟩

namespace Takes

variable {k : Token → Parse α} {x : Parse α} {fault : Fault} {c : Prop} {kind' : TokenKind}

lemma pauses {x : Parse β} {k : β → Parse α} (hx : Pauses plain x)
    (hk : ∀ b, Takes plain n sofar front (k b) e) : Takes plain n sofar front (x >>= k) e := by
  intro s t fits took at_front
  refine Runs.bind ((hx t took.table).imp (fun _ _ h => h) ?_) ?_
  · rintro fault u ⟨other, place⟩
    exact ⟨other, took.onward.at_place place⟩
  · rintro b u ⟨place, table⟩
    refine hk b s u fits (took.at_place place table) ?_
    rw [ParseState.front, ParseState.rest_of_place place]
    exact at_front

lemma pausesLast (h : ∀ a, sofar.tells (e a) = true) (hx : Pauses plain x) :
    Takes plain n sofar front x e := by
  have : Takes plain n sofar front (x >>= pure) e := .pauses hx fun a => takes_pure (h a)
  rwa [bind_pure] at this

lemma seqKnown {x : Parse β} {k : β → Parse α} {e' : β → Extent} (known : β → TokenKind → Prop)
    (hx : Takes plain n sofar front x e') (hv : ∀ t, t.Fits plain n → Ends x t fun b u => known b u.front.kind)
    (hk : ∀ b, Takes plain n (e' b) (known b) (k b) e) : Takes plain n sofar front (x >>= k) e := by
  intro s t fits took at_front
  refine ((hx s t fits took at_front).also (hv t (took.fits fits))).bind ?_
  rintro b u ⟨took, is⟩
  exact hk b s u fits took is

lemma seq {x : Parse β} {k : β → Parse α} {e' : β → Extent} (hx : Takes plain n sofar front x e')
    (hk : ∀ b, Takes plain n (e' b) (fun _ => True) (k b) e) : Takes plain n sofar front (x >>= k) e :=
  .seqKnown (fun _ _ => True) hx (fun _ _ _ _ _ => trivial) hk

lemma weaken {e' : α → Extent} (h : ∀ a, (e' a).tells (e a) = true) (hx : Takes plain n sofar front x e') :
    Takes plain n sofar front x e :=
  fun s t fits took at_front => (hx s t fits took at_front).mono fun a _ took' => took'.weaken (h a)

lemma anywhere (hx : Takes plain n sofar (fun _ => True) x e) : Takes plain n sofar front x e :=
  fun s t fits took _ => hx s t fits took trivial

lemma atSolid (is : kind = kind') (solid : kind'.isSolid = true)
    (hx : Takes plain n sofar (fun kind => kind.isSolid = true) x e) :
    Takes plain n sofar (fun k => k = kind) x e :=
  fun s t fits took at_front => hx s t fits took (at_front.trans is ▸ solid)

lemma of_known {p : Prop} (known : ∀ kind, front kind → p) (hx : p → Takes plain n sofar front x e) :
    Takes plain n sofar front x e :=
  fun s t fits took at_front => hx (known _ at_front) s t fits took at_front

lemma part (hx : Takes plain n .idle front x e) :
    Takes plain n sofar front x fun a => sofar.andThen (e a) :=
  fun _ t fits took at_front => (hx t t (took.fits fits) (.refl took.table) at_front).imp
    (fun _ _ took' => took.trans took') fun _ _ h => ⟨h.1, took.onward.trans h.2⟩

lemma inner (some : sofar.isSome = true) (hx : Takes plain n .idle front x e) :
    Takes plain (n + 1) sofar front x fun a => sofar.andThen (e a) :=
  fun _ t fits took at_front => (hx t t (took.fits_inner some fits) (.refl took.table) at_front).imp
    (fun _ _ took' => took.trans took') fun _ _ h => ⟨h.1, took.onward.trans h.2⟩

lemma ite [Decidable c] {y : Parse α} (hx : Takes plain n sofar front x e)
    (hy : Takes plain n sofar front y e) : Takes plain n sofar front (if c then x else y) e := by
  split
  · exact hx
  · exact hy

lemma ifFails [Decidable c] {k : Unit → Parse α} (other : fault ≠ .exhausted)
    (h : Takes plain n sofar front (k ()) e) :
    Takes plain n sofar front (if c then fail fault >>= k else k ()) e :=
  .ite (takes_fail_bind other) h

lemma unlessFails [Decidable c] {k : Unit → Parse α} (other : fault ≠ .exhausted)
    (h : Takes plain n sofar front (k ()) e) :
    Takes plain n sofar front (if c then k () else fail fault >>= k) e :=
  .ite h (takes_fail_bind other)

/-! ### Looking at the token in front -/

lemma peek (hk : ∀ t : Token, Takes plain n sofar (fun kind => kind = t.kind) (k t) e) :
    Takes plain n sofar front (peek >>= k) e :=
  fun s t fits took _ => hk t.front s t fits took rfl

lemma ifAt {y : Parse α} (hx : Takes plain n sofar (fun k => k = kind) x e)
    (hy : Takes plain n sofar (fun k => front k ∧ k ≠ kind) y e) :
    Takes plain n sofar front (do if ← isAt kind then x else y) e := by
  intro s t fits took at_front
  rw [runs_isAt, runs_ite]
  exact ⟨fun is => hx s t fits took (of_decide_eq_true is),
    fun isNot => hy s t fits took ⟨at_front, fun is => isNot (decide_eq_true is)⟩⟩

lemma unlessAt {k : Unit → Parse α} (other : fault ≠ .exhausted)
    (h : Takes plain n sofar (fun k => k = kind) (k ()) e) :
    Takes plain n sofar front (isAt kind >>= fun is => if is = true then k () else fail fault >>= k) e :=
  .ifAt h (takes_fail_bind other)

/-! ### Taking the token in front -/

lemma advance (hk : ∀ t, Takes plain n .whole (fun _ => True) (k t) e) :
    Takes plain n sofar (fun kind => kind.isSolid = true) (advance >>= k) e := by
  intro s t fits took solid
  have whole := took.trans (t.took_advanced_whole took.table solid)
  rw [Extent.andThen_whole] at whole
  exact hk t.front s t.advanced fits whole trivial

lemma advanceAt (is : kind = kind') (solid : kind'.isSolid = true)
    (hk : ∀ t, Takes plain n .whole (fun _ => True) (k t) e) :
    Takes plain n sofar (fun k => k = kind) (Parse.advance >>= k) e :=
  .atSolid is solid (.advance hk)

lemma advanceSome (hk : ∀ t, Takes plain n .some (fun _ => True) (k t) e)
    (h : ∀ kind, front kind → kind ≠ .eof) : Takes plain n sofar front (Parse.advance >>= k) e := by
  intro s t fits took at_front
  have some := took.trans (t.took_advanced_some took.table (h _ at_front))
  rw [Extent.andThen_some] at some
  exact hk t.front s t.advanced fits some trivial

lemma expected (taken : Takes plain n sofar (fun k => k = kind) (Parse.advance >>= k) e) :
    Takes plain n sofar front (Parse.expect kind what >>= k) e := by
  intro s t fits took at_front
  rw [runs_expect]
  exact ⟨fun is => taken s t fits took is, fun _ => ⟨nofun, took.onward⟩⟩

lemma expect (solid : kind.isSolid = true) (hk : ∀ t, Takes plain n .whole (fun _ => True) (k t) e) :
    Takes plain n sofar front (Parse.expect kind what >>= k) e :=
  .expected (.advanceAt rfl solid hk)

lemma expectSemicolon (hk : ∀ t, Takes plain n .some (fun _ => True) (k t) e) :
    Takes plain n sofar front (Parse.expect .semicolon what >>= k) e :=
  .expected (.advanceSome hk (by rintro _ rfl; nofun))

lemma expectIdentifier {k : Text → Parse α} (hk : ∀ t, Takes plain n .whole (fun _ => True) (k t) e) :
    Takes plain n sofar front (expectIdentifier >>= k) e := by
  rw [Parse.expectIdentifier, bind_assoc]
  exact .expect rfl fun t => hk t.lexeme

lemma skip {k : Unit → Parse α} (other : kind ≠ .eof)
    (hk : Takes plain n (sofar.andThen .any) (fun _ => True) (k ()) e) :
    Takes plain n sofar front (skip kind >>= k) e := by
  intro s t fits took _
  rw [runs_skip]
  split
  · rename_i is
    have taken := t.took_advanced_some took.table (is ▸ other)
    exact hk s t.advanced fits (took.trans (taken.weaken rfl)) trivial
  · exact hk s t fits (took.trans ((ParseState.Took.refl took.table).weaken rfl)) trivial

/-! ### Loops -/

lemma iterate {step : β → Parse (β ⊕ α)} {b : β} (round last : Extent) (some : round.isSome = true)
    (stable : (round.andThen last).tells last = true)
    (hstep : ∀ b, Takes plain n .idle (fun _ => True) (step b) (Sum.elim (fun _ => round) fun _ => last)) :
    Takes plain n .idle front (iterate step b) fun _ => last := by
  have rounds (bound : Nat) (b : β) (s : ParseState) (fits : s.Fits plain n) (lt : s.rest.length < bound) :
      Runs (iterateUpTo step bound b) s (fun _ u => s.Took plain last u)
        fun fault u => fault ≠ .exhausted ∧ s.Onward u := by
    induction bound generalizing b s with
    | zero => exact absurd lt (Nat.not_lt_zero _)
    | succ bound ih =>
      refine (hstep b s s fits (.refl fits.table) trivial).bind ?_
      rintro (b' | a) t took
      · have shorter := took.length_lt some
        exact (ih b' t (took.fits fits) (by omega)).imp (fun _ _ took' => (took.trans took').weaken stable)
          fun _ _ h => ⟨h.1, took.onward.trans h.2⟩
      · exact took
  intro s t fits took _
  rw [Parse.iterate, runs_get]
  refine (rounds t.bound b t (took.fits fits) (took.fits fits).bound).imp (fun _ u took' => ?_) ?_
  · exact last.idle_andThen ▸ took.trans took'
  · exact fun _ _ h => ⟨h.1, took.onward.trans h.2⟩

end Takes
end Parse

structure Grammar.Takes (plain : Prop) (n : Nat) (g : Grammar) : Prop where
  expression : ∀ power, Parse.Spends plain n (g.expression power) .whole
  unaryExpression : Parse.Spends plain n g.unaryExpression .whole
  typeSpec : ∀ storage, Parse.Spends plain n (g.typeSpec storage) .whole
  declaration : ∀ storage end1 end2, storage ≠ StorageClass.static →
    Parse.Spends plain n (g.declaration storage end1 end2) .whole
  statement : Parse.Spends plain n g.statement .some
  block : ∀ inSwitch, Parse.Spends plain n (g.block inSwitch) .any
  resolve : ∀ name, Parse.Pauses plain (g.resolve name)

end SmallC
