import SmallC.Proofs.Names.Table
import SmallC.Proofs.Parse.Closure

/-!
# Reading keeps tables orderly

Whatever is read, in the end the tables are orderly, also where a diagnostic ends it. What else is known
of the tables after a part of the grammar depends on the part. An expression or a type leaves the scope as
it was, unless a function that stands inside of it has ended the function at hand. Parameters are
collected one by one. Statements declare locals, and no parameters are waiting while they do.
-/

namespace SmallC

namespace SymbolTable

structure Later (old st : SymbolTable) : Prop where
  size : old.symbols.size ≤ st.symbols.size
  name : ∀ id < old.symbols.size, (st.get id).name = (old.get id).name

/-- The scope is as it was, or there is none. -/
structure Within (old st : SymbolTable) : Prop extends Later old st where
  scope : st.function = none ∧ st.scope = [] ∨ st.function = old.function ∧ st.scope = old.scope

/-- The scope is as it was, or there is none, and no parameters are left waiting. -/
structure Resumes (old st : SymbolTable) : Prop extends Within old st where
  params : old.params = [] → st.params = []

structure Proceeds (old st : SymbolTable) : Prop extends Later old st where
  params : old.params = [] → st.params = []

variable {a b c : SymbolTable}

lemma Later.refl (a : SymbolTable) : Later a a := ⟨Nat.le_refl _, fun _ _ => rfl⟩

lemma Later.trans (h : Later a b) (k : Later b c) : Later a c where
  size := Nat.le_trans h.size k.size
  name id lt := (k.name id (Nat.lt_of_lt_of_le lt h.size)).trans (h.name id lt)

lemma Within.trans (h : Within a b) (k : Within b c) : Within a c where
  toLater := h.toLater.trans k.toLater
  scope := by
    rcases k.scope with none | ⟨function, scope⟩
    · exact .inl none
    · rcases h.scope with ⟨function', scope'⟩ | ⟨function', scope'⟩
      · exact .inl ⟨function.trans function', scope.trans scope'⟩
      · exact .inr ⟨function.trans function', scope.trans scope'⟩

lemma Later.unshared {ids : List SymId} (h : Later a b) (unshared : a.Unshared ids)
    (known : ∀ id ∈ ids, id < a.symbols.size) : b.Unshared ids :=
  unshared.congr fun id mem => h.name id (known id mem)

lemma Resumes.of_extends (h : a.Orderly) (ext : a.symbols.Extends b.symbols)
    (function : b.function = a.function) (locals : b.locals = a.locals) (params : b.params = a.params) :
    Resumes a b where
  size := ext.size
  name id lt := (ext.stands id lt).name
  scope := by
    refine .inr ⟨function, ?_⟩
    rw [← scope_extend h ext, scope, scope, function, locals]
    rfl
  params none := params.trans none

end SymbolTable

namespace Parse

open SymbolTable

/-- What is known of the tables before and after a part of the grammar. -/
structure Mode where
  pre : SymbolTable → Prop
  rel : SymbolTable → SymbolTable → Prop
  refl (st : SymbolTable) : rel st st
  trans {a b c : SymbolTable} : rel a b → rel b c → rel a c
  resumes {a b : SymbolTable} : Resumes a b → rel a b
  keep {a b : SymbolTable} : pre a → rel a b → pre b

namespace Mode

/-- Expressions, types, and declarations of members or of file scope. -/
def quiet : Mode where
  pre _ := True
  rel := Resumes
  refl st := ⟨⟨.refl st, .inr ⟨rfl, rfl⟩⟩, fun h => h⟩
  trans h k := ⟨h.toWithin.trans k.toWithin, fun none => k.params (h.params none)⟩
  resumes h := h
  keep _ _ := trivial

def collecting : Mode where
  pre _ := True
  rel := Within
  refl st := ⟨.refl st, .inr ⟨rfl, rfl⟩⟩
  trans h k := h.trans k
  resumes h := h.toWithin
  keep _ _ := trivial

def inside : Mode where
  pre st := st.params = []
  rel := Proceeds
  refl st := ⟨.refl st, fun h => h⟩
  trans h k := ⟨h.toLater.trans k.toLater, fun none => k.params (h.params none)⟩
  resumes h := ⟨h.toLater, h.params⟩
  keep none h := h.params none

end Mode

def Keeps {α : Type} (m : Mode) (x : Parse α) : Prop :=
  ∀ s : ParseState, s.table.Orderly → m.pre s.table →
    Runs x s (fun _ s' => s'.table.Orderly ∧ m.rel s.table s'.table) fun _ s' => s'.table.Orderly

variable {α β : Type} {m : Mode}
variable {x : Parse α}

namespace Keeps

lemma after (hx : Keeps m x) {old : SymbolTable} {s : ParseState} (hs : s.table.Orderly)
    (pre : m.pre s.table) (rel : m.rel old s.table) :
    Runs x s (fun _ s' => s'.table.Orderly ∧ m.rel old s'.table) fun _ s' => s'.table.Orderly :=
  (hx s hs pre).mono fun _ _ h => ⟨h.1, m.trans rel h.2⟩

lemma bind {x : Parse β} {f : β → Parse α} (hx : Keeps m x) (hf : ∀ b, Keeps m (f b)) :
    Keeps m (x >>= f) := by
  intro s hs pre
  refine (hx s hs pre).bind ?_
  rintro b s1 ⟨hs1, rel⟩
  exact (hf b).after hs1 (m.keep pre rel) rel

lemma bindEnds {x : Parse β} {f : β → Parse α} {V : β → Prop} (hx : Keeps m x)
    (value : ∀ s, Ends x s fun b _ => V b) (hf : ∀ b, V b → Keeps m (f b)) : Keeps m (x >>= f) := by
  intro s hs pre
  refine ((hx s hs pre).also (value s)).bind ?_
  rintro b s1 ⟨⟨hs1, rel⟩, is⟩
  exact (hf b is).after hs1 (m.keep pre rel) rel

lemma ofQuiet (hx : Keeps .quiet x) : Keeps m x := fun s hs _ =>
  (hx s hs trivial).mono fun _ _ h => ⟨h.1, m.resumes h.2⟩

lemma iterate {step : β → Parse (β ⊕ α)} {b : β} (hstep : ∀ b, Keeps m (step b)) :
    Keeps m (iterate step b) := by
  intro s hs pre
  refine Runs.iterate (fun _ s' => s'.table.Orderly ∧ m.rel s.table s'.table) ⟨hs, m.refl _⟩
    (fun _ _ h => h.1) ?_
  rintro b s1 ⟨hs1, rel⟩
  refine ((hstep b).after hs1 (m.keep pre rel) rel).mono ?_
  rintro (b' | a) s' kept
  · exact kept
  · exact kept

end Keeps

/-! ## Steps -/

lemma keeps_of_table
    (h : ∀ s, Runs x s (fun _ s' => s'.table = s.table) fun _ s' => s'.table = s.table) :
    Keeps m x := by
  intro s hs _
  refine (h s).imp (fun _ s' same => ?_) fun _ s' same => ?_
  · rw [same]
    exact ⟨hs, m.refl _⟩
  · rwa [same]

lemma keeps_emit {code : Lower α} : Keeps m (emit code) :=
  keeps_of_table fun _ => runs_emit (fun _ _ _ => rfl) fun _ _ _ => rfl

lemma keeps_update {id : SymId} {f : Symbol → Symbol} (stands : ∀ s : Symbol, s.Stands (f s))
    (members : ∀ s, (f s).members = s.members) : Keeps m (modifyTable fun st => st.update id f) := by
  intro s hs _
  have ext : s.table.symbols.Extends (s.table.symbols.update id f) :=
    .update (fun _ => stands _) (members _)
  exact ⟨hs.extend ext, m.resumes (.of_extends hs ext rfl rfl rfl)⟩

lemma keeps : ClosedReading (Keeps m) where
  view f := keeps_of_table fun _ => rfl
  fail _ := keeps_of_table fun _ => ⟨rfl, rfl⟩
  bind := .bind
  update id f same := by
    refine keeps_update (fun s => ?_) fun s => ?_
    · rw [same s]
      exact ⟨rfl, Iff.rfl, Iff.rfl⟩
    · rw [same s]
  advance := keeps_of_table fun _ => rfl
  iterate := .iterate
  string first := by
    refine .bind keeps_emit fun _ => .bind (.iterate fun text => .bind (keeps_of_table fun _ => rfl)
      fun _ => ?_) fun _ => keeps_emit.bind fun _ => keeps_of_table fun _ => rfl
    split
    · exact .bind (keeps_of_table fun _ => rfl) fun _ => keeps_of_table fun _ => rfl
    · exact keeps_of_table fun _ => rfl
  count {f} same := keeps_of_table fun s => show (f s).table = s.table by rw [same s]

end Parse

/-- How a declaration with a storage class changes the tables. -/
def StorageClass.mode : StorageClass → Parse.Mode
  | .local => .inside
  | .param => .collecting
  | _ => .quiet

/-- The storage classes that names are declared with. -/
def StorageClass.IsDeclared (storage : StorageClass) : Prop :=
  storage.isFileScope = true ∨ storage = .local ∨ storage = .param ∨ storage = .member

open Parse in
structure Grammar.Orderly (g : Grammar) : Prop where
  expression : ∀ power, Keeps .quiet (g.expression power)
  unaryExpression : Keeps .quiet g.unaryExpression
  typeSpec : ∀ storage, Keeps .quiet (g.typeSpec storage)
  declaration : ∀ storage end1 end2, storage.IsDeclared →
    Keeps storage.mode (g.declaration storage end1 end2)
  statement : Keeps .inside g.statement
  block : ∀ inSwitch, Keeps .inside (g.block inSwitch)
  resolve : ∀ name, Keeps .quiet (g.resolve name)

lemma Grammar.Orderly.has {g : Grammar} (hg : g.Orderly) (m : Parse.Mode) : g.Has (Parse.Keeps m) where
  expression power := (hg.expression power).ofQuiet
  unaryExpression := hg.unaryExpression.ofQuiet
  typeSpec storage := (hg.typeSpec storage).ofQuiet
  resolve name := (hg.resolve name).ofQuiet

end SmallC
