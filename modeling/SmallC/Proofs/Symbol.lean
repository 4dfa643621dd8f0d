import Mathlib
import SmallC.Symbol.Table

/-!
# Symbols that change

Reading after a change, and what stays when symbols are added and changed: names, types, kinds and
end labels. A symbol of file scope stays one, so does a variable of a function, what has an address
keeps it, and a function that is defined stays so and keeps its parameters. Initial values and offsets
may change, and sizes of what is no plain variable of a function.
-/

namespace SmallC

variable {p : SymId → Symbol → Prop} {a b : Symbol}

/-- A variable of a function, which stands in its frame: a local or a parameter. -/
def Symbol.isFrame (s : Symbol) : Bool := s.storage = .local || s.storage = .param

def Symbol.isParam (s : Symbol) : Bool := s.storage = .param

/-- A variable of a function is as large as its type says. A local with the type of a pointer may be
an array. -/
def Symbol.Sized (s : Symbol) : Prop :=
  s.isFrame = true → s.isParam = true ∨ s.type.isPointer = false →
    ∀ n, s.type.scalarSize = .ok n → s.size = n

/-- An array among the variables of a function has an address, and so has a struct or union among its
locals. -/
def Symbol.Housed (s : Symbol) : Prop :=
  s.isFrame = true → s.kind = .array ∨ s.type.isComposite = true ∧ s.isParam = false →
    s.hasAddr = true

/-- What is known of the place that a variable of a function takes. -/
structure Symbol.Fit (s : Symbol) : Prop where
  sized : s.Sized
  housed : s.Housed

/-- A later form of a symbol: the parts that trees and code rely on are the same. -/
structure Symbol.Resembles (a b : Symbol) : Prop where
  name : b.name = a.name
  type : b.type = a.type
  kind : b.kind = a.kind
  endLabel : b.endLabel = a.endLabel
  fileScope : a.isFileScope = true → b.isFileScope = true
  defined : a.defined = true → b.defined = true
  defines : b.defined = true → a.defined = true ∨ b.kind = .function
  frame : b.isFrame = a.isFrame
  param : b.isParam = a.isParam
  hasAddr : a.hasAddr = true → b.hasAddr = true
  sized : a.Sized → b.Sized

/-- A later form of a symbol that keeps the parameters of a function once it is defined. -/
structure Symbol.Keeps (a b : Symbol) : Prop extends a.Resembles b where
  members : a.defined = true → b.members = a.members

lemma Symbol.Resembles.refl (a : Symbol) : a.Resembles a :=
  ⟨rfl, rfl, rfl, rfl, fun h => h, fun h => h, .inl, rfl, rfl, fun h => h, fun h => h⟩

lemma Symbol.Resembles.fit (h : a.Resembles b) (ha : a.Fit) : b.Fit where
  sized := h.sized ha.sized
  housed frame what := by
    rw [h.frame] at frame
    rw [h.kind, h.type, h.param] at what
    exact h.hasAddr (ha.housed frame what)

lemma Symbol.Keeps.refl (a : Symbol) : a.Keeps a := ⟨.refl a, fun _ => rfl⟩

lemma Symbol.Keeps.trans {c : Symbol} (h : a.Keeps b) (k : b.Keeps c) : a.Keeps c where
  name := k.name.trans h.name
  type := k.type.trans h.type
  kind := k.kind.trans h.kind
  endLabel := k.endLabel.trans h.endLabel
  fileScope ha := k.fileScope (h.fileScope ha)
  defined ha := k.defined (h.defined ha)
  defines hc := (k.defines hc).elim (fun hb => (h.defines hb).imp_right k.kind.trans) .inr
  frame := k.frame.trans h.frame
  param := k.param.trans h.param
  hasAddr ha := k.hasAddr (h.hasAddr ha)
  sized ha := k.sized (h.sized ha)
  members ha := (k.members (h.defined ha)).trans (h.members ha)

def Symbol.core (s : Symbol) :
    Text × CType × Kind × Int × StorageClass × Bool × Int64 × List SymId :=
  (s.name, s.type, s.kind, s.endLabel, s.storage, s.defined, s.size, s.members)

lemma Symbol.Keeps.of_core (h : b.core = a.core) (hasAddr : a.hasAddr = true → b.hasAddr = true) :
    a.Keeps b := by
  simp only [Symbol.core, Prod.mk.injEq] at h
  obtain ⟨name, type, kind, endLabel, storage, defined, size, members⟩ := h
  refine ⟨⟨name, type, kind, endLabel, fun hs => ?_, fun hd => ?_, fun hd => ?_, ?_, ?_, hasAddr,
    fun hz => ?_⟩, fun _ => members⟩
  · rw [Symbol.isFileScope, storage]
    exact hs
  · rw [defined]
    exact hd
  · rw [defined] at hd
    exact .inl hd
  · rw [Symbol.isFrame, storage, Symbol.isFrame]
  · rw [Symbol.isParam, storage, Symbol.isParam]
  · rw [Symbol.Sized, Symbol.isFrame, Symbol.isParam, storage, type, size]
    exact hz

variable {s : Symbol}

lemma Symbol.isFrame_eq_false (h : s.isFileScope = true) : s.isFrame = false := by
  unfold Symbol.isFileScope at h
  unfold Symbol.isFrame
  cases hs : s.storage <;> simp_all [StorageClass.isFileScope]

lemma Symbol.isFrame_of_isParam (h : s.isParam = true) : s.isFrame = true :=
  Bool.or_eq_true_iff.mpr (.inr h)

lemma Symbol.isParam_eq_false (h : s.isFrame = false) : s.isParam = false := by
  unfold Symbol.isFrame at h
  unfold Symbol.isParam
  simp_all

lemma Symbol.Fit.of_not_frame (h : s.isFrame = false) : s.Fit where
  sized frame := absurd frame (ne_true_of_eq_false h)
  housed frame := absurd frame (ne_true_of_eq_false h)

lemma Symbol.Sized.of_pointer (hp : s.isParam = false) (h : s.type.isPointer = true) : s.Sized := by
  rintro - (param | plain)
  · rw [hp] at param
    cases param
  · rw [h] at plain
    cases plain

namespace Symbols

variable {ss : Symbols}

section
variable {id other : SymId} {f : Symbol → Symbol}

lemma get_of_size_le (h : ss.size ≤ id) : ss.get id = default := by
  simp [get, h]

@[simp] lemma size_update (ss : Symbols) (id : SymId) (f : Symbol → Symbol) :
    (ss.update id f).size = ss.size := by simp [update]

lemma getElem?_update (ss : Symbols) (id other : SymId) (f : Symbol → Symbol) :
    (ss.update id f)[other]? = if id = other then ss[other]?.map f else ss[other]? :=
  Array.getElem?_modify

lemma get_update (h : id < ss.size) (f : Symbol → Symbol) (other : SymId) :
    (ss.update id f).get other = if other = id then f (ss.get id) else ss.get other := by
  unfold get
  rw [getElem?_update]
  by_cases ho : other = id
  · subst ho
    simp [h]
  · rw [if_neg ho, if_neg (Ne.symm ho)]

lemma get_update_ne (h : id ≠ other) : (ss.update id f).get other = ss.get other := by
  simp only [get, getElem?_update, if_neg h]

lemma forall_get_update (old : ∀ other, p other (ss.get other)) (new : id < ss.size → p id (f (ss.get id)))
    (other : SymId) : p other ((ss.update id f).get other) := by
  by_cases here : id = other
  · subst other
    by_cases lt : id < ss.size
    · rw [get_update lt, if_pos rfl]
      exact new lt
    · have out := Nat.le_of_not_lt lt
      rw [get_of_size_le ((size_update ss id f).symm ▸ out), ← get_of_size_le out]
      exact old id
  · rw [get_update_ne here]
    exact old other

lemma get_push (h : id < ss.size) : Symbols.get (ss.push s) id = ss.get id := by
  simp [get, Array.getElem?_push, Nat.ne_of_lt h]

end

@[simp] lemma get_push_size (ss : Symbols) (s : Symbol) : Symbols.get (ss.push s) ss.size = s := by
  simp [get]

lemma update_push_size (ss : Symbols) (s : Symbol) (f : Symbol → Symbol) :
    Symbols.update (ss.push s) ss.size f = ss.push (f s) := by
  refine Array.ext_getElem? fun i => ?_
  rw [getElem?_update]
  by_cases h : ss.size = i
  · subst h
    simp
  · simp [Array.getElem?_push, h, Ne.symm h]

/-- Later symbols: there may be more of them, and those there are kept. -/
structure Grows (a b : Symbols) : Prop where
  size : a.size ≤ b.size
  keeps : ∀ id < a.size, (a.get id).Keeps (b.get id)

namespace Grows

lemma refl (a : Symbols) : a.Grows a := ⟨Nat.le_refl _, fun _ _ => .refl _⟩

lemma later {p : Symbol → Prop} {a b : Symbols} {id : SymId} (h : a.Grows b)
    (kept : ∀ {x y : Symbol}, x.Keeps y → p x → p y) (known : id < a.size ∧ p (a.get id)) :
    id < b.size ∧ p (b.get id) :=
  ⟨Nat.lt_of_lt_of_le known.1 h.size, kept (h.keeps id known.1) known.2⟩

lemma trans {a b c : Symbols} (h : a.Grows b) (k : b.Grows c) : a.Grows c where
  size := Nat.le_trans h.size k.size
  keeps id hid := (h.keeps id hid).trans (k.keeps id (Nat.lt_of_lt_of_le hid h.size))

lemma update {a : Symbols} {id : SymId} {f : Symbol → Symbol}
    (keeps : id < a.size → (a.get id).Keeps (f (a.get id))) : a.Grows (a.update id f) where
  size := by simp
  keeps other _ := forall_get_update (p := fun i s => (a.get i).Keeps s) (fun _ => .refl _) keeps other

lemma push (a : Symbols) (s : Symbol) : a.Grows (a.push s) where
  size := by simp
  keeps id h := by
    rw [get_push h]
    exact .refl _

end Grows
end Symbols

namespace SymbolTable

variable {st st' : SymbolTable} {id : SymId} {f : Symbol → Symbol}

lemma get_push (symbols : st'.symbols = st.symbols.push s) (lt : id < st.symbols.size) :
    st'.get id = st.get id := by
  rw [SymbolTable.get, symbols]
  exact Symbols.get_push lt

lemma get_push_size (symbols : st'.symbols = st.symbols.push s) : st'.get st.symbols.size = s := by
  rw [SymbolTable.get, symbols]
  exact Symbols.get_push_size _ _

lemma get_of_size_le (h : st.symbols.size ≤ id) : st.get id = default := Symbols.get_of_size_le h

lemma get_push_of_le (symbols : st'.symbols = st.symbols.push s) (le : st.symbols.size ≤ id) :
    st'.get id = s ∨ st'.get id = default := by
  rcases Nat.eq_or_lt_of_le le with rfl | lt
  · exact .inl (get_push_size symbols)
  · exact .inr (get_of_size_le (by rw [symbols, Array.size_push]; omega))

lemma get_congr (symbols : st'.symbols = st.symbols) (id : SymId) : st'.get id = st.get id :=
  congrArg (Symbols.get · id) symbols

lemma get_update (lt : id < st.symbols.size) (f : Symbol → Symbol) :
    (st.update id f).get id = f (st.get id) :=
  (Symbols.get_update lt f id).trans (if_pos rfl)

lemma get_update_ne {other : SymId} (h : id ≠ other) : (st.update id f).get other = st.get other :=
  Symbols.get_update_ne h

lemma forall_get_update (old : ∀ other, p other (st.get other))
    (new : id < st.symbols.size → p id (f (st.get id))) (other : SymId) :
    p other ((st.update id f).get other) :=
  Symbols.forall_get_update old new other

end SymbolTable
end SmallC
