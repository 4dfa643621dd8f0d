import SmallC.Proofs.Lowering.Layout
import SmallC.Proofs.Parse.Outcomes

/-!
# What reading keeps

`Sound` is what holds of every state that is reached without a diagnostic: tables name symbols that there are,
each function has an end label of its own, no label is placed twice, and the lines are those of the functions
finished. `Leads` says how a later state follows from an earlier one. Reading may finish functions that stand
inside of what is read; otherwise reading an expression or a type changes no scope: it is `Quiet`. Functions
stand inside of others only where a word of storage class does. `Clean` says that there is none ahead.
-/

namespace SmallC

open Ir

namespace SymbolTable

variable {st st' : SymbolTable} {name : Text} {id : SymId} {t : Tree}

def scope (st : SymbolTable) : List SymId :=
  (st.function.elim [] fun f => (st.get f).members) ++ st.locals

lemma findLocal_eq (st : SymbolTable) (name : Text) :
    st.findLocal name = st.findIn st.scope name := by
  unfold findLocal scope findIn
  rw [List.find?_append]
  cases st.function <;> rfl

/-- The symbol is the one that its name stands for in the function at hand. -/
def Finds (st : SymbolTable) (id : SymId) : Prop := st.findIn st.scope (st.get id).name = some id

variable {ids : List SymId}

lemma mem_of_findIn (h : st.findIn ids name = some id) : id ∈ ids ∧ (st.get id).name = name := by
  refine ⟨List.mem_of_find?_eq_some h, ?_⟩
  simpa using List.find?_some h

lemma name_ne_of_findIn (h : st.findIn ids name = none) (hid : id ∈ ids) : (st.get id).name ≠ name := by
  simpa using List.find?_eq_none.mp h id hid

def Unshared (st : SymbolTable) (ids : List SymId) : Prop :=
  (ids.map fun id => (st.get id).name).Nodup

lemma Unshared.congr (h : st.Unshared ids) (names : ∀ id ∈ ids, (st'.get id).name = (st.get id).name) :
    st'.Unshared ids := by
  unfold Unshared
  rw [List.map_congr_left names]
  exact h

lemma Unshared.concat (h : st.Unshared ids) (fresh : ∀ other ∈ ids, (st.get other).name ≠ (st.get id).name) :
    st.Unshared (ids ++ [id]) := by
  unfold Unshared
  rw [List.map_append, List.map_singleton]
  refine List.nodup_append.mpr ⟨h, by simp, ?_⟩
  intro a ha b hb
  obtain ⟨other, mem, rfl⟩ := List.mem_map.mp ha
  rw [List.mem_singleton.mp hb]
  exact fresh other mem

def IsFunction (st : SymbolTable) (f : SymId) : Prop :=
  f < st.symbols.size ∧ (st.get f).kind = .function

/-- The lists of a table name symbols that there are. -/
structure Sound (st : SymbolTable) : Prop where
  function : ∀ f, st.function = some f → f < st.symbols.size ∧ (st.get f).defined = true
  known : ∀ id ∈ st.scope ++ st.params, id < st.symbols.size ∧ (st.get id).isFrame = true
  locals : ∀ id ∈ st.locals, (st.get id).isParam = false
  params : ∀ id ∈ st.params, (st.get id).isParam = true
  globals : ∀ id ∈ st.globals, id < st.symbols.size ∧ (st.get id).isFileScope = true
  defined : ∀ id < st.symbols.size, (st.get id).defined = true → (st.get id).kind = .function
  fit : ∀ id < st.symbols.size, (st.get id).Fit

lemma Sound.local_lt (h : st.Sound) (hid : id ∈ st.locals) : id < st.symbols.size :=
  (h.known id (by simp [SymbolTable.scope, hid])).1

lemma Sound.scope_lt (h : st.Sound) (hid : id ∈ st.scope) : id < st.symbols.size :=
  (h.known id (List.mem_append_left _ hid)).1

end SymbolTable

namespace ParseState

variable {st' st : SymbolTable} {ids : List SymId}

/-- Reading stands outside of functions, and the parameters read so far have different names. -/
structure Outer (s : ParseState) : Prop where
  function : s.table.function = none
  scope : s.table.scope = []
  params : s.table.Unshared s.table.params

def Clean (s : ParseState) : Prop := ∀ t ∈ s.rest, t.kind ≠ .staticKw ∧ t.kind ≠ .externKw

structure Sound (s : ParseState) : Prop where
  table : s.table.Sound
  positive : 0 ≤ s.out.labels
  ends : ∀ f, s.table.IsFunction f →
    0 < (s.table.get f).endLabel ∧ (s.table.get f).endLabel ≤ s.out.labels
  apart : ∀ f g, s.table.IsFunction f → s.table.IsFunction g →
    (s.table.get f).endLabel = (s.table.get g).endLabel → f = g
  placed : ∀ f, s.table.IsFunction f → (s.table.get f).endLabel ∈ labelsOf s.out.lines.toList →
    ∃ d ∈ s.functions, d.sym = f
  finished : ∀ d ∈ s.functions, d.sym < s.table.symbols.size ∧ (s.table.get d.sym).defined = true
  labels : ∀ l ∈ labelsOf s.out.lines.toList, 0 < l ∧ l ≤ s.out.labels
  nodup : (labelsOf s.out.lines.toList).Nodup
  layout : Layout s.out.temps s.functions.toList s.out.lines.toList

/-- Where reading breaks off, the functions finished have been read whole. The code of the last one may be
what is wrong. -/
def Breaks (_ : Fault) (s : ParseState) : Prop := ∀ d ∈ s.functions, d.Shaped

structure Leads (s s' : ParseState) : Prop where
  sound : s'.Sound
  symbols : s.table.symbols.Grows s'.table.symbols
  /-- A function that was being defined before is not finished again. -/
  finished : ∀ id < s.table.symbols.size, (s.table.get id).defined = true →
    (∃ d ∈ s'.functions, d.sym = id) → ∃ d ∈ s.functions, d.sym = id
  scope : s'.table.function = none ∨
    s'.table.function = s.table.function ∧ s.table.scope <+: s'.table.scope
  functions : s.functions.size ≤ s'.functions.size
  counters : s'.functions.size = s.functions.size → s'.loops = s.loops ∧ s'.switches = s.switches
  /-- The function at hand is lost only where another one ends. -/
  current : s'.functions.size = s.functions.size → s'.table.function = s.table.function
  /-- Parameters are replaced only where a function ends. -/
  signatures : s'.functions.size = s.functions.size → ∀ f < s.table.symbols.size,
    (s'.table.get f).members = (s.table.get f).members
  unshared : s.table.Unshared s.table.scope → s'.table.function ≠ none →
    s'.table.Unshared s'.table.scope
  clean : s.Clean → s'.Clean
  inside : s.Clean → ∀ d ∈ s'.functions,
    d ∈ s.functions ∨ d.body.strays true true = false ∧ d.Closed

/-- The scope is as before, or there is none, and parameters still have different names. -/
structure Kept (s s' : ParseState) : Prop where
  scope : s'.table.function = none ∧ s'.table.scope = [] ∨
    s'.table.function = s.table.function ∧ s'.table.scope = s.table.scope
  params : s.table.Unshared s.table.params → s'.table.Unshared s'.table.params

structure Quiet (s s' : ParseState) : Prop extends Leads s s' where
  kept : Kept s s'
  still : s.Clean → s'.functions = s.functions

structure Proceeds (s s' : ParseState) : Prop extends Leads s s' where
  still : s.Clean → s'.functions = s.functions

variable {s s1 s' s'' : ParseState}
variable {id : SymId} {storage : StorageClass} {f : Symbol → Symbol} {sym : Symbol}

lemma Sound.breaks (h : s.Sound) (fault : Fault) : Breaks fault s :=
  fun d hd => h.layout.shaped d (Array.mem_toList_iff.mpr hd)

lemma Leads.trans (h : Leads s s') (k : Leads s' s'') : Leads s s'' where
  sound := k.sound
  symbols := h.symbols.trans k.symbols
  finished id hid hd hf :=
    h.finished id hid hd (k.finished id (Nat.lt_of_lt_of_le hid h.symbols.size)
      ((h.symbols.keeps id hid).defined hd) hf)
  scope := by
    rcases k.scope with none | ⟨same, sub⟩
    · exact .inl none
    · rcases h.scope with none | ⟨same', sub'⟩
      · exact .inl (same.trans none)
      · exact .inr ⟨same.trans same', sub'.trans sub⟩
  functions := Nat.le_trans h.functions k.functions
  counters hsize := by
    have h1 := h.functions
    have h2 := k.functions
    obtain ⟨l1, w1⟩ := h.counters (by omega)
    obtain ⟨l2, w2⟩ := k.counters (by omega)
    exact ⟨l2.trans l1, w2.trans w1⟩
  current hsize := by
    have h1 := h.functions
    have h2 := k.functions
    exact (k.current (by omega)).trans (h.current (by omega))
  signatures hsize f hf := by
    have h1 := h.functions
    have h2 := k.functions
    exact (k.signatures (by omega) f (Nat.lt_of_lt_of_le hf h.symbols.size)).trans
      (h.signatures (by omega) f hf)
  unshared hu hf := by
    have before := (k.scope.resolve_left hf).1
    exact k.unshared (h.unshared hu (before ▸ hf)) hf
  clean hc := k.clean (h.clean hc)
  inside hc d hd := by
    rcases k.inside (h.clean hc) d hd with hd | hd
    · exact h.inside hc d hd
    · exact .inr hd

lemma Kept.trans (h : Kept s s') (k : Kept s' s'') : Kept s s'' := by
  refine ⟨?_, fun hp => k.params (h.params hp)⟩
  rcases k.scope with none | ⟨f, sc⟩
  · exact .inl none
  · rcases h.scope with ⟨f', sc'⟩ | ⟨f', sc'⟩
    · exact .inl ⟨f.trans f', sc.trans sc'⟩
    · exact .inr ⟨f.trans f', sc.trans sc'⟩

lemma Kept.outer (k : Kept s s') (h : s.Outer) : s'.Outer := by
  have scope : s'.table.function = none ∧ s'.table.scope = [] := by
    rcases k.scope with none | ⟨f, sc⟩
    · exact none
    · exact ⟨f.trans h.function, sc.trans h.scope⟩
  exact ⟨scope.1, scope.2, k.params h.params⟩

lemma Quiet.trans (h : Quiet s s') (k : Quiet s' s'') : Quiet s s'' where
  toLeads := h.toLeads.trans k.toLeads
  kept := h.kept.trans k.kept
  still hc := (k.still (h.clean hc)).trans (h.still hc)

lemma Quiet.proceeds (h : Quiet s s') : Proceeds s s' := { h with }

lemma Proceeds.trans (h : Proceeds s s') (k : Proceeds s' s'') : Proceeds s s'' where
  toLeads := h.toLeads.trans k.toLeads
  still hc := (k.still (h.clean hc)).trans (h.still hc)

/-! ## Taking tokens -/

lemma Clean.advanced (h : s.Clean) : s.advanced.Clean := fun t ht => h t (List.mem_of_mem_tail ht)

lemma Clean.front (h : s.Clean) : s.front.kind ≠ .staticKw ∧ s.front.kind ≠ .externKw := by
  change (s.rest.headD default).kind ≠ _ ∧ (s.rest.headD default).kind ≠ _
  cases hr : s.rest with
  | nil => decide
  | cons t ts => exact h t (by simp [hr])

lemma Sound.advanced (h : s.Sound) : s.advanced.Sound := { h with }

lemma Leads.of_advanced (h : Leads s.advanced s') : Leads s s' :=
  { h with clean := fun hc => h.clean hc.advanced, inside := fun hc => h.inside hc.advanced }

lemma Proceeds.of_advanced (h : Proceeds s.advanced s') : Proceeds s s' where
  toLeads := h.toLeads.of_advanced
  still hc := h.still hc.advanced

lemma Quiet.of_advanced (h : Quiet s.advanced s') : Quiet s s' where
  toLeads := h.toLeads.of_advanced
  kept := { h.kept with }
  still hc := h.still hc.advanced

lemma Quiet.refl (h : s.Sound) : Quiet s s where
  sound := h
  symbols := .refl _
  finished _ _ _ hf := hf
  scope := .inr ⟨rfl, List.prefix_rfl⟩
  functions := Nat.le_refl _
  counters _ := ⟨rfl, rfl⟩
  current _ := rfl
  signatures _ _ _ := rfl
  unshared hu _ := hu
  clean hc := hc
  inside _ _ hd := .inl hd
  kept := ⟨.inr ⟨rfl, rfl⟩, fun hp => hp⟩
  still _ := rfl

lemma Quiet.advanced (h : s.Sound) : Quiet s s.advanced := (Quiet.refl h.advanced).of_advanced

/-! ## Changing tables -/

lemma Sound.withTable (hs : s.Sound) (ht : st.Sound) (size : s.table.symbols.size ≤ st.symbols.size)
    (old : ∀ id < s.table.symbols.size, (s.table.get id).Resembles (st.get id))
    (new : ∀ id, s.table.symbols.size ≤ id → ¬ st.IsFunction id) : Sound { s with table := st } := by
  have same : ∀ f, st.IsFunction f →
      s.table.IsFunction f ∧ (st.get f).endLabel = (s.table.get f).endLabel := by
    intro f hf
    have lt : f < s.table.symbols.size := by
      by_contra h
      exact new f (Nat.le_of_not_lt h) hf
    have like := old f lt
    exact ⟨⟨lt, like.kind.symm.trans hf.2⟩, like.endLabel⟩
  constructor
  case table => exact ht
  case positive => exact hs.positive
  case ends =>
    intro f hf
    obtain ⟨old, label⟩ := same f hf
    simp only [label]
    exact hs.ends f old
  case apart =>
    intro f g hf hg heq
    obtain ⟨oldf, labelf⟩ := same f hf
    obtain ⟨oldg, labelg⟩ := same g hg
    exact hs.apart f g oldf oldg (labelf.symm.trans (heq.trans labelg))
  case placed =>
    intro f hf hl
    obtain ⟨old, label⟩ := same f hf
    simp only [label] at hl
    exact hs.placed f old hl
  case finished =>
    intro d hd
    obtain ⟨lt, defined⟩ := hs.finished d hd
    exact ⟨Nat.lt_of_lt_of_le lt size, (old d.sym lt).defined defined⟩
  case labels => exact hs.labels
  case nodup => exact hs.nodup
  case layout => exact hs.layout

lemma Sound.relisted (hs : s.Sound) (size : st.symbols.size = s.table.symbols.size)
    (like : ∀ id < s.table.symbols.size, (s.table.get id).Resembles (st.get id))
    (function : ∀ f, st.function = some f → f < s.table.symbols.size ∧ (st.get f).defined = true)
    (known : ∀ id ∈ st.scope ++ st.params, id < s.table.symbols.size ∧ (s.table.get id).isFrame = true)
    (locals : st.locals ⊆ s.table.locals) (params : st.params ⊆ s.table.params)
    (globals : st.globals ⊆ s.table.globals) : Sound { s with table := st } := by
  have ht := hs.table
  refine hs.withTable ?_ (Nat.le_of_eq size.symm) like fun id hle hf =>
    absurd (size ▸ hf.1) (Nat.not_lt_of_le hle)
  constructor
  case function => exact fun f hf => (function f hf).imp_left fun lt => size ▸ lt
  case known =>
    intro id hid
    obtain ⟨lt, frame⟩ := known id hid
    exact ⟨size ▸ lt, (like id lt).frame.trans frame⟩
  case locals =>
    intro id hid
    exact (like id (ht.local_lt (locals hid))).param.trans (ht.locals id (locals hid))
  case params =>
    intro id hid
    have lt := (ht.known id (List.mem_append_right _ (params hid))).1
    exact (like id lt).param.trans (ht.params id (params hid))
  case globals =>
    intro id hid
    obtain ⟨lt, fileScope⟩ := ht.globals id (globals hid)
    exact ⟨size ▸ lt, (like id lt).fileScope fileScope⟩
  case defined =>
    intro id hid hd
    rw [size] at hid
    rcases (like id hid).defines hd with hd | hk
    · exact (like id hid).kind.trans (ht.defined id hid hd)
    · exact hk
  case fit =>
    intro id hid
    rw [size] at hid
    exact (like id hid).fit (ht.fit id hid)

/-- A change of tables that keeps symbols and stays in the function at hand. -/
structure TableGrows (st st' : SymbolTable) : Prop where
  symbols : st.symbols.Grows st'.symbols
  undefined : ∀ id, st.symbols.size ≤ id → id < st'.symbols.size → (st'.get id).defined = false
  fit : ∀ id, st.symbols.size ≤ id → id < st'.symbols.size → (st'.get id).Fit
  signatures : ∀ id < st.symbols.size, (st'.get id).members = (st.get id).members
  function : st'.function = st.function
  locals : st.locals <+: st'.locals
  known : ∀ id ∈ st'.locals ++ st'.params,
    id ∈ st.locals ++ st.params ∨ id < st'.symbols.size ∧ (st'.get id).isFrame = true
  inner : ∀ id ∈ st'.locals, id ∈ st.locals ∨ id < st'.symbols.size ∧ (st'.get id).isParam = false
  params : ∀ id ∈ st'.params, id ∈ st.params ∨ id < st'.symbols.size ∧ (st'.get id).isParam = true
  globals : ∀ id ∈ st'.globals,
    id ∈ st.globals ∨ id < st'.symbols.size ∧ (st'.get id).isFileScope = true
  unshared : st.Sound → st.Unshared st.scope → st'.Unshared st'.scope
  parted : st.Sound → st.Unshared st.params → st'.Unshared st'.params

/-- A change of tables that adds no functions. -/
structure TableKept (st st' : SymbolTable) : Prop extends TableGrows st st' where
  plain : ∀ id, st.symbols.size ≤ id → id < st'.symbols.size → (st'.get id).kind ≠ .function

lemma scopeMembers (hs : st.Sound) (function : st'.function = st.function)
    (signatures : ∀ id < st.symbols.size, (st'.get id).members = (st.get id).members) :
    (st'.function.elim [] fun f => (st'.get f).members) =
      st.function.elim [] fun f => (st.get f).members := by
  rw [function]
  cases hf : st.function with
  | none => rfl
  | some f => exact signatures f (hs.function f hf).1

namespace TableGrows

variable {st st' : SymbolTable}

lemma members (hs : st.Sound) (h : TableGrows st st') :
    (st'.function.elim [] fun f => (st'.get f).members) =
      st.function.elim [] fun f => (st.get f).members :=
  scopeMembers hs h.function h.signatures

lemma scope_eq (hs : st.Sound) (h : TableGrows st st') (locals : st'.locals = st.locals) :
    st'.scope = st.scope := by
  unfold SymbolTable.scope
  rw [h.members hs, locals]

lemma sound (hs : st.Sound) (h : TableGrows st st') : st'.Sound where
  function f hf :=
    h.symbols.later (p := (·.defined = true)) (·.defined) (hs.function f (h.function ▸ hf))
  known id hid := by
    have grown : id ∈ st.scope ++ st.params ∨
        id < st'.symbols.size ∧ (st'.get id).isFrame = true := by
      have known := h.known id
      simp only [SymbolTable.scope, h.members hs, List.append_assoc, List.mem_append] at hid known ⊢
      rcases hid with hid | hid
      · exact .inl (.inl hid)
      · exact (known hid).imp_left .inr
    refine grown.elim (fun hid => ?_) fun hid => hid
    exact h.symbols.later (p := (·.isFrame = true)) (·.frame.trans) (hs.known id hid)
  locals id hid := by
    rcases h.inner id hid with hid | hid
    · exact (h.symbols.keeps id (hs.local_lt hid)).param.trans (hs.locals id hid)
    · exact hid.2
  params id hid := by
    rcases h.params id hid with hid | hid
    · have lt := (hs.known id (List.mem_append_right _ hid)).1
      exact (h.symbols.keeps id lt).param.trans (hs.params id hid)
    · exact hid.2
  globals id hid := by
    rcases h.globals id hid with hid | hid
    · exact h.symbols.later (p := (·.isFileScope = true)) (·.fileScope) (hs.globals id hid)
    · exact hid
  defined id hid hd := by
    by_cases lt : id < st.symbols.size
    · have keeps := h.symbols.keeps id lt
      rcases keeps.defines hd with hd | hk
      · exact keeps.kind.trans (hs.defined id lt hd)
      · exact hk
    · rw [h.undefined id (Nat.le_of_not_lt lt) hid] at hd
      cases hd
  fit id hid := by
    by_cases lt : id < st.symbols.size
    · exact (h.symbols.keeps id lt).fit (hs.fit id lt)
    · exact h.fit id (Nat.le_of_not_lt lt) hid

end TableGrows

lemma TableKept.trans {a b c : SymbolTable} (h : TableKept a b) (k : TableKept b c) :
    TableKept a c where
  symbols := h.symbols.trans k.symbols
  undefined id hle hlt := by
    by_cases lt : id < b.symbols.size
    · have keeps := k.symbols.keeps id lt
      refine Bool.eq_false_iff.mpr fun hd => ?_
      refine (keeps.defines hd).elim (ne_true_of_eq_false (h.undefined id hle lt)) fun hk => ?_
      exact h.plain id hle lt (keeps.kind.symm.trans hk)
    · exact k.undefined id (Nat.le_of_not_lt lt) hlt
  fit id hle hlt := by
    by_cases lt : id < b.symbols.size
    · exact (k.symbols.keeps id lt).fit (h.fit id hle lt)
    · exact k.fit id (Nat.le_of_not_lt lt) hlt
  signatures id hid :=
    (k.signatures id (Nat.lt_of_lt_of_le hid h.symbols.size)).trans (h.signatures id hid)
  unshared hs hu := k.unshared (h.sound hs) (h.unshared hs hu)
  parted hs hp := k.parted (h.sound hs) (h.parted hs hp)
  plain id hle hlt := by
    by_cases lt : id < b.symbols.size
    · exact fun hk => h.plain id hle lt ((k.symbols.keeps id lt).kind.symm.trans hk)
    · exact k.plain id (Nat.le_of_not_lt lt) hlt
  function := k.function.trans h.function
  locals := h.locals.trans k.locals
  known id hid := by
    rcases k.known id hid with hid | lt
    · exact (h.known id hid).imp_right (k.symbols.later (p := (·.isFrame = true)) (·.frame.trans))
    · exact .inr lt
  inner id hid := by
    rcases k.inner id hid with hid | lt
    · exact (h.inner id hid).imp_right (k.symbols.later (p := (·.isParam = false)) (·.param.trans))
    · exact .inr lt
  params id hid := by
    rcases k.params id hid with hid | lt
    · exact (h.params id hid).imp_right (k.symbols.later (p := (·.isParam = true)) (·.param.trans))
    · exact .inr lt
  globals id hid := by
    rcases k.globals id hid with hid | lt
    · exact (h.globals id hid).imp_right (k.symbols.later (p := (·.isFileScope = true)) (·.fileScope))
    · exact .inr lt

lemma Leads.withTable (hs : s.Sound) (h : TableKept s.table st) : Leads s { s with table := st } where
  sound := hs.withTable (h.sound hs.table) h.symbols.size
    (fun id hid => (h.symbols.keeps id hid).toResembles)
    fun id hid hf => h.plain id hid hf.1 hf.2
  symbols := h.symbols
  finished _ _ _ hf := hf
  scope := by
    refine .inr ⟨h.function, ?_⟩
    unfold SymbolTable.scope
    rw [h.members hs.table]
    exact List.prefix_append_right_inj _ |>.mpr h.locals
  functions := Nat.le_refl _
  counters _ := ⟨rfl, rfl⟩
  current _ := h.function
  signatures _ := h.signatures
  unshared hu _ := h.unshared hs.table hu
  clean hc := hc
  inside _ _ hd := .inl hd

lemma Quiet.withTable (hs : s.Sound) (h : TableKept s.table st) (locals : st.locals = s.table.locals) :
    Quiet s { s with table := st } where
  toLeads := .withTable hs h
  kept := ⟨.inr ⟨h.function, h.scope_eq hs.table locals⟩, h.parted hs.table⟩
  still _ := rfl

lemma TableKept.same (symbols : st.symbols.Grows st'.symbols) (size : st'.symbols.size = st.symbols.size)
    (signatures : ∀ id < st.symbols.size, (st'.get id).members = (st.get id).members)
    (function : st'.function = st.function) (locals : st'.locals = st.locals)
    (params : st'.params = st.params ∨ st'.params = []) (globals : st'.globals = st.globals) :
    TableKept st st' where
  symbols := symbols
  undefined id hle hlt := absurd (size ▸ hlt) (Nat.not_lt_of_le hle)
  fit id hle hlt := absurd (size ▸ hlt) (Nat.not_lt_of_le hle)
  plain id hle hlt := absurd (size ▸ hlt) (Nat.not_lt_of_le hle)
  signatures := signatures
  function := function
  locals := locals ▸ List.prefix_rfl
  known id hid := by
    rw [locals] at hid
    rcases params with h | h
    · rw [h] at hid
      exact .inl hid
    · rw [h, List.append_nil] at hid
      exact .inl (List.mem_append_left _ hid)
  inner id hid := .inl (locals ▸ hid)
  params id hid := by
    rcases params with h | h
    · exact .inl (h ▸ hid)
    · rw [h] at hid
      cases hid
  globals id hid := .inl (globals ▸ hid)
  unshared hs hu := by
    have scope : st'.scope = st.scope := by
      unfold SymbolTable.scope
      rw [scopeMembers hs function signatures, locals]
    rw [scope]
    exact hu.congr fun id hid => (symbols.keeps id (hs.scope_lt hid)).name
  parted hs hp := by
    rcases params with h | h
    · rw [h]
      exact hp.congr fun id hid =>
        (symbols.keeps id (hs.known id (List.mem_append_right _ hid)).1).name
    · rw [h]
      exact List.nodup_nil

lemma TableKept.lists (symbols : st'.symbols = st.symbols) (function : st'.function = st.function)
    (locals : st'.locals = st.locals) (params : st'.params = st.params ∨ st'.params = [])
    (globals : st'.globals = st.globals) : TableKept st st' := by
  refine .same (symbols ▸ .refl _) (congrArg _ symbols) (fun id _ => ?_) function locals params globals
  rw [SymbolTable.get_congr symbols]

lemma TableKept.update (keeps : id < st.symbols.size → (st.get id).Keeps (f (st.get id)))
    (members : (f (st.get id)).members = (st.get id).members) : TableKept st (st.update id f) := by
  have signatures := SymbolTable.forall_get_update (p := fun i s => s.members = (st.get i).members)
    (fun _ => rfl) fun _ => members
  exact .same (.update keeps) (by simp [SymbolTable.update]) (fun i _ => signatures i) rfl rfl
    (.inl rfl) rfl

lemma Quiet.update (hs : s.Sound)
    (keeps : id < s.table.symbols.size → (s.table.get id).Keeps (f (s.table.get id)))
    (members : (f (s.table.get id)).members = (s.table.get id).members) :
    Quiet s { s with table := s.table.update id f } :=
  .withTable hs (.update keeps members) rfl

lemma Quiet.updateNew (hs : s.Sound) (q : Quiet s s1) (new : s.table.symbols.size ≤ id)
    (like : (s1.table.get id).Resembles (f (s1.table.get id))) :
    Quiet s { s1 with table := s1.table.update id f } := by
  have old : ∀ other, other ≠ id → (s1.table.update id f).get other = s1.table.get other :=
    fun other ho => SymbolTable.get_update_ne (Ne.symm ho)
  have resembles := SymbolTable.forall_get_update (p := fun i s => (s1.table.get i).Resembles s)
    (fun _ => .refl _) fun _ => like
  have size : (s1.table.update id f).symbols.size = s1.table.symbols.size := by
    simp [SymbolTable.update]
  -- The function at hand is one that was there, if there is one.
  have current : ∀ h, s1.table.function = some h → h ≠ id := by
    rintro h hf rfl
    rcases q.kept.scope with ⟨none, -⟩ | ⟨same, -⟩
    · rw [none] at hf
      cases hf
    · have := (hs.table.function h (same ▸ hf)).1
      exact absurd new (Nat.not_le_of_lt this)
  have function : (s1.table.update id f).function = s1.table.function := rfl
  have scope : (s1.table.update id f).scope = s1.table.scope := by
    unfold SymbolTable.scope
    rw [function]
    cases hf : s1.table.function with
    | none => rfl
    | some h =>
      simp only [Option.elim_some, old h (current h hf)]
      rfl
  have differ : ∀ i < s.table.symbols.size, i ≠ id := by
    rintro i hi rfl
    exact absurd new (Nat.not_le_of_lt hi)
  refine { q with
    sound := ?_, symbols := ?_, scope := ?_, signatures := ?_, unshared := ?_, kept := ?_ }
  · refine q.sound.relisted size (fun i _ => resembles i) (fun h hf => ?_) ?_ (List.Subset.refl _)
      (List.Subset.refl _) (List.Subset.refl _)
    · rw [old h (current h hf)]
      exact q.sound.table.function h hf
    · rw [scope]
      exact q.sound.table.known
  · refine ⟨size ▸ q.symbols.size, fun i hi => ?_⟩
    have := q.symbols.keeps i hi
    rwa [← SymbolTable.get, ← SymbolTable.get, ← old i (differ i hi)] at this
  · simpa only [scope, function] using q.scope
  · intro same i hi
    rw [old i (differ i hi)]
    exact q.signatures same i hi
  · intro hu hf
    rw [scope]
    exact (q.unshared hu hf).congr fun i _ => (resembles i).name
  · refine ⟨?_, fun hp => (q.kept.params hp).congr fun i _ => (resembles i).name⟩
    simpa only [scope, function] using q.kept.scope

lemma mem_or_of_added {ids' : List SymId} {new : SymId} {p : Prop} (h : ids' = ids ∨ ids' = ids ++ [new] ∧ p)
    (mem : id ∈ ids') : id ∈ ids ∨ id = new ∧ p := by
  rcases h with rfl | ⟨rfl, hp⟩
  · exact .inl mem
  · exact (List.mem_append.mp mem).imp_right fun last => ⟨List.mem_singleton.mp last, hp⟩

lemma TableGrows.push (symbols : st'.symbols = st.symbols.push sym) (defined : sym.defined = false)
    (fit : sym.Fit) (function : st'.function = st.function)
    (locals : st'.locals = st.locals ∨ st'.locals = st.locals ++ [st.symbols.size] ∧
      sym.isFrame = true ∧ sym.isParam = false ∧ st.findIn st.scope sym.name = none)
    (params : st'.params = st.params ∨ st'.params = st.params ++ [st.symbols.size] ∧
      sym.isParam = true ∧ st.findIn st.params sym.name = none) (globals : st'.globals = st.globals ∨
      st'.globals = st.globals ++ [st.symbols.size] ∧ sym.isFileScope = true) : TableGrows st st' := by
  have size : st'.symbols.size = st.symbols.size + 1 := by simp [symbols]
  have room : st.symbols.size < st'.symbols.size := by omega
  have last := SymbolTable.get_push_size symbols
  have old : ∀ id < st.symbols.size, st'.get id = st.get id := fun _ => SymbolTable.get_push symbols
  have signatures : ∀ id < st.symbols.size, (st'.get id).members = (st.get id).members :=
    fun id lt => by rw [old id lt]
  constructor
  case symbols => exact symbols ▸ .push _ _
  case undefined =>
    intro id hle hlt
    obtain rfl : id = st.symbols.size := by omega
    rw [last]
    exact defined
  case fit =>
    intro id hle hlt
    obtain rfl : id = st.symbols.size := by omega
    rw [last]
    exact fit
  case signatures => exact signatures
  case function => exact function
  case locals =>
    rcases locals with h | ⟨h, -⟩
    · exact h ▸ List.prefix_rfl
    · exact h ▸ List.prefix_append _ _
  case known =>
    intro id hid
    rw [List.mem_append] at hid ⊢
    rcases hid with hid | hid
    · rcases mem_or_of_added locals hid with hid | ⟨rfl, frame, -⟩
      · exact .inl (.inl hid)
      · exact .inr ⟨room, last ▸ frame⟩
    · rcases mem_or_of_added params hid with hid | ⟨rfl, param, -⟩
      · exact .inl (.inr hid)
      · exact .inr ⟨room, last ▸ Symbol.isFrame_of_isParam param⟩
  case inner =>
    intro id hid
    refine (mem_or_of_added locals hid).imp_right ?_
    rintro ⟨rfl, -, param, -⟩
    exact ⟨room, last ▸ param⟩
  case params =>
    intro id hid
    refine (mem_or_of_added params hid).imp_right ?_
    rintro ⟨rfl, param, -⟩
    exact ⟨room, last ▸ param⟩
  case unshared =>
    intro hs hu
    have names : ∀ id ∈ st.scope, (st'.get id).name = (st.get id).name :=
      fun id hid => by rw [old id (hs.scope_lt hid)]
    unfold SymbolTable.scope
    rw [scopeMembers hs function signatures]
    rcases locals with h | ⟨h, -, -, fresh⟩
    · rw [h]
      exact hu.congr names
    · rw [h, ← List.append_assoc]
      refine (hu.congr names).concat fun other mem => ?_
      rw [last, names other mem]
      exact SymbolTable.name_ne_of_findIn fresh mem
  case parted =>
    intro hs hp
    have names : ∀ id ∈ st.params, (st'.get id).name = (st.get id).name :=
      fun id hid => by rw [old id (hs.known id (List.mem_append_right _ hid)).1]
    rcases params with h | ⟨h, -, fresh⟩
    · rw [h]
      exact hp.congr names
    · rw [h]
      refine (hp.congr names).concat fun other mem => ?_
      rw [last, names other mem]
      exact SymbolTable.name_ne_of_findIn fresh mem
  case globals =>
    intro id hid
    refine (mem_or_of_added globals hid).imp_right ?_
    rintro ⟨rfl, fileScope⟩
    exact ⟨room, last ▸ fileScope⟩

lemma TableKept.push (symbols : st'.symbols = st.symbols.push sym) (kind : sym.kind ≠ .function)
    (grows : TableGrows st st') : TableKept st st' where
  toTableGrows := grows
  plain id hle hlt := by
    obtain rfl : id = st.symbols.size := by
      simp only [symbols, Array.size_push] at hlt
      omega
    rw [SymbolTable.get_push_size symbols]
    exact kind

/-! ## Writing data -/

lemma Quiet.data (hs : s.Sound) {out : Emitter} (lines : List Line)
    (labels : s.out.labels ≤ out.labels) (temps : out.temps = s.out.temps)
    (hlines : out.lines.toList = s.out.lines.toList ++ lines)
    (data : ∀ line ∈ lines, line.IsData) : Quiet s { s with out } := by
  have placed : labelsOf out.lines.toList = labelsOf s.out.lines.toList := by
    have none : labelsOf lines = [] := by
      refine List.filterMap_eq_nil_iff.mpr fun line hl => ?_
      have := data line hl
      cases line with
      | label => exact this.elim
      | _ => rfl
    rw [hlines, labelsOf_append, none, List.append_nil]
  have layout : ∀ ls : List Line, (∀ line ∈ ls, line.IsData) →
      ∀ before, Layout s.out.temps s.functions.toList before →
        Layout s.out.temps s.functions.toList (before ++ ls) := by
    intro ls
    induction ls with
    | nil => simp
    | cons line ls ih =>
      intro hd before h
      have := ih (fun l hl => hd l (.tail line hl)) _ (h.data (hd line (.head ls)))
      simpa using this
  refine { Quiet.refl hs with sound := ?_, kept := { (Quiet.refl hs).kept with } }
  constructor
  case table => exact hs.table
  case positive => exact hs.positive.trans labels
  case ends =>
    intro f hf
    obtain ⟨pos, le⟩ := hs.ends f hf
    exact ⟨pos, le.trans labels⟩
  case apart => exact hs.apart
  case placed => simpa only [placed] using hs.placed
  case finished => exact hs.finished
  case labels =>
    simp only [placed]
    intro l hl
    obtain ⟨pos, le⟩ := hs.labels l hl
    exact ⟨pos, le.trans labels⟩
  case nodup => simpa only [placed] using hs.nodup
  case layout => simpa only [hlines, temps] using layout lines data _ hs.layout

lemma Quiet.newLabel (hs : s.Sound) : Quiet s { s with out := s.out.count 0 1 } :=
  .data hs [] (Int.le_add_of_nonneg_right (by simp)) rfl (by simp) (by simp)

lemma Quiet.dataLine (hs : s.Sound) {line : Line} (h : line.IsData) :
    Quiet s { s with out := s.out.add [line] } :=
  .data hs [line] (by simp) rfl (by simp) (by simpa using h)

lemma Quiet.newFunction (hs : s.Sound) (symbols : st.symbols = s.table.symbols.push sym)
    (grows : TableGrows s.table st) (locals : st.locals = s.table.locals)
    (label : sym.endLabel = s.out.labels + 1) : Quiet s { s with table := st, out := s.out.count 0 1 } := by
  have old : ∀ id < s.table.symbols.size, st.get id = s.table.get id :=
    fun _ => SymbolTable.get_push symbols
  have last := SymbolTable.get_push_size symbols
  have cases : ∀ f, st.IsFunction f →
      f = s.table.symbols.size ∨ s.table.IsFunction f ∧ st.get f = s.table.get f := by
    rintro f ⟨lt, kind⟩
    rw [symbols, Array.size_push] at lt
    by_cases hf : f < s.table.symbols.size
    · rw [old f hf] at kind
      exact .inr ⟨⟨hf, kind⟩, old f hf⟩
    · exact .inl (Nat.le_antisymm (Nat.le_of_lt_succ lt) (Nat.le_of_not_lt hf))
  -- The new label is larger than all that were given out.
  have new : ∀ f, s.table.IsFunction f → (s.table.get f).endLabel ≠ s.out.labels + 1 := by
    intro f hf heq
    have := (hs.ends f hf).2
    omega
  refine { Quiet.refl hs with
    sound := ?_, symbols := grows.symbols, scope := ?_, current := fun _ => grows.function
    signatures := fun _ => grows.signatures, unshared := fun hu _ => grows.unshared hs.table hu
    kept := ⟨.inr ⟨grows.function, grows.scope_eq hs.table locals⟩, grows.parted hs.table⟩ }
  · constructor
    case table => exact grows.sound hs.table
    case positive =>
      have := hs.positive
      simp only [Emitter.count_labels]
      omega
    case ends =>
      intro f hf
      simp only [Emitter.count_labels]
      rcases cases f hf with rfl | ⟨hf, same⟩
      · have := hs.positive
        rw [last, label]
        omega
      · have := hs.ends f hf
        rw [same]
        omega
    case apart =>
      intro f h hf hh heq
      rcases cases f hf with rfl | ⟨hf, samef⟩ <;> rcases cases h hh with rfl | ⟨hh, sameh⟩
      · rfl
      · rw [last, label, sameh] at heq
        exact absurd heq.symm (new h hh)
      · rw [last, label, samef] at heq
        exact absurd heq (new f hf)
      · rw [samef, sameh] at heq
        exact hs.apart f h hf hh heq
    case placed =>
      intro f hf hl
      simp only [Emitter.count_lines] at hl
      rcases cases f hf with rfl | ⟨hf, same⟩
      · rw [last, label] at hl
        have := (hs.labels _ hl).2
        omega
      · rw [same] at hl
        exact hs.placed f hf hl
    case finished =>
      intro d hd
      obtain ⟨lt, defined⟩ := hs.finished d hd
      refine ⟨Nat.lt_of_lt_of_le lt grows.symbols.size, ?_⟩
      rw [old d.sym lt]
      exact defined
    case labels =>
      intro l hl
      have := hs.labels l hl
      simp only [Emitter.count_labels]
      omega
    case nodup => exact hs.nodup
    case layout => exact hs.layout
  · exact .inr ⟨grows.function, grows.scope_eq hs.table locals ▸ List.prefix_rfl⟩

/-! ## Trees that are read -/

/-- A symbol that a tree read from `s` may name, where reading has come to `s'`. -/
def Sees (s s' : ParseState) (id : SymId) : Prop :=
  (s'.table.get id).isFileScope = true ∨ s.table.Finds id

lemma findIn_congr (names : ∀ id ∈ ids, (st'.get id).name = (st.get id).name) (name : Text) :
    st'.findIn ids name = st.findIn ids name := by
  unfold SymbolTable.findIn
  induction ids with
  | nil => rfl
  | cons id ids ih =>
    rw [List.find?_cons, List.find?_cons, names id (.head ids),
      ih fun i hi => names i (.tail id hi)]

lemma Finds.transport (scope : st.scope <+: st'.scope)
    (names : ∀ id ∈ st.scope, (st'.get id).name = (st.get id).name) (hid : st.Finds id) : st'.Finds id := by
  obtain ⟨more, hmore⟩ := scope
  obtain ⟨mem, -⟩ := SymbolTable.mem_of_findIn hid
  have same := findIn_congr names (st.get id).name
  unfold SymbolTable.Finds SymbolTable.findIn at hid ⊢
  unfold SymbolTable.findIn at same
  rw [names id mem, ← hmore, List.find?_append, same, hid]
  rfl

lemma Leads.finds (hs : s.Sound) (h : Leads s s') (function : s'.table.function ≠ none)
    (hid : s.table.Finds id) : s'.table.Finds id :=
  Finds.transport (h.scope.resolve_left function).2
    (fun i hi => (h.symbols.keeps i (hs.table.scope_lt hi)).name) hid

lemma Quiet.finds (hs : s.Sound) (h : Quiet s s') (hid : s'.table.Finds id) : s.table.Finds id := by
  rcases h.kept.scope with ⟨-, scope⟩ | ⟨-, scope⟩
  · rw [SymbolTable.Finds, scope] at hid
    cases hid
  · rw [SymbolTable.Finds, scope] at hid
    have names : ∀ i ∈ s.table.scope, (s'.table.get i).name = (s.table.get i).name :=
      fun i hi => (h.symbols.keeps i (hs.table.scope_lt hi)).name
    obtain ⟨mem, -⟩ := SymbolTable.mem_of_findIn hid
    rwa [names id mem, findIn_congr names] at hid

/-- A call in a tree read from `s` is one that the function can take, where reading has come to `s'`
and no function has ended on the way. -/
def Calls (s s' : ParseState) (f : SymId) (types : List CType) : Prop :=
  s'.functions.size = s.functions.size →
    f < s'.table.symbols.size ∧ s'.table.symbols.Accepts f types

lemma Calls.later {f : SymId} {types : List CType} (h : Leads s s') (k : Leads s' s'')
    (hf : Calls s s' f types) : Calls s s'' f types := by
  intro same
  have h1 := h.functions
  have h2 := k.functions
  obtain ⟨lt, accepts⟩ := hf (by omega)
  refine ⟨Nat.lt_of_lt_of_le lt k.symbols.size, ?_⟩
  have members := k.signatures (by omega) f lt
  unfold Symbols.Accepts
  rw [← SymbolTable.get, members]
  intro p hp
  obtain ⟨ltp, fits⟩ := accepts p hp
  refine ⟨Nat.lt_of_lt_of_le ltp k.symbols.size, ?_⟩
  rwa [(k.symbols.keeps p.2 ltp).type]

lemma Calls.earlier {f : SymId} {types : List CType} (k : Leads s s1) (h : Leads s1 s')
    (hf : Calls s1 s' f types) : Calls s s' f types := by
  intro same
  have h1 := k.functions
  have h2 := h.functions
  exact hf (by omega)

/-- What a tree of an expression read from `s` may refer to, where reading has come to `s'`. -/
def reach (s s' : ParseState) : Scope where
  sees := Sees s s'
  calls := Calls s s'

/-- A tree of an expression read from `s`, where reading has come to `s'`. -/
def Reads (s s' : ParseState) (t : Tree) : Prop := t.IsExpression s'.table.symbols (reach s s')

lemma Reads.later {t : Tree} (h : Reads s s' t) (l : Leads s s') (k : Leads s' s'') :
    Reads s s'' t := by
  refine h.grow k.symbols ⟨fun id lt => ?_, fun _ _ => Calls.later l k⟩
  exact Or.imp_left (k.symbols.keeps id lt).fileScope

lemma Reads.earlier {t : Tree} (hs : s.Sound) (k : Quiet s s1) (l : Leads s1 s')
    (h : Reads s1 s' t) : Reads s s' t := by
  refine h.grow (.refl _) ⟨fun id _ => ?_, fun _ _ => Calls.earlier k.toLeads l⟩
  exact Or.imp_right (k.finds hs)

/-- A symbol that a statement may name, unless the function has been lost. -/
def Local (s : ParseState) (id : SymId) : Prop := s.table.function ≠ none → Sees s s id

/-- A value of the type may be returned by the function at hand. -/
def Returns (s : ParseState) (t : CType) : Prop :=
  ∃ f, s.table.function = some f ∧ t.fits (s.table.get f).type = true

/-- What a statement read from `s` may refer to, where reading has come to `s'`. -/
def inner (s s' : ParseState) : Scope where
  sees := s'.Local
  calls := Calls s s'
  returns := Returns s

lemma Reads.isExpression (hs : s.Sound) (k : Leads s s') (h : Reads s s' t) :
    t.IsExpression s'.table.symbols (inner s s') := by
  have narrows : (reach s s').Narrows s'.table.symbols (inner s s') :=
    ⟨fun _ _ hid function => hid.imp_right (k.finds hs function), fun _ _ hf => hf⟩
  exact h.grow (.refl _) narrows

lemma Leads.local (h : Leads s s') (hs : s.Sound) (lt : id < s.table.symbols.size)
    (hid : s.Local id) : s'.Local id := by
  intro function
  have before : s.table.function ≠ none := (h.scope.resolve_left function).1 ▸ function
  exact (hid before).imp (h.symbols.keeps id lt).fileScope (h.finds hs function)

lemma inner_later (l : Leads s s') (k : Leads s' s'') :
    (inner s s').Within s'.table.symbols (inner s s'') where
  sees _ lt := k.local l.sound lt
  calls _ _ := Calls.later l k
  returns _ h := h

lemma Leads.distinct (hs : s.Sound) (h : Leads s s') : s'.table.symbols.Distinct (Sees s s') := by
  intro a b ha hb nota notb same
  have ha : s.table.Finds a := ha.resolve_left (ne_true_of_eq_false nota)
  have hb : s.table.Finds b := hb.resolve_left (ne_true_of_eq_false notb)
  have lta := hs.table.scope_lt (SymbolTable.mem_of_findIn ha).1
  have ltb := hs.table.scope_lt (SymbolTable.mem_of_findIn hb).1
  rw [(h.symbols.keeps a lta).name, (h.symbols.keeps b ltb).name] at same
  have found := ha.symm.trans ((congrArg _ same).trans hb)
  exact Option.some.inj found

lemma Leads.returns (hs : s.Sound) (h : Leads s s') {t : CType} (ht : Returns s' t) :
    Returns s t := by
  obtain ⟨f, hf, fits⟩ := ht
  have same : s.table.function = some f := by
    rcases h.scope with none | ⟨same, -⟩
    · rw [none] at hf
      cases hf
    · exact same ▸ hf
  refine ⟨f, same, ?_⟩
  have type := (h.symbols.keeps f (hs.table.function f same).1).type
  rw [← SymbolTable.get, ← SymbolTable.get] at type
  rwa [← type]

lemma inner_earlier {ss : Symbols} (hs : s.Sound) (k : Leads s s1) (l : Leads s1 s') :
    (inner s1 s').Within ss (inner s s') where
  sees _ _ h := h
  calls _ _ := Calls.earlier k l
  returns _ := k.returns hs

/-- A statement that was read on the way from `s` to `s'`. -/
structure Forms (s s' : ParseState) (t : Tree) : Prop extends Proceeds s s' where
  shape : t.IsStatement s'.table.symbols (inner s s')
  /-- It leaves loops and switches only that are around it. -/
  stays : 0 ≤ s.loops → 0 ≤ s.switches → s'.functions.size = s.functions.size →
    t.strays (s.loops = 0) (s.loops = 0 ∧ s.switches = 0) = false
  /-- A value is returned only while the function is known. -/
  valued : ∀ i a, t = .result i a → a.isEmpty = false → s.table.function ≠ none ∧ Reads s s' a
  /-- All that ends by returning a value was read while the function was known. -/
  named : t.endsInValue = true → ∃ s1 : ParseState, s1.Sound ∧ Leads s1 s' ∧
      t.IsStatement s'.table.symbols { sees := Sees s1 s', returns := Returns s }

lemma Forms.of_advanced (h : Forms s.advanced s' t) : Forms s s' t :=
  { h with toProceeds := h.toProceeds.of_advanced }

lemma Forms.advanced (h : Forms s s' t) : Forms s s'.advanced t where
  toProceeds := h.toProceeds.trans (Quiet.advanced h.sound).proceeds
  shape := h.shape
  stays := h.stays
  valued := h.valued
  named value := by
    obtain ⟨s1, hs1, leads, shape⟩ := h.named value
    exact ⟨s1, hs1, leads.trans (Quiet.advanced leads.sound).toLeads, shape⟩

/-- How a declaration of a storage class goes on: only locals are added to the scope, and only
a declaration of file scope can be a function. -/
structure Declares (storage : StorageClass) (s s' : ParseState) : Prop extends Leads s s' where
  kept : storage ≠ .local → Kept s s'
  still : storage.isFileScope = false → s.Clean → s'.functions = s.functions
  homes : storage.isFileScope = true → s.Clean → s.Outer →
    ∀ d ∈ s'.functions, d ∈ s.functions ∨ d.Unshared

lemma Quiet.declares (h : Quiet s s') (storage : StorageClass) : Declares storage s s' where
  toLeads := h.toLeads
  kept _ := h.kept
  still _ := h.still
  homes _ hc _ _ hd := .inl (h.still hc ▸ hd)

lemma Declares.quiet (h : Declares storage s s') (notLocal : storage ≠ .local)
    (inner : storage.isFileScope = false) : Quiet s s' where
  toLeads := h.toLeads
  kept := h.kept notLocal
  still := h.still inner

lemma Declares.proceeds (h : Declares .local s s') : Proceeds s s' where
  toLeads := h.toLeads
  still := h.still rfl

lemma Declares.trans (h : Declares storage s s') (k : Declares storage s' s'') :
    Declares storage s s'' where
  toLeads := h.toLeads.trans k.toLeads
  kept hn := (h.kept hn).trans (k.kept hn)
  still hf hc := (k.still hf (h.clean hc)).trans (h.still hf hc)
  homes hf hc ho d hd := by
    have notLocal : storage ≠ .local := by
      rintro rfl
      cases hf
    rcases k.homes hf (h.clean hc) ((h.kept notLocal).outer ho) d hd with hd | hd
    · exact h.homes hf hc ho d hd
    · exact .inr hd

lemma Declares.of_advanced (h : Declares storage s.advanced s') : Declares storage s s' where
  toLeads := h.toLeads.of_advanced
  kept hn := { h.kept hn with }
  still hf hc := h.still hf hc.advanced
  homes hf hc ho := h.homes hf hc.advanced { ho with }

end ParseState

open ParseState Parse

structure Grammar.Sound (g : Grammar) : Prop where
  expression : ∀ {s power}, s.Sound →
    Runs (g.expression power) s (fun t s' => Quiet s s' ∧ Reads s s' t ∧ t.Loaded) Breaks
  unaryExpression : ∀ {s}, s.Sound →
    Runs g.unaryExpression s (fun t s' => Quiet s s' ∧ Reads s s' t) Breaks
  typeSpec : ∀ {s storage}, s.Sound → Runs (g.typeSpec storage) s (fun _ s' => Quiet s s') Breaks
  declaration : ∀ {s} (storage) {end1 end2}, s.Sound → storage ≠ .local →
    storage.isFileScope = false → Runs (g.declaration storage end1 end2) s (fun _ s' => Quiet s s') Breaks
  statement : ∀ {s}, s.Sound → Runs g.statement s (fun t s' => Forms s s' t) Breaks
  block : ∀ {s inSwitch}, s.Sound → Runs (g.block inSwitch) s (fun t s' => Forms s s' t) Breaks
  resolve : ∀ {s name}, Runs (g.resolve name) s (fun referent s' => s' = s ∧
    ∀ id, referent = .symbol id → s.table.lookup name = some id) fun _ s' => s' = s

end SmallC
