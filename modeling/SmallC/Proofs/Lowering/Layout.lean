import SmallC.Proofs.Lowering.Function

/-!
# The lines of a file

A file is data and functions one after another, and its functions can be found again in its lines:
`texts` gives them in the order in which they were written. `Definition.Written` says what is known
of a function from the way it was read, its tree and its lines.
-/

namespace SmallC

open Ir Lower

variable {text : List Line}

lemma exists_of_mem_right {α β : Type} {R : α → β → Prop} {as : List α} {bs : List β}
    (h : List.Forall₂ R as bs) {b : β} (hb : b ∈ bs) : ∃ a ∈ as, R a b := by
  induction h with
  | nil => cases hb
  | cons here _ ih =>
    rcases List.mem_cons.mp hb with rfl | hb
    · exact ⟨_, .head _, here⟩
    · obtain ⟨a, ha, there⟩ := ih hb
      exact ⟨a, .tail _ ha, there⟩

/-- A function may be called with arguments of the types, as far as it has parameters for them. -/
def Symbols.Accepts (ss : Symbols) (f : SymId) (types : List CType) : Prop :=
  ∀ p ∈ types.zip (ss.get f).members, p.2 < ss.size ∧ p.1.fits (ss.get p.2).type = true

def Symbols.Distinct (ss : Symbols) (names : SymId → Prop) : Prop :=
  ∀ a b, names a → names b → (ss.get a).isFileScope = false → (ss.get b).isFileScope = false →
    (ss.get a).name = (ss.get b).name → a = b

namespace Definition

def symbol (d : Definition) : Symbol := d.symbols.get d.sym

/-- The variable is the one that its name stands for in the function. -/
def Finds (d : Definition) (id : SymId) : Prop := (d.symbol.members ++ d.locals).find?
    (fun other => (d.symbols.get other).name = (d.symbols.get id).name) = some id

def Unshared (d : Definition) : Prop :=
  ((d.symbol.members ++ d.locals).map fun id => (d.symbols.get id).name).Nodup

/-- What a function may refer to. -/
def scope (d : Definition) : Scope where
  sees id := (d.symbols.get id).isFileScope = true ∨ d.Finds id
  calls := d.symbols.Accepts
  returns t := t.fits d.symbol.type = true

/-- The function refers to nothing else. -/
def Closed (d : Definition) : Prop := d.read.IsStatement d.symbols d.scope

/-- The function has been read as a statement, and what it may return has its type. -/
def Shaped (d : Definition) : Prop :=
  ∃ scope, d.read.IsStatement d.symbols scope ∧ ∀ t, scope.returns t → t.fits d.symbol.type = true

structure Written (d : Definition) (text : List Line) : Prop where
  emitted : ∃ e e' : Emitter, e.function d.symbols d.sym d.locals d.body = (.ok (), d.settled, e') ∧
    e'.lines.toList = e.lines.toList ++ text ∧ 0 ≤ e.labels ∧ d.symbol.endLabel ≤ e.labels
  positive : 0 < d.symbol.endLabel
  shape : ∃ scope, d.read.IsStatement d.symbols scope ∧
    (∀ t, scope.returns t → t.fits d.symbol.type = true) ∧
    (d.body.endsInValue → d.symbols.Distinct scope.sees)
  returns : d.info.type ≠ .void → d.body.endsInResult
  frame : ∀ id ∈ d.symbol.members ++ d.locals,
    (d.symbols.get id).isFrame = true ∧ (d.symbols.get id).Fit
  params : ∀ id ∈ d.symbol.members, (d.symbols.get id).isParam = true
  locals : ∀ id ∈ d.locals, (d.symbols.get id).isParam = false

variable {d : Definition}

section
variable (h : d.Written text)
include h

lemma Written.isStatement : ∃ scope, d.body.IsStatement d.settled scope := by
  obtain ⟨scope, shape, -⟩ := h.shape
  exact ⟨scope, shape.fold.grow (localSlots_grows d.symbols d.locals) (.refl _ scope)⟩

lemma Written.runs : d.body.Runs d.settled := by
  obtain ⟨scope, shape⟩ := h.isStatement
  exact shape.runs

/-- What is known of the lines of a function that was written. -/
theorem Written.lines : ∃ c params base lo hi code,
      text = .opening (d.symbol.storage = .global) c d.symbol.name params :: code ++
        [.label d.symbol.endLabel, .ret (d.symbol.type ≠ .void), .closing] ∧
      (∃ entry rest, code = .label entry :: rest) ∧ 0 ≤ lo ∧ d.symbol.endLabel ≤ lo ∧
      Has base lo hi ⟨∅, {0, d.symbol.endLabel}, d.body.strays true true,
        fun _ => d.body.tidy d.settled false⟩ code := by
  obtain ⟨e, e', he, htext, pos, old⟩ := h.emitted
  obtain ⟨c, params, e2, w, ⟨rest, hrest⟩, rfl⟩ :=
    Emitter.function_wrote he h.runs pos (Int.ne_of_gt h.positive)
  obtain ⟨code, hcode, has⟩ := w.lines
  refine ⟨c, params, e.temps, e.labels, e2.labels, code, ?_, ⟨e.labels + 1, rest, ?_⟩, pos, old, has⟩
  case refine_2 =>
    rw [hrest, Emitter.add_lines, List.append_assoc] at hcode
    exact (List.cons.inj (List.append_cancel_left hcode)).2.symm
  rw [Emitter.add_lines, hcode, Emitter.add_lines, List.append_assoc, List.append_assoc] at htext
  exact (List.append_cancel_left htext).symm

lemma Written.text_eq : ∃ head inner, text = head :: inner ++ [.closing] ∧ head.isOpening = true ∧
      ∀ line ∈ inner, line.IsInner ∨ ∃ w, line = .ret w := by
  obtain ⟨c, params, base, lo, hi, code, rfl, -, -, -, has⟩ := h.lines
  refine ⟨.opening (d.symbol.storage = .global) c d.symbol.name params,
    code ++ [.label d.symbol.endLabel, .ret (d.symbol.type ≠ .void)], ?_, rfl, ?_⟩
  · simp
  · intro line hl
    simp only [List.mem_append, List.mem_cons, List.not_mem_nil, or_false] at hl
    rcases hl with hl | rfl | rfl
    · exact .inl (has.inner line hl)
    · exact .inl trivial
    · exact .inr ⟨_, rfl⟩

lemma Written.texts_append (rest : List Line) : texts (text ++ rest) = text :: texts rest := by
  obtain ⟨head, inner, rfl, opening, hinner⟩ := h.text_eq
  have inside : Line.closing ∉ inner := by
    intro hc
    rcases hinner _ hc with hc | ⟨w, hc⟩
    · exact hc
    · cases hc
  rw [List.append_assoc]
  exact texts_function opening inside rest

end

/-- When the function is written, temporaries up to `lo` are given out before and up to `hi` after. -/
def Spans (d : Definition) (lo hi : Nat) (text : List Line) : Prop :=
  ∃ e e' : Emitter, e.function d.symbols d.sym d.locals d.body = (.ok (), d.settled, e') ∧
    e'.lines.toList = e.lines.toList ++ text ∧ e.temps = lo ∧ e'.temps = hi

end Definition

/-- The lines of a file with its functions, where temporaries up to `temps` have been given out. -/
inductive Layout : (temps : Nat) → List Definition → List Line → Prop
  | nil {n} : Layout n [] []
  | data {n ds lines line} (h : Layout n ds lines) (hd : line.IsData) :
      Layout n ds (lines ++ [line])
  | function {n m ds lines d text} (h : Layout n ds lines) (hd : d.Written text)
      (spans : d.Spans n m text) : Layout m (ds ++ [d]) (lines ++ text)

namespace Layout

variable {n : Nat} {ds : List Definition} {lines : List Line}

section
variable {line : Line} {l : Int} (h : Layout n ds lines) (rest : List Line)
include h

lemma texts_append : texts (lines ++ rest) = texts lines ++ texts rest := by
  induction h generalizing rest with
  | nil => rfl
  | data h hd ih =>
    rw [List.append_assoc, ih, ih, List.singleton_append, texts_data hd, texts_data hd]
    simp [texts, textsFrom]
  | @function _ _ ds lines d text h hd _ ih =>
    have here : texts text = [text] := by
      have := hd.texts_append []
      rwa [List.append_nil] at this
    rw [List.append_assoc, ih, ih, hd.texts_append, here, List.append_assoc]
    rfl

lemma texts_data_eq (hd : line.IsData) : texts (lines ++ [line]) = texts lines := by
  rw [h.texts_append, texts_data hd]
  exact List.append_nil _

lemma texts_function_eq {d : Definition} (hd : d.Written text) :
    texts (lines ++ text) = texts lines ++ [text] := by
  have here := hd.texts_append []
  rw [List.append_nil] at here
  rw [h.texts_append, here]
  rfl

/-- Each function stands in the file in one piece. -/
theorem written :
    List.Forall₂ (fun d text => d.Written text ∧ text <:+: lines) ds (texts lines) := by
  induction h with
  | nil => exact .nil
  | data h hd ih =>
    rw [h.texts_data_eq hd]
    exact ih.imp fun d text ⟨hd, piece⟩ => ⟨hd, piece.trans (List.prefix_append _ _).isInfix⟩
  | function h hd _ ih =>
    rw [h.texts_function_eq hd]
    refine List.rel_append ?_ (.cons ⟨hd, (List.suffix_append _ _).isInfix⟩ .nil)
    exact ih.imp fun d text ⟨hd, piece⟩ => ⟨hd, piece.trans (List.prefix_append _ _).isInfix⟩

lemma shaped : ∀ d ∈ ds, d.Shaped :=
  ((List.forall₂_and_left _ _).mp (h.written.imp fun _ _ hd =>
    ⟨hd.1.shape.imp fun _ shape => ⟨shape.1, shape.2.1⟩, trivial⟩)).1

lemma jump_mem (hl : l ∈ jumpsOf lines) : ∃ d ∈ ds, ∃ text, d.Written text ∧ l ∈ jumpsOf text := by
  induction h with
  | nil => cases hl
  | @data _ ds lines line h hd ih =>
    have none : jumpsOf [line] = [] := by
      cases line with
      | data | string => rfl
      | _ => exact hd.elim
    rw [jumpsOf_append, none, List.append_nil] at hl
    exact ih hl
  | @function _ _ ds lines d text h hd _ ih =>
    rw [jumpsOf_append, List.mem_append] at hl
    rcases hl with hl | hl
    · obtain ⟨d', hd', written⟩ := ih hl
      exact ⟨d', List.mem_append_left _ hd', written⟩
    · exact ⟨d, by simp, text, hd, hl⟩

end

end Layout
end SmallC
