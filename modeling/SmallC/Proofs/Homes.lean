import SmallC.Proofs.Slots

/-!
# One home for each variable

Each parameter and local of a function stands in memory or in a register. In memory, the first mention of it
reserves its slot, and all others are of the address of that. In a register, all mentions are of a value of the
class of its type. That holds of every function that names no variables but its own and those of file scope, and
in which no two variables share a name.
-/

namespace SmallC

open Ir Lower ParseState

variable {u : Use}

namespace Ir

variable {name : Text} {code : List Line}

def usesAs (name : Text) (code : List Line) : List Use :=
  (usesOf code).filterMap fun x => if x.1 = name then some x.2 else none

@[simp] lemma usesAs_append (name : Text) (a b : List Line) :
    usesAs name (a ++ b) = usesAs name a ++ usesAs name b := by
  simp [usesAs]

lemma mem_usesAs : u ∈ usesAs name code ↔ (name, u) ∈ usesOf code := by
  simp [usesAs]

/-- The first lines of a function after its head and entry: slots and the values that come in. -/
def preamble (text : List Line) : List Line := (text.drop 2).takeWhile isSlot

/-- The name stands for an address: it is loaded from, stored to or copied as one. -/
def Use.isAddress : Use → Bool
  | .loaded => true
  | .stored _ => true
  | .copied c => c = .long
  | _ => false

def Use.isValue (c : Cls) : Use → Bool
  | .param d => d = c
  | .copied d => d = c
  | .operand d => d = c
  | .written d => d = c
  | _ => false

/-- A name in memory: its slot is reserved once, in the preamble and before all else. -/
def InMemory (name : Text) (text : List Line) : Prop :=
  ∃ align count rest, usesAs name text = .slot align count :: rest ∧
    .slot align count ∈ usesAs name (preamble text) ∧ ∀ u ∈ rest, u.isAddress = true

/-- A name in a register: it always stands for a value of the class of its type. -/
def InRegister (name : Text) (t : CType) (text : List Line) : Prop :=
  ∀ u ∈ usesAs name text, ∃ c, t.cls = .ok c ∧ u.isValue c = true

end Ir

/-! ## Mentions of one variable -/

variable {s : Symbol}

lemma Symbol.Slotted.names {piece : List Line} (h : s.Slotted piece) :
    ∀ x ∈ usesOf piece, x.1 = s.name := by
  cases ha : s.hasAddr with
  | false =>
    rw [h.none ha]
    nofun
  | true =>
    obtain ⟨align, count, stores, uses, -, all⟩ := h.slot ha
    rw [uses, List.forall_mem_cons]
    refine ⟨rfl, fun x hx => ?_⟩
    obtain ⟨w, rfl, -⟩ := all x hx
    rfl

lemma usesAs_eq_nil (h : ∀ x ∈ usesOf code, x.1 ≠ name) : usesAs name code = [] := by
  rw [usesAs, List.filterMap_eq_nil_iff]
  exact fun x hx => if_neg (h x hx)

lemma usesAs_eq_map (h : ∀ x ∈ usesOf code, x.1 = name) : usesAs name code = (usesOf code).map Prod.snd := by
  rw [usesAs, ← List.filterMap_eq_map]
  exact List.filterMap_congr fun x hx => if_pos (h x hx)

lemma usesAs_pieces {ss : Symbols} {ids : List SymId} {pieces : List (List Line)}
    (h : List.Forall₂ (fun id piece => (ss.get id).Slotted piece) ids pieces)
    (nodup : (ids.map fun id => (ss.get id).name).Nodup) {id : SymId} (hid : id ∈ ids) :
    ∃ piece, (ss.get id).Slotted piece ∧
      usesAs (ss.get id).name pieces.flatten = usesAs (ss.get id).name piece := by
  induction h with
  | nil => cases hid
  | @cons first piece ids pieces here rest ih =>
    rw [List.map_cons, List.nodup_cons] at nodup
    rw [List.flatten_cons, usesAs_append]
    rcases List.mem_cons.mp hid with rfl | hid
    · refine ⟨piece, here, ?_⟩
      have others : ∀ x ∈ usesOf pieces.flatten, x.1 ≠ (ss.get id).name := by
        intro x hx same
        obtain ⟨line, hl, hx⟩ := List.mem_flatMap.mp hx
        obtain ⟨piece, hp, hl⟩ := List.mem_flatten.mp hl
        obtain ⟨other, ho, slotted⟩ := exists_of_mem_right rest hp
        have name := slotted.names x (List.mem_flatMap.mpr ⟨line, hl, hx⟩)
        exact nodup.1 (List.mem_map.mpr ⟨other, ho, name.symm.trans same⟩)
      rw [usesAs_eq_nil others, List.append_nil]
    · obtain ⟨own, slotted, uses⟩ := ih nodup.2 hid
      refine ⟨own, slotted, ?_⟩
      have other : (ss.get first).name ≠ (ss.get id).name := by
        intro same
        exact nodup.1 (same ▸ List.mem_map.mpr ⟨id, hid, rfl⟩)
      rw [usesAs_eq_nil fun x hx => here.names x hx ▸ other, uses, List.nil_append]

lemma Symbol.Allows.isAddress (h : s.Allows u) (ha : s.hasAddr = true) : u.isAddress = true := by
  cases u with
  | slot | param => exact h.elim
  | loaded | stored => rfl
  | copied c =>
    rcases h with ⟨-, rfl⟩ | ⟨plain, -⟩
    · rfl
    · exact absurd ha (ne_true_of_eq_false plain)
  | operand | written => exact absurd ha (ne_true_of_eq_false h.1)

lemma Symbol.Allows.isValue (h : s.Allows u) (frame : s.isFileScope = false) (ha : s.hasAddr = false)
    (plain : s.type.isComposite = false) : ∃ c, s.type.cls = .ok c ∧ u.isValue c = true := by
  cases u with
  | slot | param => exact h.elim
  | loaded => exact absurd h (ne_true_of_eq_false ha)
  | stored => exact absurd h.1 (ne_true_of_eq_false ha)
  | copied c =>
    rcases h with ⟨place, -⟩ | ⟨-, cls⟩
    · rcases place with file | addr | composite
      · exact absurd file (ne_true_of_eq_false frame)
      · exact absurd addr (ne_true_of_eq_false ha)
      · exact absurd composite (ne_true_of_eq_false plain)
    · exact ⟨c, cls, decide_eq_true rfl⟩
  | operand c | written c => exact ⟨c, h.2, decide_eq_true rfl⟩

namespace Definition

variable {d : Definition} {text : List Line} {id : SymId}

lemma Unshared.settled (h : d.Unshared) :
    ((d.symbol.members ++ d.locals).map fun id => (d.settled.get id).name).Nodup := by
  simpa [Unshared] using h

lemma Written.inFrame (h : d.Written text) (hid : id ∈ d.symbol.members ++ d.locals) :
    (d.settled.get id).isFileScope = false := by
  rw [settled_isFileScope]
  by_contra file
  have frame := (h.frame id hid).1
  rw [Symbol.isFrame_eq_false (Bool.not_eq_false _ ▸ file)] at frame
  cases frame

lemma allows_of_aims (owns : d.Owns) (unshared : d.Unshared) (hid : id ∈ d.symbol.members ++ d.locals)
    (aims : ∀ line ∈ code, line.Aims d.settled (· ∈ d.body.names)) :
    ∀ u ∈ usesAs (d.settled.get id).name code, (d.settled.get id).Allows u := by
  intro u hu
  obtain ⟨line, hl, hx⟩ := List.mem_flatMap.mp (mem_usesAs.mp hu)
  obtain ⟨other, named, frame, name, allows⟩ := (aims line hl).uses _ hx
  rw [settled_isFileScope] at frame
  have own := (owns other named).resolve_left (ne_true_of_eq_false frame)
  obtain rfl := unshared.eq_of_name own hid (by simpa using name)
  exact allows

lemma Written.head_uses (h : d.Written text) (unshared : d.Unshared) (hid : id ∈ d.symbol.members ++ d.locals)
    {params : List Param} {exported : Bool} {c : Cls} (head : HeadOf d.symbols d.symbol.members params) :
    ∀ u ∈ usesAs (d.settled.get id).name [.opening exported c name params],
      (d.settled.get id).hasAddr = false ∧
        ∃ c, (d.settled.get id).type.cls = .ok c ∧ u = .param c := by
  intro u hu
  have hu : ((d.settled.get id).name, u) ∈ (Line.opening exported c name params).uses := by
    simpa using mem_usesAs.mp hu
  obtain ⟨p, hmem, eq⟩ := List.mem_filterMap.mp hu
  obtain ⟨other, member, heads⟩ := exists_of_mem_right head.heads hmem
  split_ifs at eq with addr
  obtain ⟨same, rfl⟩ := Prod.mk.inj (Option.some.inj eq)
  have own : other ∈ d.symbol.members ++ d.locals := List.mem_append_left _ member
  obtain rfl := unshared.eq_of_name own hid (by simpa [heads.name] using same)
  rw [h.settled_param member, ← heads.hasAddr]
  exact ⟨Bool.eq_false_iff.mpr addr, p.cls, heads.cls, rfl⟩

lemma usesAs_text (name : Text) {head : Line} {entry last : Int} {slots : List Line} {w : Bool} :
    usesAs name (head :: .label entry :: (slots ++ code ++ [.label last, .ret w, .closing])) =
      usesAs name [head] ++ (usesAs name slots ++ usesAs name code) := by
  simp [usesAs, Line.uses]

section
variable (h : d.Written text) (owns : d.Owns) (unshared : d.Unshared)
  (hid : id ∈ d.symbol.members ++ d.locals)
include h owns unshared hid

/-- A variable that has an address is at home in memory. -/
theorem Written.inMemory (ha : (d.settled.get id).hasAddr = true) :
    InMemory (d.settled.get id).name text := by
  obtain ⟨c, params, entry, pieces, code, rfl, head, hp, slots, aims⟩ := h.pieces
  obtain ⟨piece, slotted, uses⟩ := usesAs_pieces hp unshared.settled hid
  obtain ⟨align, count, stores, first, -, all⟩ := slotted.slot ha
  have inHead : usesAs (d.settled.get id).name
      [.opening (d.symbol.storage = .global) c d.symbol.name params] = [] := by
    refine List.eq_nil_iff_forall_not_mem.mpr fun u hu => ?_
    exact absurd ha (ne_true_of_eq_false (h.head_uses unshared hid head u hu).1)
  have inSlots : usesAs (d.settled.get id).name pieces.flatten =
      .slot align count :: stores.map Prod.snd := by
    rw [uses, usesAs_eq_map slotted.names, first]
    rfl
  refine ⟨align, count, stores.map Prod.snd ++ usesAs (d.settled.get id).name code, ?_, ?_, ?_⟩
  · rw [usesAs_text, inHead, inSlots]
    rfl
  · have isSlots : ∀ line ∈ pieces.flatten, isSlot line = true := slots ▸ slotLines_isSlot _ _ _
    rw [preamble, List.drop_succ_cons, List.drop_succ_cons, List.drop_zero, List.append_assoc,
      List.takeWhile_append_of_pos isSlots, usesAs_append, inSlots]
    exact List.mem_append_left _ (.head _)
  · intro u hu
    rcases List.mem_append.mp hu with hu | hu
    · obtain ⟨x, hx, rfl⟩ := List.mem_map.mp hu
      obtain ⟨w, rfl, -⟩ := all x hx
      rfl
    · exact (allows_of_aims owns unshared hid aims u hu).isAddress ha

/-- A variable without an address is at home in a register. -/
theorem Written.inRegister (ha : (d.settled.get id).hasAddr = false)
    (plain : (d.settled.get id).type.isComposite = false) :
    InRegister (d.settled.get id).name (d.settled.get id).type text := by
  obtain ⟨c, params, entry, pieces, code, rfl, head, hp, slots, aims⟩ := h.pieces
  obtain ⟨piece, slotted, uses⟩ := usesAs_pieces hp unshared.settled hid
  obtain rfl := slotted.none ha
  intro u hu
  rw [usesAs_text, uses, List.mem_append] at hu
  rcases hu with hu | hu
  · obtain ⟨-, c, cls, rfl⟩ := h.head_uses unshared hid head u hu
    exact ⟨c, cls, decide_eq_true rfl⟩
  · exact (allows_of_aims owns unshared hid aims u hu).isValue (h.inFrame hid) ha plain

end

lemma Written.hasAddr_of_composite (h : d.Written text) (hid : id ∈ d.symbol.members ++ d.locals)
    (composite : (d.symbols.get id).type.isComposite = true) :
    (d.settled.get id).hasAddr = true := by
  rcases List.mem_append.mp hid with member | isLocal
  · -- A function with such a parameter has no code: there is no class for it.
    obtain ⟨c, params, entry, pieces, code, -, head, -⟩ := h.pieces
    obtain ⟨p, -, heads⟩ := exists_of_mem_right head.heads.flip member
    have cls := heads.cls
    rcases (by simpa [CType.isComposite] using composite :
      (d.symbols.get id).type = .struct ∨ (d.symbols.get id).type = .union) with type | type <;>
    · rw [type] at cls
      cases cls
  · obtain ⟨frame, fit⟩ := h.frame id hid
    have addr := fit.housed frame (.inr ⟨composite, h.locals id isLocal⟩)
    simp [settled_get, Symbol.addressed, addr]

/-- What must stand in memory: arrays, structs and unions, chars among the locals, and what an address
is taken of. -/
def MustAddress (d : Definition) (id : SymId) : Prop :=
  (d.symbols.get id).kind = .array ∨ (d.symbols.get id).type.isComposite = true ∨
    id ∈ d.locals ∧ (d.symbols.get id).type = .char ∨
    ∃ i a, .addrOf i (some id) a ∈ d.body.nodes

lemma Written.hasAddr_of_must (h : d.Written text) (hid : id ∈ d.symbol.members ++ d.locals)
    (must : d.MustAddress id) : (d.settled.get id).hasAddr = true := by
  rcases must with array | composite | ⟨isLocal, char⟩ | ⟨i, a, taken⟩
  · obtain ⟨frame, fit⟩ := h.frame id hid
    simp [settled_get, Symbol.addressed, fit.housed frame (.inl array)]
  · exact h.hasAddr_of_composite hid composite
  · simp [settled_get, Symbol.addressed, isLocal, char]
  · obtain ⟨scope, shape⟩ := h.isStatement
    cases (shape.nodes _ taken).isExpression rfl with
    | addrOf _ _ place =>
      rcases place with file | addr | composite
      · exact absurd file (ne_true_of_eq_false (h.inFrame hid))
      · exact addr
      · refine h.hasAddr_of_composite hid ?_
        rw [settled_get] at composite
        exact composite

end Definition
theorem compile_homes {file source code : Text}
    (h : (Session.compile { file } source).1.outcome = .ok code) :
    let functions := (Session.compile { file } source).1.functions
    let lines := (Session.compile { file } source).2.out.lines.toList
    code = render lines ∧
      List.Forall₂ (fun d text => d.Owns → d.Unshared → ∀ id ∈ d.symbol.members ++ d.locals,
        (InMemory (d.symbols.get id).name text ∨
          InRegister (d.symbols.get id).name (d.symbols.get id).type text) ∧
        (d.MustAddress id → InMemory (d.symbols.get id).name text)) functions (texts lines) ∧
      ((∀ t ∈ (lex source file).1, t.kind ≠ .staticKw ∧ t.kind ≠ .externKw) →
        ∀ d ∈ functions, d.Owns ∧ d.Unshared) := by
  obtain ⟨s, leads, hfunctions, hout, rfl⟩ := compile_leads h
  simp only [hfunctions, hout]
  refine ⟨trivial, ?_, ?_⟩
  · refine leads.sound.layout.written.imp fun d text ⟨hd, _⟩ owns unshared id hid => ?_
    rw [← d.settled_name]
    refine ⟨?_, fun must => hd.inMemory owns unshared hid (hd.hasAddr_of_must hid must)⟩
    cases ha : (d.settled.get id).hasAddr with
    | true => exact .inl (hd.inMemory owns unshared hid ha)
    | false =>
      refine .inr ?_
      have plain : (d.symbols.get id).type.isComposite = false := by
        by_contra composite
        rw [Bool.not_eq_false] at composite
        exact absurd (hd.hasAddr_of_composite hid composite) (ne_true_of_eq_false ha)
      rw [← d.settled_type] at plain ⊢
      exact hd.inRegister owns unshared hid ha plain
  · intro clean d hd
    obtain ⟨closed, unshared⟩ := functions_closed leads clean d hd
    exact ⟨closed.owns, unshared⟩

theorem compile_homes_mixed :
    let source : Text := "int f(int a, char b) \x7b int x[3]; char c; int *p; p = &a; c = b; x[1] = c; return *p; \x7d"
    let functions := (Session.compile { file := "t.c" } source).1.functions
    let lines := (Session.compile { file := "t.c" } source).2.out.lines.toList
    (∃ code, (Session.compile { file := "t.c" } source).1.outcome = .ok code) ∧
      (∀ d ∈ functions, d.Owns ∧ d.Unshared) ∧
      List.Forall₂ (fun d text => d.Owns → d.Unshared → ∀ id ∈ d.symbol.members ++ d.locals,
        InMemory (d.symbols.get id).name text ∨
          InRegister (d.symbols.get id).name (d.symbols.get id).type text) functions (texts lines) := by
  intro source functions lines
  obtain ⟨code, ok⟩ := exists_of_isSome (x := (Session.compile { file := "t.c" } source).1.outcome)
    (by decide +kernel)
  have homes := compile_homes ok
  refine ⟨⟨code, ok⟩, homes.2.2 (by decide +kernel), ?_⟩
  exact homes.2.1.imp fun d text h owns unshared id hid => (h owns unshared id hid).1

/-- Two locals of one function. The other function, which is defined between them, takes the first as
its own: there is its slot, and the first function stores to what it has not reserved. -/
theorem compile_home_lost :
    let source : Text :=
      "void f() \x7b char x; x = 1; struct s \x7b static int g() \x7b return 1; \x7d int y; \x7d v; \x7d"
    let lines := (Session.compile { file := "t.c" } source).2.out.lines.toList
    (Session.compile { file := "t.c" } source).1.outcome.toOption.isSome = true ∧
      (texts lines).map (usesAs "x") = [[.slot 4 1], [.stored (.cls .word)]] := by
  decide +kernel

end SmallC
