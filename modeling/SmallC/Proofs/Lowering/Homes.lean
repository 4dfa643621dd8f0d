import SmallC.Proofs.Lowering.Layout
import SmallC.Proofs.Lowering.Uses

/-!
# Where the variables of a function stand

The first lines of a function reserve a slot for each variable that has an address, and put the values
of parameters into theirs. What a slot holds follows from the size of its variable. No other line
reserves one, so from the lines of a function all can be told of how it mentions its variables.
-/

namespace SmallC

open Ir Lower

variable {s : Symbol}

namespace Ir

variable {code : List Line} (name : Text) (align : Nat) (count : Int64)

def Width.bytes : Width → Int
  | .byte => 1
  | .cls .word => 4
  | .cls .long => 8
  | .cls .blank => 0

lemma Width.bytes_le (w : Width) : w.bytes ≤ 8 := by
  rcases w with - | (- | - | -) <;> decide

structure Slot where
  name : Text
  align : Nat
  count : Int64
  deriving DecidableEq, Repr

def Slot.bytes (slot : Slot) : Int := slot.count.toInt

/-- What it would reserve if it counted units of its alignment. -/
def Slot.room (slot : Slot) : Int := slot.align * slot.count.toInt

@[simp] lemma Slot.bytes_mk : (Slot.mk name align count).bytes = count.toInt := rfl

@[simp] lemma Slot.room_mk : (Slot.mk name align count).room = align * count.toInt := rfl

def slotsOf (code : List Line) : List Slot := (usesOf code).filterMap fun
    | (name, .slot align count) => some { name, align, count }
    | _ => none

def directOf (code : List Line) : List (Text × Width) := (usesOf code).filterMap fun
    | (name, .stored w) => some (name, w)
    | _ => none

lemma mem_slotsOf {slot : Slot} :
    slot ∈ slotsOf code ↔ (slot.name, .slot slot.align slot.count) ∈ usesOf code := by
  unfold slotsOf
  rw [List.mem_filterMap]
  constructor
  · rintro ⟨⟨name, u⟩, hu, eq⟩
    cases u with
    | slot =>
      cases eq
      exact hu
    | _ => cases eq
  · exact fun h => ⟨_, h, rfl⟩

lemma mem_directOf {name : Text} {w : Width} :
    (name, w) ∈ directOf code ↔ (name, .stored w) ∈ usesOf code := by
  unfold directOf
  rw [List.mem_filterMap]
  constructor
  · rintro ⟨⟨name, u⟩, hu, eq⟩
    cases u with
    | stored =>
      cases eq
      exact hu
    | _ => cases eq
  · exact fun h => ⟨_, h, rfl⟩

end Ir

/-! ## What a slot holds -/

/-- The slot of a variable: as it is reserved it holds a byte, by its alignment it would hold the
variable unless counting overflows. -/
structure Symbol.Fits (s : Symbol) (slot : Slot) : Prop where
  name : slot.name = s.name
  bytes : s.size.toInt ≤ slot.bytes ↔ s.size.toInt ≤ 1
  room : s.size.toInt ≤ slot.room ↔ s.size.toInt < 2 ^ 63 - 7

lemma toInt_shiftRight_three (a : Int64) : (a >>> 3).toInt = a.toInt / 8 := by
  have h : (a >>> 3).toInt = a.toInt >>> (3 : Nat) := by
    rw [← Int64.toInt_toBitVec, Int64.toBitVec_shiftRight]
    simp [BitVec.sshiftRight', BitVec.toInt_sshiftRight]
  rw [h, Int.shiftRight_eq_div_pow]
  rfl

lemma toInt_max_one (a : Int64) : (max a 1).toInt = max a.toInt 1 := by
  have one : (1 : Int64).toInt = 1 := rfl
  change (if a ≤ 1 then 1 else a).toInt = _
  rw [apply_ite Int64.toInt]
  simp only [Int64.le_iff_toInt_le]
  split_ifs <;> omega

lemma toInt_units (size : Int64) : ((max size 1 + 7) >>> 3).toInt =
      if size.toInt < 2 ^ 63 - 7 then (max size.toInt 1 + 7) / 8
      else (size.toInt + 7 - 2 ^ 64) / 8 := by
  have seven : (7 : Int64).toInt = 7 := rfl
  have lower := size.le_toInt
  have upper := size.toInt_lt
  rw [toInt_shiftRight_three, Int64.toInt_add, toInt_max_one, seven]
  split_ifs with small
  · rw [Int.bmod_eq_of_le] <;> omega
  · have big : max size.toInt 1 = size.toInt := by omega
    rw [big, Int.bmod_def]
    omega

/-- A slot with room for every store into its variable. -/
structure Symbol.Housing (s : Symbol) (slot : Slot) : Prop extends s.Fits slot where
  stores : 0 ≤ slot.room → ∀ w, s.Takes w → w.bytes ≤ slot.room

lemma housing_local : s.Housing { name := s.name, align := 8, count := (max s.size 1 + 7) >>> 3 } := by
  have units := toInt_units s.size
  have upper := s.size.toInt_lt
  refine ⟨⟨rfl, ?_, ?_⟩, fun positive w _ => ?_⟩
  · rw [Slot.bytes_mk, units]
    split_ifs <;> omega
  · rw [Slot.room_mk, units]
    split_ifs <;> omega
  · have width := w.bytes_le
    rw [Slot.room_mk, units] at positive ⊢
    split_ifs at positive ⊢ <;> omega

variable {n : Int64}

lemma bytes_le_of_takes (hn : s.type.scalarSize = .ok n) (size : s.size = n) {w : Width} (hw : s.Takes w) :
    w.bytes ≤ if n = 8 then 8 else 4 := by
  split_ifs with eight
  · exact w.bytes_le
  · rcases hw with ⟨c, hc, rfl⟩ | hw
    · unfold CType.scalarSize at hn
      unfold CType.cls at hc
      split at hn
      · cases hn
        exact absurd rfl eight
      · rename_i plain
        rw [if_neg plain] at hc
        split at hn <;> simp_all [Width.bytes]
        all_goals subst hc; decide
    · rw [size] at hw
      unfold Width.ofSize? at hw
      split_ifs at hw <;> cases hw <;> decide

lemma scalarSize_cases {t : CType} (h : t.scalarSize = .ok n) : n = 1 ∨ n = 4 ∨ n = 8 := by
  unfold CType.scalarSize at h
  split_ifs at h
  · cases h
    simp
  · split at h <;> cases h <;> simp

lemma housing_param (hn : s.type.scalarSize = .ok n) (size : s.size = n) :
    s.Housing { name := s.name, align := if n = 8 then 8 else 4, count := 1 } := by
  refine ⟨⟨rfl, ?_, ?_⟩, fun _ w hw => ?_⟩
  · rw [size, Slot.bytes_mk]
    rcases scalarSize_cases hn with rfl | rfl | rfl <;> decide
  · rw [size, Slot.room_mk]
    rcases scalarSize_cases hn with rfl | rfl | rfl <;> decide
  · have width := bytes_le_of_takes hn size hw
    rcases scalarSize_cases hn with rfl | rfl | rfl <;> exact width

lemma housing_char (type : s.type = .char) (size : s.size = 1) :
    s.Housing { name := s.name, align := 4, count := 1 } :=
  housing_param (n := 1) (by rw [type]; rfl) size

/-! ## The first lines of a function -/

/-- The lines that give a variable its place: none, or a slot and the stores of what comes in. -/
structure Symbol.Slotted (s : Symbol) (piece : List Line) : Prop where
  none : s.hasAddr = false → piece = []
  slot : s.hasAddr = true → ∃ align count stores,
    usesOf piece = (s.name, .slot align count) :: stores ∧ s.Housing { name := s.name, align, count } ∧
      ∀ x ∈ stores, ∃ w, x = (s.name, .stored w) ∧ s.Takes w

lemma paramLines_slotted (scalar : s.hasAddr = true → ∃ n, s.type.scalarSize = .ok n ∧ s.size = n) :
    s.Slotted (paramLines s) := by
  constructor
  · intro ha
    rw [paramLines, ha]
  · intro ha
    obtain ⟨n, hn, size⟩ := scalar ha
    have lines : paramLines s =
        .instr (.set (.named (.frame s.name)) .long (.alloc (if n = 8 then 8 else 4) 1)) ::
          storeLines n (.incoming s.name) (.named (.frame s.name)) := by
      rw [paramLines, ha, hn]
    rw [lines]
    refine ⟨_, _, _, rfl, housing_param hn size, ?_⟩
    unfold storeLines
    cases hw : Width.ofSize? n with
    | none => simp
    | some w =>
      have takes : s.Takes w := .inr (size.symm ▸ hw)
      simpa [Line.uses, Instr.uses] using takes

lemma slotted_of_slot {align : Nat} {count : Int64} (ha : s.hasAddr = true)
    (h : s.Housing { name := s.name, align, count }) :
    s.Slotted [.instr (.set (.named (.frame s.name)) .long (.alloc align count))] where
  none hn := absurd ha (ne_true_of_eq_false hn)
  slot _ := ⟨align, count, [], rfl, h, nofun⟩

lemma localSlots_slotted (ss : Symbols) (ids : List SymId)
    (chars : ∀ id ∈ ids, (ss.get id).type = .char → (ss.get id).size = 1) :
    ∃ pieces, List.Forall₂ (fun id piece => ((localSlots ss ids).2.get id).Slotted piece) ids pieces ∧
      (localSlots ss ids).1.map .instr = pieces.flatten := by
  induction ids generalizing ss with
  | nil => exact ⟨[], .nil, rfl⟩
  | cons id ids ih =>
    have here := localSlots_get ss (id :: ids) id
    by_cases ha : (ss.get id).hasAddr = true
    · obtain ⟨pieces, hp, lines⟩ := ih ss fun other ho => chars other (.tail id ho)
      rw [localSlots_addr ha] at here ⊢
      refine ⟨[_] :: pieces, .cons ?_ hp, congrArg (_ :: ·) lines⟩
      rw [here]
      exact slotted_of_slot (by simp [Symbol.addressed, ha]) housing_local
    · rw [Bool.not_eq_true] at ha
      by_cases hc : (ss.get id).type = .char
      · have size := chars id (.head ids) hc
        have later : ∀ other ∈ ids, ((ss.update id (·.addressed true)).get other).type = .char →
            ((ss.update id (·.addressed true)).get other).size = 1 := by
          intro other ho
          rw [Symbols.get_update (lt_size_of_char hc)]
          split_ifs
          · exact fun _ => size
          · exact chars other (.tail id ho)
        obtain ⟨pieces, hp, lines⟩ := ih _ later
        rw [localSlots_char ha hc] at here ⊢
        refine ⟨[_] :: pieces, .cons ?_ hp, congrArg (_ :: ·) lines⟩
        rw [here]
        exact slotted_of_slot (by simp [Symbol.addressed, hc]) (housing_char hc size)
      · obtain ⟨pieces, hp, lines⟩ := ih ss fun other ho => chars other (.tail id ho)
        rw [localSlots_none ha hc] at here ⊢
        refine ⟨[] :: pieces, .cons ?_ hp, lines⟩
        rw [here]
        constructor
        · exact fun _ => rfl
        · simp [Symbol.addressed, ha, hc]

lemma slotLines_slotted {ss : Symbols} {f : Symbol} {locals : List SymId} {params : List Param}
    (head : HeadOf ss f.members params)
    (frame : ∀ id ∈ f.members ++ locals, (ss.get id).isFrame = true ∧ (ss.get id).Fit)
    (isParam : ∀ id ∈ f.members, (ss.get id).isParam = true)
    (isLocal : ∀ id ∈ locals, (ss.get id).isParam = false) :
    ∃ pieces, List.Forall₂ (fun id piece => ((localSlots ss locals).2.get id).Slotted piece)
        (f.members ++ locals) pieces ∧ slotLines ss f locals = pieces.flatten := by
  have chars : ∀ id ∈ locals, (ss.get id).type = .char → (ss.get id).size = 1 := by
    intro id hid type
    obtain ⟨inFrame, fit⟩ := frame id (List.mem_append_right _ hid)
    exact fit.sized inFrame (.inr (by rw [type]; rfl)) 1 (by rw [type]; rfl)
  obtain ⟨pieces, hp, lines⟩ := localSlots_slotted ss locals chars
  refine ⟨f.members.map (fun id => paramLines (ss.get id)) ++ pieces, List.rel_append ?_ hp, ?_⟩
  · rw [List.forall₂_map_right_iff, List.forall₂_same]
    intro id hid
    have apart : id ∉ locals := by
      intro hl
      have param := isParam id hid
      rw [isLocal id hl] at param
      cases param
    have same : (localSlots ss locals).2.get id = ss.get id := by
      rw [localSlots_get]
      simp [apart, Symbol.addressed]
    rw [same]
    refine paramLines_slotted fun ha => ?_
    obtain ⟨n, hn⟩ := head.scalars id hid ha
    obtain ⟨inFrame, fit⟩ := frame id (List.mem_append_left _ hid)
    exact ⟨n, hn, fit.sized inFrame (.inl (isParam id hid)) n hn⟩
  · rw [slotLines, lines, List.flatten_append, List.flatMap_def]

namespace Definition

/-- Every variable that the code of a function names is its own or of file scope. -/
def Owns (d : Definition) : Prop :=
  ∀ id ∈ d.body.names, (d.symbols.get id).isFileScope = true ∨ id ∈ d.symbol.members ++ d.locals

variable {d : Definition} {text : List Line}

/-- The lines of a function by what they have to do with variables. -/
theorem Written.pieces (h : d.Written text) : ∃ c params entry pieces code,
    text = .opening (d.symbol.storage = .global) c d.symbol.name params :: .label entry ::
      (pieces.flatten ++ code ++
        [.label d.symbol.endLabel, .ret (d.symbol.type ≠ .void), .closing]) ∧
    HeadOf d.symbols d.symbol.members params ∧
    List.Forall₂ (fun id piece => (d.settled.get id).Slotted piece) (d.symbol.members ++ d.locals)
      pieces ∧
    pieces.flatten = slotLines d.symbols d.symbol d.locals ∧
    ∀ line ∈ code, line.Aims d.settled (· ∈ d.body.names) := by
  obtain ⟨e, e', he, htext, -⟩ := h.emitted
  obtain ⟨scope, shape⟩ := h.isStatement
  obtain ⟨-, c, params, r, e2, head, hlower, rfl⟩ := Emitter.function_eq_ok he
  obtain ⟨pieces, hp, lines⟩ := slotLines_slotted head h.frame h.params h.locals
  obtain ⟨code, hcode, aims⟩ := shape.aims hlower
  refine ⟨c, params, e.labels + 1, pieces, code, ?_, head, hp, lines.symm, aims⟩
  rw [Emitter.add_lines, hcode, Emitter.add_lines, Emitter.count_lines, List.append_assoc,
    List.append_assoc] at htext
  rw [← List.append_cancel_left htext, ← lines, List.append_assoc]
  rfl

lemma Unshared.eq_of_name (h : d.Unshared) {a b : SymId} (ha : a ∈ d.symbol.members ++ d.locals)
    (hb : b ∈ d.symbol.members ++ d.locals)
    (name : (d.symbols.get a).name = (d.symbols.get b).name) : a = b :=
  List.inj_on_of_nodup_map h ha hb name

lemma Closed.owns (h : d.Closed) : d.Owns := by
  intro id hid
  obtain ⟨n, hn, name⟩ := List.mem_filterMap.mp hid
  exact ((h.fold.nodes n hn).name name).2.imp_right List.mem_of_find?_eq_some

section
variable (d : Definition) (id : SymId)

/-- The variables of a function when their slots are laid out: a char among the locals has an address
now, all else is as before. -/
lemma settled_get : d.settled.get id = (d.symbols.get id).addressed ((d.symbols.get id).hasAddr ||
      id ∈ d.locals && (d.symbols.get id).type = .char) :=
  localSlots_get d.symbols d.locals id

@[simp] lemma settled_name : (d.settled.get id).name = (d.symbols.get id).name := by
  rw [settled_get]
  rfl

@[simp] lemma settled_type : (d.settled.get id).type = (d.symbols.get id).type := by
  rw [settled_get]
  rfl

@[simp] lemma settled_isFileScope :
    (d.settled.get id).isFileScope = (d.symbols.get id).isFileScope := by
  rw [settled_get]
  rfl

end

/-- The places where a function mentions a name of its frame. -/
inductive Mentions (d : Definition) (name : Text) : Use → Prop
  /-- In the head, as a parameter without an address. -/
  | head {id c} (same : (d.settled.get id).name = name) (member : id ∈ d.symbol.members)
      (plain : (d.settled.get id).hasAddr = false) (cls : (d.settled.get id).type.cls = .ok c) :
      d.Mentions name (.param c)
  /-- Where its slot is reserved. -/
  | slot {id align count} (same : (d.settled.get id).name = name)
      (own : id ∈ d.symbol.members ++ d.locals) (addr : (d.settled.get id).hasAddr = true)
      (housing : (d.settled.get id).Housing { name, align, count }) :
      d.Mentions name (.slot align count)
  /-- Where the value of a parameter comes in. -/
  | init {id w} (same : (d.settled.get id).name = name) (own : id ∈ d.symbol.members ++ d.locals)
      (addr : (d.settled.get id).hasAddr = true) (takes : (d.settled.get id).Takes w) :
      d.Mentions name (.stored w)
  /-- In the code of the body. -/
  | code {id u} (same : (d.settled.get id).name = name) (named : id ∈ d.body.names)
      (frame : (d.settled.get id).isFileScope = false) (allows : (d.settled.get id).Allows u) :
      d.Mentions name u

lemma Written.settled_param (h : d.Written text) {id : SymId} (hid : id ∈ d.symbol.members) :
    d.settled.get id = d.symbols.get id := by
  have apart : id ∉ d.locals := by
    intro hl
    have param := h.params id hid
    rw [h.locals id hl] at param
    cases param
  rw [settled_get]
  simp [apart, Symbol.addressed]

lemma mentions_of_slotted {id : SymId} {piece : List Line}
    (h : (d.settled.get id).Slotted piece) (own : id ∈ d.symbol.members ++ d.locals) {x : Text × Use}
    (hx : x ∈ usesOf piece) : d.Mentions x.1 x.2 := by
  cases ha : (d.settled.get id).hasAddr with
  | false =>
    rw [h.none ha] at hx
    cases hx
  | true =>
    obtain ⟨align, count, stores, uses, housing, all⟩ := h.slot ha
    rw [uses] at hx
    rcases List.mem_cons.mp hx with rfl | hx
    · exact .slot rfl own ha housing
    · obtain ⟨w, rfl, takes⟩ := all x hx
      exact .init rfl own ha takes

theorem Written.mentions (h : d.Written text) : ∀ x ∈ usesOf text, d.Mentions x.1 x.2 := by
  obtain ⟨c, params, entry, pieces, code, rfl, head, hp, -, aims⟩ := h.pieces
  intro x hx
  simp only [usesOf_cons, usesOf_append, List.mem_append] at hx
  rcases hx with hx | hx | (hx | hx) | hx
  · obtain ⟨p, hmem, hx⟩ := List.mem_filterMap.mp hx
    obtain ⟨id, member, heads⟩ := exists_of_mem_right head.heads hmem
    rw [heads.hasAddr, heads.name, ← h.settled_param member] at hx
    split_ifs at hx with addr
    cases hx
    refine .head rfl member (Bool.eq_false_iff.mpr addr) ?_
    rw [h.settled_param member]
    exact heads.cls
  · cases hx
  · obtain ⟨line, hl, hx⟩ := List.mem_flatMap.mp hx
    obtain ⟨piece, hmem, hl⟩ := List.mem_flatten.mp hl
    obtain ⟨id, own, slotted⟩ := exists_of_mem_right hp hmem
    exact mentions_of_slotted slotted own (List.mem_flatMap.mpr ⟨line, hl, hx⟩)
  · obtain ⟨line, hl, hx⟩ := List.mem_flatMap.mp hx
    obtain ⟨id, named, frame, name, allows⟩ := (aims line hl).uses x hx
    exact .code name named frame allows
  · simp [Line.uses] at hx

end Definition
end SmallC
