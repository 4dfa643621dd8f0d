import SmallC.Lowering.Function
import SmallC.Proofs.Lowering.Statement

/-!
# The code of functions

The lines of a function are its head, a label, the slots of what has an address, the code of the
body, the label of its end, the return and the closing brace. The entry label is a new one; the
label of the end was given out with the name of the function.
-/

namespace SmallC

variable {ss : Symbols} {f : Symbol}

def Symbol.addressed (s : Symbol) (addr : Bool) : Symbol := { s with hasAddr := addr }

def Definition.settled (d : Definition) : Symbols := (Lower.localSlots d.symbols d.locals).2

namespace Lower

open Ir

variable {e e' : Emitter} {base : Nat} {ids : List SymId} {p : Symbol}
variable {u : Unit}

lemma wrote_plain {ls : List Line} (h : ∀ line ∈ ls, line.Plain base) :
    Wrote base (.plain ls.isEmpty) e (e.add ls) := by
  induction ls generalizing e with
  | nil => simpa using Wrote.refl (e := e)
  | cons line ls ih =>
    have w1 : Wrote base (.plain false) e (e.add [line]) := .line (h line (.head ls))
    have w2 := ih (e := e.add [line]) fun l hl => h l (.tail line hl)
    simpa using w1.plain w2

/-! ## Slots -/

section

variable {ss : Symbols} {id : SymId} {ids : List SymId}

lemma localSlots_addr (ha : (ss.get id).hasAddr = true) : localSlots ss (id :: ids) =
      (.set (.named (.frame (ss.get id).name)) .long
        (.alloc 8 ((max (ss.get id).size 1 + 7) >>> 3)) :: (localSlots ss ids).1,
        (localSlots ss ids).2) := by
  simp [localSlots, ha]

lemma localSlots_char (ha : (ss.get id).hasAddr = false) (hc : (ss.get id).type = .char) :
    localSlots ss (id :: ids) = (.set (.named (.frame (ss.get id).name)) .long (.alloc 4 1) ::
          (localSlots (ss.update id (·.addressed true)) ids).1,
        (localSlots (ss.update id (·.addressed true)) ids).2) := by
  simp [localSlots, ha, hc, Symbol.addressed]

lemma localSlots_none (ha : (ss.get id).hasAddr = false) (hc : (ss.get id).type ≠ .char) :
    localSlots ss (id :: ids) = localSlots ss ids := by
  simp [localSlots, ha, hc]

end

lemma localSlots_size (ss : Symbols) (ids : List SymId) : (localSlots ss ids).2.size = ss.size := by
  induction ids generalizing ss with
  | nil => rfl
  | cons id ids ih =>
    by_cases ha : (ss.get id).hasAddr = true
    · rw [localSlots_addr ha, ih]
    · rw [Bool.not_eq_true] at ha
      by_cases hc : (ss.get id).type = .char
      · rw [localSlots_char ha hc, ih, Symbols.size_update]
      · rw [localSlots_none ha hc, ih]

lemma lt_size_of_char {id : SymId} (h : (ss.get id).type = .char) : id < ss.size := by
  by_contra out
  rw [Symbols.get_of_size_le (Nat.le_of_not_lt out)] at h
  cases h

lemma localSlots_get (ss : Symbols) (ids : List SymId) (id : SymId) : (localSlots ss ids).2.get id =
      (ss.get id).addressed ((ss.get id).hasAddr || id ∈ ids && (ss.get id).type = .char) := by
  induction ids generalizing ss with
  | nil => simp [localSlots, Symbol.addressed]
  | cons first ids ih =>
    by_cases ha : (ss.get first).hasAddr = true
    · rw [localSlots_addr ha, ih]
      by_cases same : id = first
      · simp [same, ha]
      · simp [same]
    · rw [Bool.not_eq_true] at ha
      by_cases hc : (ss.get first).type = .char
      · rw [localSlots_char ha hc, ih, Symbols.get_update (lt_size_of_char hc)]
        by_cases same : id = first
        · simp [same, hc, Symbol.addressed]
        · simp [same]
      · rw [localSlots_none ha hc, ih]
        by_cases same : id = first
        · simp [same, hc]
        · simp [same]

lemma localSlots_grows (ss : Symbols) (ids : List SymId) : ss.Grows (localSlots ss ids).2 where
  size := by rw [localSlots_size]
  keeps id _ := by
    rw [localSlots_get]
    exact .of_core rfl fun addr => by simp [Symbol.addressed, addr]

lemma localSlots_eq (h : ∀ id ∈ ids, (ss.get id).hasAddr = false ∧ (ss.get id).type ≠ .char) :
    localSlots ss ids = ([], ss) := by
  induction ids with
  | nil => rfl
  | cons id ids ih =>
    obtain ⟨ha, hc⟩ := h id (.head ids)
    rw [localSlots_none ha hc]
    exact ih fun id' hid => h id' (.tail id hid)

/-- The slot of a parameter that must have an address, and the way of its value there. -/
def paramLines (p : Symbol) : List Line :=
  match p.hasAddr, p.type.scalarSize with
  | true, .ok size =>
    .instr (.set (.named (.frame p.name)) .long (.alloc (if size = 8 then 8 else 4) 1)) ::
      storeLines size (.incoming p.name) (.named (.frame p.name))
  | _, _ => []

def slotLines (ss : Symbols) (f : Symbol) (locals : List SymId) : List Line :=
  f.members.flatMap (fun id => paramLines (ss.get id)) ++ (localSlots ss locals).1.map .instr

/-- A line that reserves a slot or puts the value of a parameter into one. -/
def isSlot : Line → Bool
  | .instr (.set (.named (.frame _)) _ (.alloc ..)) => true
  | .instr (.store _ (.incoming _) (.named (.frame _))) => true
  | _ => false

lemma paramLines_isSlot : ∀ line ∈ paramLines p, isSlot line = true := by
  unfold paramLines storeLines
  split
  · rename_i size _ _
    cases Width.ofSize? size <;> simp [isSlot]
  · simp

lemma localSlots_isSlot (ss : Symbols) (ids : List SymId) :
    ∀ i ∈ (localSlots ss ids).1, isSlot (.instr i) = true := by
  induction ids generalizing ss with
  | nil => simp [localSlots]
  | cons id ids ih =>
    by_cases ha : (ss.get id).hasAddr = true
    · rw [localSlots_addr ha]
      exact List.forall_mem_cons.mpr ⟨rfl, ih ss⟩
    · rw [Bool.not_eq_true] at ha
      by_cases hc : (ss.get id).type = .char
      · rw [localSlots_char ha hc]
        exact List.forall_mem_cons.mpr ⟨rfl, ih _⟩
      · rw [localSlots_none ha hc]
        exact ih ss

lemma slotLines_isSlot (ss : Symbols) (f : Symbol) (locals : List SymId) :
    ∀ line ∈ slotLines ss f locals, isSlot line = true := by
  simp only [slotLines, List.mem_append, List.mem_flatMap, List.mem_map]
  rintro line (⟨id, -, hl⟩ | ⟨i, hi, rfl⟩)
  · exact paramLines_isSlot line hl
  · exact localSlots_isSlot ss locals i hi

lemma plain_of_isSlot {line : Line} (h : isSlot line = true) : line.Plain base := by
  unfold isSlot at h
  split at h
  · trivial
  · trivial
  · cases h

lemma slotLines_eq_nil {locals : List SymId} (params : ∀ id ∈ f.members, (ss.get id).hasAddr = false)
    (vars : ∀ id ∈ locals, (ss.get id).hasAddr = false ∧ (ss.get id).type ≠ .char) :
    slotLines ss f locals = [] := by
  rw [slotLines, localSlots_eq vars]
  simp only [List.map_nil, List.append_nil, List.flatMap_eq_nil_iff]
  intro id hid
  rw [paramLines, params id hid]

lemma paramSlot_eq_ok (h : paramSlot p e = .ok u e') :
    (p.hasAddr = true → ∃ size, p.type.scalarSize = .ok size) ∧ e' = e.add (paramLines p) := by
  unfold paramLines
  rcases ite_eq_ok.mp h with ⟨ha, h⟩ | ⟨ha, h⟩
  · simp only [bind_eq_ok] at h
    obtain ⟨size, e1, h1, _, e2, h2, h3⟩ := h
    obtain ⟨hs, rfl⟩ := ofType_eq_ok.mp h1
    obtain rfl := instr_eq_ok.mp h2
    obtain rfl := storeSized_eq_ok.mp h3
    exact ⟨fun _ => ⟨size, hs⟩, by simp [ha, hs]⟩
  · obtain ⟨-, rfl⟩ := pure_eq_ok.mp h
    exact ⟨fun addr => absurd addr ha, by simp [ha]⟩

lemma paramSlots_eq_ok (h : ids.forM (fun id => paramSlot (ss.get id)) e = .ok u e') :
    (∀ id ∈ ids, (ss.get id).hasAddr = true → ∃ size, (ss.get id).type.scalarSize = .ok size) ∧
      e' = e.add (ids.flatMap fun id => paramLines (ss.get id)) := by
  induction ids generalizing e with
  | nil =>
    obtain ⟨-, rfl⟩ := pure_eq_ok.mp h
    exact ⟨nofun, by simp⟩
  | cons id ids ih =>
    obtain ⟨_, e1, h1, h⟩ := bind_eq_ok.mp h
    obtain ⟨scalar, rfl⟩ := paramSlot_eq_ok h1
    obtain ⟨scalars, rfl⟩ := ih h
    exact ⟨List.forall_mem_cons.mpr ⟨scalar, scalars⟩, by simp⟩

structure Heads (s : Symbol) (p : Param) : Prop where
  cls : s.type.cls = .ok p.cls
  name : p.name = s.name
  hasAddr : p.hasAddr = s.hasAddr

/-- The parameters of a function that has a head, where those with an address are scalars. -/
structure HeadOf (ss : Symbols) (ids : List SymId) (params : List Param) : Prop where
  heads : List.Forall₂ (fun id p => Heads (ss.get id) p) ids params
  scalars : ∀ id ∈ ids, (ss.get id).hasAddr = true → ∃ size, (ss.get id).type.scalarSize = .ok size

lemma params_eq_ok {ps : List Param} (h : ids.mapM (fun id => param (ss.get id)) e = .ok ps e') :
    e' = e ∧ List.Forall₂ (fun id p => Heads (ss.get id) p) ids ps := by
  induction ids generalizing e ps with
  | nil =>
    rw [List.mapM_nil] at h
    obtain ⟨rfl, rfl⟩ := pure_eq_ok.mp h
    exact ⟨rfl, .nil⟩
  | cons id ids ih =>
    rw [List.mapM_cons] at h
    simp only [bind_eq_ok] at h
    obtain ⟨p, e1, h1, rest, e2, h2, h⟩ := h
    obtain ⟨rfl, rfl⟩ := pure_eq_ok.mp h
    obtain ⟨c, e3, h3, h4⟩ := bind_eq_ok.mp h1
    obtain ⟨hc, rfl⟩ := cls_eq_ok.mp h3
    obtain ⟨rfl, rfl⟩ := pure_eq_ok.mp h4
    obtain ⟨rfl, heads⟩ := ih h2
    exact ⟨rfl, .cons ⟨hc, rfl, rfl⟩ heads⟩

lemma functionHead_eq_ok (h : functionHead ss f e = .ok u e') :
    ∃ c params, HeadOf ss f.members params ∧
      e' = (e.count 0 1).add (.opening (f.storage = .global) c f.name params ::
        .label (e.labels + 1) :: f.members.flatMap fun id => paramLines (ss.get id)) := by
  unfold functionHead at h
  simp only [bind_eq_ok] at h
  obtain ⟨c, e1, h1, ps, e2, h2, _, e3, h3, l, e4, h4, _, e5, h5, h6⟩ := h
  obtain ⟨-, rfl⟩ := cls_eq_ok.mp h1
  obtain ⟨rfl, heads⟩ := params_eq_ok h2
  obtain rfl := line_eq_ok.mp h3
  obtain ⟨rfl, rfl⟩ := newLabel_eq_ok.mp h4
  obtain rfl := label_eq_ok.mp h5
  obtain ⟨scalars, rfl⟩ := paramSlots_eq_ok h6
  exact ⟨c, ps, ⟨heads, scalars⟩, by simp⟩

lemma forM_instr_eq_ok {is : List Instr} (h : is.forM instr e = .ok u e') :
    e' = e.add (is.map .instr) := by
  induction is generalizing e with
  | nil =>
    obtain ⟨-, rfl⟩ := pure_eq_ok.mp h
    simp
  | cons i is ih =>
    obtain ⟨_, e1, h1, h⟩ := bind_eq_ok.mp h
    obtain rfl := instr_eq_ok.mp h1
    rw [ih h]
    simp

end Lower

namespace Emitter

open Lower Ir

variable {e e' : Emitter} {ss ss' : Symbols} {id : SymId} {locals : List SymId} {body : Tree}

lemma function_eq_ok (h : e.function ss id locals body = (.ok (), ss', e')) :
    ss' = (localSlots ss locals).2 ∧ ∃ c params r e2, HeadOf ss (ss.get id).members params ∧
      body.lower ss' { function := ss.get id } ((e.count 0 1).add
        (.opening ((ss.get id).storage = .global) c (ss.get id).name params ::
          .label (e.labels + 1) :: slotLines ss (ss.get id) locals)) = .ok r e2 ∧
      e' = e2.add [.label (ss.get id).endLabel, .ret ((ss.get id).type ≠ .void), .closing] := by
  unfold Emitter.function at h
  dsimp only at h
  split at h
  · cases h
  · rename_i _ e1 h1
    split at h
    · cases h
    · rename_i _ e3 h3
      cases h
      obtain ⟨c, params, head, rfl⟩ := functionHead_eq_ok h1
      obtain ⟨_, e2, h2, h3⟩ := bind_eq_ok.mp h3
      obtain rfl := forM_instr_eq_ok h2
      unfold functionBody at h3
      simp only [bind_eq_ok] at h3
      obtain ⟨r, e4, h4, _, e5, h5, _, e6, h6, h7⟩ := h3
      obtain rfl := label_eq_ok.mp h5
      obtain rfl := line_eq_ok.mp h6
      obtain rfl := line_eq_ok.mp h7
      rw [Emitter.add_add, List.cons_append, List.cons_append] at h4
      exact ⟨rfl, c, params, r, e4, head, h4, by simp⟩

section
variable (h : e.function ss id locals body = (.ok (), ss', e')) (hbody : body.Runs ss')
  (pos : 0 ≤ e.labels) (hend : (ss.get id).endLabel ≠ 0)
include h hbody pos hend

/-- What is known of the lines of a function. -/
theorem function_wrote :
    ∃ c params e2, Wrote e.temps ⟨∅, {0, (ss.get id).endLabel}, body.strays true true,
        fun _ => body.tidy ss' false⟩
        (e.add [.opening ((ss.get id).storage = .global) c (ss.get id).name params]) e2 ∧
      (∃ rest, e2.lines.toList = e.lines.toList ++
        .opening ((ss.get id).storage = .global) c (ss.get id).name params ::
          .label (e.labels + 1) :: rest) ∧
      e' = e2.add [.label (ss.get id).endLabel, .ret ((ss.get id).type ≠ .void), .closing] := by
  obtain ⟨-, c, params, r, e2, -, hlower, rfl⟩ := function_eq_ok h
  have plain : ∀ line ∈ slotLines ss (ss.get id) locals, line.Plain e.temps := fun line hl =>
    plain_of_isSlot (slotLines_isSlot _ _ _ line hl)
  refine ⟨c, params, e2, ?_, ?_, rfl⟩
  case refine_2 =>
    have w : Wrote e.temps _ _ e2 := hbody hlower hend (by simp) (by simp; omega)
    obtain ⟨code, hcode, -⟩ := w.lines
    exact ⟨slotLines ss (ss.get id) locals ++ code, by simp [hcode]⟩
  have w1 : Wrote e.temps _
      (e.add [.opening ((ss.get id).storage = .global) c (ss.get id).name params]) _ :=
    Tree.wrote_freshLabel
  have w2 : Wrote e.temps _ ((e.count 0 1).add
      [.opening ((ss.get id).storage = .global) c (ss.get id).name params,
        .label (e.labels + 1)]) _ := wrote_plain plain
  have w3 : Wrote e.temps _ _ e2 := hbody hlower hend (by simp) (by simp; omega)
  simp only [Emitter.count_add, Emitter.add_labels, Emitter.add_add, List.cons_append,
    List.nil_append] at w1 w2
  refine ((w1.andThen w2 rfl).andThen w3 rfl).weaken (by simp) ?_ ?_ ?_
  · simp
  · simp
  · intro d
    cases hs : (slotLines ss (ss.get id) locals).isEmpty <;> simp [through]

lemma function_labels :
    e.labels ≤ e'.labels ∧ ∃ text placed, e'.lines.toList = e.lines.toList ++ text ∧
      labelsOf text = placed ++ [(ss.get id).endLabel] ∧ placed.Nodup ∧
      ∀ l ∈ placed, e.labels < l ∧ l ≤ e'.labels := by
  obtain ⟨c, params, e2, w, -, rfl⟩ := function_wrote h hbody pos hend
  obtain ⟨code, hcode, has⟩ := w.lines
  refine ⟨w.labels, .opening ((ss.get id).storage = .global) c (ss.get id).name params :: code ++
      [.label (ss.get id).endLabel, .ret ((ss.get id).type ≠ .void), .closing], labelsOf code,
    ?_, ?_, has.nodup, fun l hl => ?_⟩
  · simp [hcode]
  · simp
  · simpa using has.fresh l hl

end

end Emitter
end SmallC
