import SmallC.Proofs.Labels
import SmallC.Proofs.Lowering.Homes

/-!
# Slots are reserved in the wrong unit

Every variable of a function that has an address gets a slot, and there are no other slots. The count in the line
of a slot is one of units: as many as its variable needs when each is as long as the alignment says. But the
line reserves that many bytes. So the slot holds its variable only if that is a single byte.
-/

namespace SmallC

open Ir Lower ParseState

namespace Definition

variable {d : Definition} {text : List Line} {id : SymId}

lemma Written.exists_slot (h : d.Written text) (hid : id ∈ d.symbol.members ++ d.locals)
    (ha : (d.settled.get id).hasAddr = true) : ∃ slot ∈ slotsOf text, (d.settled.get id).Fits slot := by
  obtain ⟨c, params, entry, pieces, code, rfl, -, hp, -, -⟩ := h.pieces
  obtain ⟨piece, hmem, slotted⟩ := exists_of_mem_right hp.flip hid
  obtain ⟨align, count, stores, uses, housing, -⟩ := slotted.slot ha
  refine ⟨_, mem_slotsOf.mpr ?_, housing.toFits⟩
  have here : ((d.settled.get id).name, Use.slot align count) ∈ usesOf piece := by simp [uses]
  have there := mem_usesOf_flatten hmem here
  simp only [usesOf_cons, usesOf_append, List.mem_append]
  exact .inr (.inr (.inl (.inl there)))

lemma Written.of_slot (h : d.Written text) {slot : Slot} (hs : slot ∈ slotsOf text) :
    ∃ id ∈ d.symbol.members ++ d.locals, (d.settled.get id).hasAddr = true ∧
      (d.settled.get id).Housing slot := by
  cases h.mentions _ (mem_slotsOf.mp hs) with
  | slot _ own addr housing => exact ⟨_, own, addr, housing⟩
  | code _ _ _ allows => exact allows.elim

lemma Written.direct (h : d.Written text) (owns : d.Owns) (unshared : d.Unshared)
    (hid : id ∈ d.symbol.members ++ d.locals) {w : Width} (hw : ((d.settled.get id).name, w) ∈ directOf text) :
    (d.settled.get id).Takes w := by
  cases h.mentions _ (mem_directOf.mp hw) with
  | init same own _ takes =>
    obtain rfl := unshared.eq_of_name own hid (by simpa using same)
    exact takes
  | @code other _ same named frame allows =>
    rw [settled_isFileScope] at frame
    have own := (owns other named).resolve_left (ne_true_of_eq_false frame)
    obtain rfl := unshared.eq_of_name own hid (by simpa using same)
    exact allows.2

end Definition

theorem compile_slots {file source code : Text}
    (h : (Session.compile { file } source).1.outcome = .ok code) :
    let functions := (Session.compile { file } source).1.functions
    let lines := (Session.compile { file } source).2.out.lines.toList
    code = render lines ∧
      List.Forall₂ (fun d text =>
        (∀ id ∈ d.symbol.members ++ d.locals, (d.settled.get id).hasAddr = true →
          ∃ slot ∈ slotsOf text, (d.settled.get id).Fits slot) ∧
        (∀ slot ∈ slotsOf text, ∃ id ∈ d.symbol.members ++ d.locals,
          (d.settled.get id).hasAddr = true ∧ (d.settled.get id).Fits slot) ∧
        (d.Owns → d.Unshared → ∀ slot ∈ slotsOf text, 0 ≤ slot.room →
          ∀ w, (slot.name, w) ∈ directOf text → w.bytes ≤ slot.room)) functions (texts lines) ∧
      ((∀ t ∈ (lex source file).1, t.kind ≠ .staticKw ∧ t.kind ≠ .externKw) →
        ∀ d ∈ functions, d.Owns ∧ d.Unshared) := by
  obtain ⟨s, leads, hfunctions, hout, rfl⟩ := compile_leads h
  simp only [hfunctions, hout]
  refine ⟨trivial, ?_, ?_⟩
  · refine leads.sound.layout.written.imp fun d text ⟨hd, _⟩ => ⟨?_, ?_, ?_⟩
    · exact fun id hid ha => hd.exists_slot hid ha
    · intro slot hs
      obtain ⟨id, own, addr, housing⟩ := hd.of_slot hs
      exact ⟨id, own, addr, housing.toFits⟩
    · intro owns unshared slot hs positive w hw
      obtain ⟨id, own, -, housing⟩ := hd.of_slot hs
      rw [housing.name] at hw
      exact housing.stores positive w (hd.direct owns unshared own hw)
  · intro clean d hd
    obtain ⟨closed, unshared⟩ := functions_closed leads clean d hd
    exact ⟨closed.owns, unshared⟩

theorem compile_slots_mixed :
    let source : Text := "int f(int a, char b) \x7b int x[3]; char c; int *p; p = &a; c = b; x[1] = c; return *p; \x7d"
    let functions := (Session.compile { file := "t.c" } source).1.functions
    let lines := (Session.compile { file := "t.c" } source).2.out.lines.toList
    (∃ code, (Session.compile { file := "t.c" } source).1.outcome = .ok code) ∧
      (slotsOf lines).length = 3 ∧ (directOf lines).length = 2 ∧
      List.Forall₂ (fun d text => ∀ id ∈ d.symbol.members ++ d.locals,
        (d.settled.get id).hasAddr = true → ∃ slot ∈ slotsOf text, (d.settled.get id).Fits slot)
        functions (texts lines) ∧
      ∀ d ∈ functions, d.Owns ∧ d.Unshared := by
  intro source functions lines
  obtain ⟨code, ok⟩ := exists_of_isSome (x := (Session.compile { file := "t.c" } source).1.outcome)
    (by decide +kernel)
  have slots := compile_slots ok
  refine ⟨⟨code, ok⟩, by decide +kernel, by decide +kernel, ?_, slots.2.2 (by decide +kernel)⟩
  exact slots.2.1.imp fun d text h => h.1

/-- The slot of an int reserves one byte, and four are stored to it. -/
theorem compile_slot_overrun :
    let source : Text := "int f() \x7b int x; int *p; p = &x; x = 5; return *p; \x7d"
    let lines := (Session.compile { file := "t.c" } source).2.out.lines.toList
    (Session.compile { file := "t.c" } source).1.outcome.toOption.isSome = true ∧
      (directOf lines).map Prod.fst = (slotsOf lines).map Slot.name ∧
      (slotsOf lines).map Slot.bytes = [1] ∧
      (directOf lines).map (fun store => store.2.bytes) = [4] := by
  decide +kernel

end SmallC
