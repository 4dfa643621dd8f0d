import SmallC.Proofs.Lowering.Inside

/-!
# How code mentions variables

The code of a body reserves nothing. It mentions only what the body names, and each variable either by
its address, if it has one, or as a value of the class of its type.
-/

namespace SmallC

open Ir

/-- A store into the variable may be this wide: as a value of its type, or as its size. -/
def Symbol.Takes (s : Symbol) (w : Width) : Prop :=
  (∃ c, s.type.cls = .ok c ∧ w = .cls c) ∨ Width.ofSize? s.size = some w

/-- How a body may mention a variable in the frame: one with an address by it, any other as a value
of its class. -/
def Symbol.Allows (s : Symbol) : Use → Prop
  | .slot _ _ => False
  | .param _ => False
  | .loaded => s.hasAddr = true
  | .stored w => s.hasAddr = true ∧ s.Takes w
  | .copied c => s.HasPlace ∧ c = .long ∨ s.hasAddr = false ∧ s.type.cls = .ok c
  | .operand c => s.hasAddr = false ∧ s.type.cls = .ok c
  | .written c => s.hasAddr = false ∧ s.type.cls = .ok c

/-- A line that mentions only variables that may be named, as they allow. -/
structure Ir.Line.Aims (ss : Symbols) (names : SymId → Prop) (line : Line) : Prop where
  uses : ∀ x ∈ line.uses, ∃ id, names id ∧ (ss.get id).isFileScope = false ∧
    (ss.get id).name = x.1 ∧ (ss.get id).Allows x.2

namespace Lower

variable {r : Temp} {ss : Symbols} {names : SymId → Prop} {c : Cls}
variable {s : SymId}

lemma aims_of_uses {line : Line} (h : line.uses = []) : line.Aims ss names := ⟨by simp [h]⟩

@[simp] lemma aims_temp {t : Temp} {rhs : Rhs} : (Line.instr (.set (.temp t) c rhs)).Aims ss names ↔
      ∀ x ∈ rhs.uses c, ∃ id, names id ∧ (ss.get id).isFileScope = false ∧
        (ss.get id).name = x.1 ∧ (ss.get id).Allows x.2 :=
  ⟨fun h => h.uses, fun h => ⟨h⟩⟩

lemma aims_of_named (hs : names s) {line : Line}
    (file : (ss.get s).isFileScope = true → line.uses = [])
    (frame : (ss.get s).isFileScope = false → ∀ x ∈ line.uses,
      x.1 = (ss.get s).name ∧ (ss.get s).Allows x.2) : line.Aims ss names := by
  cases hfile : (ss.get s).isFileScope with
  | true => exact aims_of_uses (file hfile)
  | false =>
    refine ⟨fun x hx => ?_⟩
    obtain ⟨name, allows⟩ := frame hfile x hx
    exact ⟨s, hs, hfile, name.symm, allows⟩

lemma storageName_file {s : Symbol} (h : s.isFileScope = true) : s.storageName = .global s.name :=
  if_pos h

lemma storageName_frame {s : Symbol} (h : s.isFileScope = false) : s.storageName = .frame s.name :=
  if_neg (ne_true_of_eq_false h)

lemma storeInstr_aims (hs : names s) (hc : (ss.get s).type.cls = .ok c) :
    (Line.instr (storeInstr (ss.get s) c r)).Aims ss names := by
  unfold storeInstr
  refine aims_of_named hs (fun file => ?_) fun file => ?_
  · rw [if_pos file]
    rfl
  · rw [if_neg (ne_true_of_eq_false file)]
    split_ifs with addr
    · simpa [Line.uses, Instr.uses, Symbol.Allows, Symbol.Takes, addr] using Or.inl hc
    · simpa [Line.uses, Instr.uses, Dest.uses, Symbol.Allows, hc] using addr

lemma loadLines_aims (hs : names s) (inMemory : (ss.get s).inMemory = true) (r : Temp) :
    ∀ line ∈ loadLines r (ss.get s).size (.named (ss.get s).storageName), line.Aims ss names := by
  unfold loadLines
  cases Load.ofSize? (ss.get s).size with
  | none => simp
  | some k =>
    simp only [List.mem_singleton, forall_eq]
    refine aims_of_named hs (fun file => ?_) fun file => ?_
    · rw [storageName_file file]
      rfl
    · have addr : (ss.get s).hasAddr = true := by simpa [Symbol.inMemory, file] using inMemory
      rw [storageName_frame file]
      simpa [Line.uses, Instr.uses, Dest.uses, Symbol.Allows] using addr

lemma bumpStore_aims (hs : names s) (inMemory : (ss.get s).inMemory = true) :
    ∀ line ∈ storeLines (ss.get s).size (.temp r) (.named (ss.get s).storageName),
      line.Aims ss names := by
  unfold storeLines
  cases hw : Width.ofSize? (ss.get s).size with
  | none => simp
  | some w =>
    simp only [List.mem_singleton, forall_eq]
    refine aims_of_named hs (fun file => ?_) fun file => ?_
    · rw [storageName_file file]
      rfl
    · have addr : (ss.get s).hasAddr = true := by simpa [Symbol.inMemory, file] using inMemory
      rw [storageName_frame file]
      simpa [Line.uses, Instr.uses, Symbol.Allows, Symbol.Takes, addr] using Or.inr hw

lemma readLines_aims (hs : names s) (hc : (ss.get s).type.cls = .ok c) (r : Temp) :
    ∀ line ∈ readLines r (ss.get s) c, line.Aims ss names := by
  unfold readLines
  split_ifs with inMemory
  · exact loadLines_aims hs inMemory r
  · obtain ⟨addr, file⟩ : (ss.get s).hasAddr = false ∧ (ss.get s).isFileScope = false := by
      simpa [Symbol.inMemory] using inMemory
    simp only [List.mem_singleton, forall_eq]
    refine aims_of_named hs (fun h => absurd h (ne_true_of_eq_false file)) fun _ => ?_
    rw [storageName_frame file]
    simpa [Line.uses, Instr.uses, Dest.uses, Symbol.Allows, addr] using Or.inr hc

lemma stepLines_aims (hs : names s) (hc : (ss.get s).type.cls = .ok c) (step : Int64) (n : Nat) :
    ∀ line ∈ stepLines (ss.get s) c step n, line.Aims ss names := by
  unfold stepLines
  split_ifs with inMemory
  · unfold bumpLines
    simp only [List.mem_append]
    rintro line ((hl | hl) | hl)
    · exact loadLines_aims hs inMemory _ line hl
    · cases hk : Load.ofSize? (ss.get s).size <;> simp_all
    · exact bumpStore_aims hs inMemory line hl
  · obtain ⟨addr, file⟩ : (ss.get s).hasAddr = false ∧ (ss.get s).isFileScope = false := by
      simpa [Symbol.inMemory] using inMemory
    simp only [List.mem_singleton, forall_eq]
    refine aims_of_named hs (fun h => absurd h (ne_true_of_eq_false file)) fun _ => ?_
    rw [storageName_frame file]
    simp [Line.uses, Instr.uses, Dest.uses, Symbol.Allows, addr, hc]

lemma address_aims (hs : names s) (place : (ss.get s).HasPlace) (t : Temp) :
    (Line.instr (.set (.temp t) .long (.copy (.named (ss.get s).storageName)))).Aims ss names := by
  refine aims_of_named hs (fun file => ?_) fun file => ?_
  · rw [storageName_file file]
    rfl
  · rw [storageName_frame file]
    simpa [Line.uses, Instr.uses, Dest.uses, Symbol.Allows] using Or.inl place

end Lower

open Lower

/-- To mention variables as they allow. -/
def Manner.aiming (ss : Symbols) (names : SymId → Prop) : Manner :=
  ⟨Line.Aims ss names, fun _ _ => aims_of_uses, False⟩

/-- The code of a body mentions only the variables that it names, as they allow. -/
theorem Tree.IsStatement.aims {ss : Symbols} {scope : Scope} {t : Tree} (ht : IsStatement ss scope t)
    {ctx : Context} {e e' : Emitter} {r : Temp} (h : t.lower ss ctx e = .ok r e') :
    ∃ code, e'.lines.toList = e.lines.toList ++ code ∧ ∀ line ∈ code, line.Aims ss (· ∈ t.names) := by
  refine ((writes_lower (P := .aiming ss (· ∈ t.names)) ss ctx False.elim t fun n hn =>
    ⟨?_, False.elim⟩).fills h).lines
  have part := ht.nodes n hn
  cases n with
  | ident j s =>
    have hs : s ∈ t.names := mem_names hn rfl
    exact ⟨fun hc r => readLines_aims hs hc r, fun hc k n => stepLines_aims hs hc k n,
      fun hc r => storeInstr_aims hs hc⟩
  | addrOf j s a =>
    cases part.isExpression rfl with
    | addrOf known visible place =>  exact writes_address (address_aims (mem_names hn rfl) place)
    | base => trivial
  | _ => trivial

end SmallC
