import SmallC.Proofs.Symbol

/-!
# Layout of structs and unions

Members are placed one after another, and nothing but their offsets changes on the way.
-/

namespace SmallC
namespace SymbolTable

variable {st st' : SymbolTable} {members : List SymId} {m : SymId} {used : Int64}

/-! ## What placing leaves alone -/

/-- Nothing but offsets has changed. -/
inductive Placed : SymbolTable → SymbolTable → Prop
  | refl (st : SymbolTable) : Placed st st
  | step {st st' : SymbolTable} (m : SymId) (offset : Int64)
      (rest : Placed (st.update m fun s => { s with offset }) st') : Placed st st'

lemma placed_layOut (isUnion isFirst : Bool) (used : Int64) (members : List SymId) (st : SymbolTable) :
    Placed st (layOut isUnion isFirst used members st).2 := by
  induction members generalizing isFirst used st with
  | nil => exact .refl st
  | cons m ms ih =>
    unfold layOut
    dsimp only
    split
    · exact .refl st
    · exact .step m _ (ih false _ _)

/-- The struct or union is changed only once all its members have a place. -/
lemma layout_cases (st : SymbolTable) (composite : SymId) (members : List SymId) :
    ∃ st1, Placed st st1 ∧ ((∃ e, st.layout composite members = (.error e, st1)) ∨
      ∃ size, st.layout composite members = (.ok (), st1.update composite fun s => { s with members, size })) := by
  refine ⟨_, placed_layOut ((st.get composite).type = .union) true 0 members st, ?_⟩
  unfold layout
  rcases layOut ((st.get composite).type = .union) true 0 members st with ⟨e | size, st1⟩
  · exact .inl ⟨e, rfl⟩
  · exact .inr ⟨size, rfl⟩

lemma get_place (st : SymbolTable) (m : SymId) (offset : Int64) (other : SymId) :
    ∃ o, (st.update m fun s => { s with offset }).get other = { st.get other with offset := o } := by
  by_cases same : m = other
  · subst same
    by_cases lt : m < st.symbols.size
    · exact ⟨offset, get_update lt _⟩
    · refine ⟨(st.get m).offset, ?_⟩
      rw [get_of_size_le (Nat.le_of_not_lt lt), get_of_size_le]
      exact Nat.le_of_not_lt (by simpa [update] using lt)
  · exact ⟨(st.get other).offset, get_update_ne same⟩

lemma Placed.get (h : Placed st st') (id : SymId) :
    ∃ offset, st'.get id = { st.get id with offset } := by
  induction h with
  | refl st => exact ⟨(st.get id).offset, rfl⟩
  | @step st _ m offset _ ih =>
    obtain ⟨o, same⟩ := get_place st m offset id
    obtain ⟨o', later⟩ := ih
    exact ⟨o', by rw [later, same]⟩

lemma Placed.size (h : Placed st st') : st'.symbols.size = st.symbols.size := by
  induction h with
  | refl => rfl
  | step m offset _ ih => exact ih.trans (Symbols.size_update ..)

end SymbolTable
end SmallC
