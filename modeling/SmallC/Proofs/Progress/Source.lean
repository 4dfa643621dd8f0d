import SmallC.Proofs.Progress.Grammar
import SmallC.Proofs.Token.Segments

/-!
# Reading stays inside the source

The last token is that of the end, and it is never taken. So there is a token in front wherever reading
stands, and a diagnostic is at this token. What a part of the grammar gives it has taken a token for, however
the source goes on or breaks off.
-/

namespace SmallC

open Parse

variable {tokens : List Token} {s t : ParseState} {α : Type} {source : Text}

abbrev IsEnded (tokens : List Token) : Prop := tokens.getLast?.map Token.kind = some .eof

/-- Some of the tokens are left, with the last one of them. -/
def ParseState.Within (t : ParseState) (tokens : List Token) : Prop := t.rest <:+ tokens ∧ t.rest ≠ []

lemma ParseState.Within.ended (h : s.Within tokens) (ended : IsEnded tokens) :
    ∃ v ∈ s.rest, v.kind = .eof := by
  obtain ⟨before, split⟩ := h.1
  rw [IsEnded, ← split, List.getLast?_append_of_ne_nil _ h.2] at ended
  obtain ⟨v, last, eof⟩ := Option.map_eq_some_iff.mp ended
  exact ⟨v, List.mem_of_getLast? last, eof⟩

lemma ParseState.Onward.within (h : s.Onward t) (eof : ∃ v ∈ s.rest, v.kind = .eof) : t.Within s.rest := by
  obtain ⟨v, mem, kind⟩ := eof
  refine ⟨?_, List.ne_nil_of_mem (h.mem_rest mem kind)⟩
  obtain ⟨-, ts, split, -⟩ := h
  exact ⟨ts, split.symm⟩

end SmallC
