import SmallC.Proofs.Tree.Shape

/-!
# What conversions give

A conversion to a type gives a value that fits the type, and the two operands of an operation have
one type after it, or both are pointers that are compared. The operations `&&` and `||` convert
nothing and are left out.
-/

namespace SmallC

namespace CType

variable {t : CType}

lemma isInt_cases (h : t.isInt = true) : t = .char ∨ t = .int ∨ t = .long := by
  simpa [isInt, or_assoc] using h

lemma isPointer_of_isInt (h : t.isInt = true) : t.isPointer = false := by
  rcases isInt_cases h with rfl | rfl | rfl <;> rfl

lemma isComposite_of_isInt (h : t.isInt = true) : t.isComposite = false := by
  rcases isInt_cases h with rfl | rfl | rfl <;> rfl

lemma isInt_of_isPointer (h : t.isPointer = true) : t.isInt = false := by
  refine Bool.eq_false_iff.mpr fun int => ?_
  rw [isPointer_of_isInt int] at h
  cases h

lemma isComposite_of_isPointer (h : t.isPointer = true) : t.isComposite = false := by
  refine Bool.eq_false_iff.mpr fun composite => ?_
  simp only [isComposite, Bool.or_eq_true, decide_eq_true_eq] at composite
  rcases composite with rfl | rfl <;> cases h

lemma fits_refl (t : CType) : t.fits t = true := by simp [fits]

end CType

namespace Conversion

variable {l r : CType} {defined defined' : Option Int64} {op : Op} {c : Conversion}

inductive Adapts (l r : CType) (op : Op) : Conversion → Prop
  | same (hl : l.isInt) (heq : l = r) : Adapts l r op .keep
  | wider {m n : Int64} (hl : l.isInt) (hr : r.isInt) (hm : l.scalarSize = .ok m)
      (hn : r.scalarSize = .ok n) (less : m < n) : Adapts l r op .widen
  | pointers (hl : l.isPointer) (hr : r.isPointer)
      (when : op.isComparison ∨ op = .none ∧ (l = r ∨ l = .voidPointer)) : Adapts l r op .keep
  | index {c : Conversion} (hl : l.isInt) (hr : r.isPointer) (moves : c ≠ .keep) (hop : op.isAdditive)
      (defined : Option Int64) (way : toPointer r defined = .ok c) : Adapts l r op c

lemma betweenInts_adapts (hl : l.isInt) (hr : r.isInt) (h : betweenInts l r = some c) :
    Adapts l r op c := by
  unfold betweenInts at h
  split at h
  · rename_i heq
    cases h
    exact .same hl heq
  · split at h
    · rename_i m n hm hn
      split at h
      · cases h
        exact .wider hl hr hm hn ‹_›
      · cases h
    · cases h

lemma toPointer_ne_keep (h : toPointer r defined = .ok c) : c ≠ .keep := by
  unfold toPointer at h
  cases hs : r.pointee.size defined with
  | error e =>
    rw [hs] at h
    cases h
  | ok size =>
    rw [hs] at h
    cases h
    split <;> nofun

lemma between_adapts (hop : op.isLogical = false) (h : between l r defined op = .ok (some c)) :
    Adapts l r op c := by
  unfold between at h
  rw [if_neg (by simp [hop])] at h
  split at h
  · cases h
  split at h
  · rename_i ints
    obtain ⟨hl, hr⟩ := Bool.and_eq_true_iff.mp ints
    exact betweenInts_adapts hl hr (Except.ok.inj h)
  split at h
  · rename_i pointers
    cases h
    simp only [Bool.and_eq_true, Bool.or_eq_true, decide_eq_true_eq] at pointers
    exact .pointers pointers.1.1 pointers.1.2 pointers.2
  split at h
  · rename_i index
    simp only [Bool.and_eq_true] at index
    cases ht : toPointer r defined with
    | error e =>
      rw [ht] at h
      cases h
    | ok c' =>
      rw [ht] at h
      cases h
      exact .index index.1.2 index.2 (toPointer_ne_keep ht) index.1.1 defined ht
  · cases h

lemma between_index {c : Option Conversion} (hl : l.isInt = true) (hr : r.isPointer = true)
    (h : between l r defined .add = .ok c) : ∃ c', c = some c' ∧ c' ≠ .keep := by
  have plain : between l r defined .add = (toPointer r defined).map some := by
    simp [between, Op.isLogical, Op.isAdditive, CType.isComposite_of_isInt hl,
      CType.isComposite_of_isPointer hr, CType.isInt_of_isPointer hr, CType.isPointer_of_isInt hl, hl, hr]
  rw [plain] at h
  cases ht : toPointer r defined with
  | error e =>
    rw [ht] at h
    cases h
  | ok c' =>
    rw [ht] at h
    cases h
    exact ⟨c', rfl, toPointer_ne_keep ht⟩

lemma Adapts.opposite {c' : Conversion} (h : Adapts l r op c) (moves : c ≠ .keep)
    (k : Adapts r l op c') : False := by
  cases h with
  | same | pointers => exact moves rfl
  | wider hl hr hm hn less =>
    cases k with
    | same _ heq =>
      subst heq
      cases hm.symm.trans hn
      exact Int64.lt_irrefl less
    | wider _ _ hn' hm' less' =>
      cases hm.symm.trans hm'
      cases hn.symm.trans hn'
      exact Int64.lt_asymm less less'
    | pointers hr' _ =>
      rw [CType.isPointer_of_isInt hr] at hr'
      cases hr'
    | index _ hl' =>
      rw [CType.isPointer_of_isInt hl] at hl'
      cases hl'
  | index hl hr _ =>
    cases k with
    | same hr' | wider hr' | index hr' =>
      rw [CType.isInt_of_isPointer hr] at hr'
      cases hr'
    | pointers _ hl' =>
      rw [CType.isPointer_of_isInt hl] at hl'
      cases hl'

end Conversion

namespace Tree

open Conversion

variable {t left right : Tree} {l r : CType} {defined defined' : Option Int64} {ctype : Option SymId}
  {c : Conversion}

lemma type_converted (h : c ≠ .keep) : (t.converted c r ctype).type = r := by
  cases c with
  | keep => exact absurd rfl h
  | widen | scale => rfl

lemma type_asRvalue (t : Tree) : t.asRvalue.type = t.type := by
  cases t <;> rfl

lemma converted_fits (h : between t.type r defined .none = .ok (some c)) :
    (t.converted c r ctype).type.fits r = true := by
  have adapts := between_adapts rfl h
  by_cases moves : c = .keep
  · subst moves
    change t.type.fits r = true
    cases adapts with
    | same _ heq => exact heq ▸ t.type.fits_refl
    | pointers _ hr when =>
      rcases when with compares | ⟨-, heq | hvoid⟩
      · cases compares
      · exact heq ▸ t.type.fits_refl
      · simp [CType.fits, hvoid, hr]
    | index _ _ absurd => exact (absurd rfl).elim
  · rw [type_converted moves]
    exact r.fits_refl

lemma ne_none_of_between (h : between l r defined .none = .ok (some c)) : r ≠ .none := by
  rintro rfl
  cases between_adapts rfl h with
  | same hl heq => exact absurd (heq ▸ hl) nofun
  | wider _ hr => cases hr
  | pointers _ hr | index _ hr => cases hr

lemma adapted_matched {op : Op} {onLeft onRight : Option Conversion} {lt rt : Option SymId}
    (hop : op.isLogical = false) (hnone : op ≠ .none)
    (hl : between left.type right.type defined op = .ok onLeft)
    (hr : between right.type left.type defined' op = .ok onRight)
    (some : ¬ (onLeft = none ∧ onRight = none)) :
    matched op (left.adapted onLeft right.type rt) (right.adapted onRight left.type lt) = true := by
  have kept : ∀ {a b : Tree}, Adapts a.type b.type op .keep →
      a.type = b.type ∨ op.isComparison = true ∧ a.type.isPointer = true ∧ b.type.isPointer = true := by
    intro a b h
    cases h with
    | same _ heq => exact .inl heq
    | pointers ha hb when => exact .inr ⟨when.resolve_right fun h => hnone h.1, ha, hb⟩
    | index _ _ absurd => exact (absurd rfl).elim
  have settle : ∀ {a b : Tree}, a.type = b.type ∨
      op.isComparison = true ∧ a.type.isPointer = true ∧ b.type.isPointer = true →
      matched op a b = true := by
    rintro a b (heq | ⟨hc, ha, hb⟩)
    · simp [matched, heq]
    · simp [matched, hc, ha, hb]
  cases onLeft with
  | none =>
    cases onRight with
    | none => exact absurd ⟨rfl, rfl⟩ some
    | some c =>
      have adapts := between_adapts hop hr
      by_cases moves : c = .keep
      · subst moves
        refine settle ?_
        rcases kept adapts with heq | ⟨hc, ha, hb⟩
        · exact .inl heq.symm
        · exact .inr ⟨hc, hb, ha⟩
      · exact settle (.inl (type_converted moves).symm)
  | some c =>
    have adapts := between_adapts hop hl
    cases onRight with
    | none =>
      by_cases moves : c = .keep
      · subst moves
        exact settle (kept adapts)
      · exact settle (.inl (type_converted moves))
    | some c' =>
      have adapts' := between_adapts hop hr
      by_cases moves : c = .keep
      · by_cases moves' : c' = .keep
        · subst moves moves'
          exact settle (kept adapts)
        · exact (adapts'.opposite moves' adapts).elim
      · exact (adapts.opposite moves adapts').elim

def storing : List Op := [.asPlus, .asMinus, .asStar, .asSlash, .asMod]

lemma storing_plain {op : Op} (h : op ∈ storing) : op.isLogical = false ∧
    ¬ (op.isComparison ∨ op = .none) ∧ (op.isAdditive = true → op = .asPlus ∨ op = .asMinus) := by
  simp only [storing, List.mem_cons, List.not_mem_nil, or_false] at h
  rcases h with rfl | rfl | rfl | rfl | rfl <;> decide

/-- A value that is adapted to a target can be combined with it. -/
lemma adapted_combines {op : Op} {target value : Tree} {onTarget onValue : Option Conversion}
    (hop : op ∈ storing) (ht : between target.type value.type defined op = .ok onTarget)
    (hv : between value.type target.type defined' op = .ok onValue)
    (some : onTarget = some .widen ∨ onValue ≠ none) :
    Combines op target (value.adapted onValue target.type ctype) := by
  obtain ⟨notLogical, neither, additive⟩ := storing_plain hop
  cases onValue with
  | some c =>
    cases between_adapts notLogical hv with
    | same int heq => exact .integers (heq ▸ int) int
    | wider _ int => exact .integers int int
    | pointers _ _ when => exact absurd (when.imp_right And.left) neither
    | index int pointer moves add =>
      refine .index pointer (additive add) (type_converted moves) ?_
      cases c with
      | keep => exact absurd rfl moves
      | widen | scale => exact int
  | none =>
    obtain rfl := some.resolve_right fun h => h rfl
    cases between_adapts notLogical ht with
    | wider target value => exact .integers target value
    | index int pointer _ add defined narrow => exact .stray int (additive add) pointer defined narrow

end Tree
end SmallC
