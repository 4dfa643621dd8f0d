import Mathlib

/-!
# Successful runs

What a run of a sequence says when it ends well: each part of it ended well, in the states
between.
-/

namespace SmallC

variable {ε σ α β : Type}
variable {a : α}

section
variable {x : EStateM ε σ α} {f : α → EStateM ε σ β} {s s' : σ} {b : β}

@[simp] lemma bind_eq_ok : (x >>= f) s = .ok b s' ↔ ∃ a s1, x s = .ok a s1 ∧ f a s1 = .ok b s' := by
  change EStateM.bind x f s = _ ↔ _
  unfold EStateM.bind
  cases x s with
  | ok a s1 => simp
  | error e s1 => simp

lemma bind_of_ok {s1 : σ} (h : x s = .ok a s1) : (x >>= f) s = f a s1 := by
  change EStateM.bind x f s = _
  unfold EStateM.bind
  rw [h]

@[simp] lemma map_eq_ok {f : α → β} : (f <$> x) s = .ok b s' ↔ ∃ a, x s = .ok a s' ∧ b = f a := by
  change EStateM.map f x s = _ ↔ _
  unfold EStateM.map
  cases x s with
  | ok a s1 => simp [and_comm, eq_comm]
  | error e s1 => simp

@[simp] lemma pure_eq_ok {b : α} : (pure a : EStateM ε σ α) s = .ok b s' ↔ b = a ∧ s' = s := by
  change EStateM.Result.ok a s = .ok b s' ↔ _
  simp [eq_comm]

@[simp] lemma throw_eq_ok {e : ε} {b : α} : (throw e : EStateM ε σ α) s = .ok b s' ↔ False := by
  simp only [iff_false]
  intro h
  cases h

lemma ite_eq_ok {c : Prop} [Decidable c] {y : EStateM ε σ α} :
    (if c then x else y) s = .ok a s' ↔ c ∧ x s = .ok a s' ∨ ¬ c ∧ y s = .ok a s' := by
  by_cases h : c <;> simp [h]

end

end SmallC
