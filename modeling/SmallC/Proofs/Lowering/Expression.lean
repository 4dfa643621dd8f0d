import SmallC.Proofs.Lowering.Operations

/-!
# The code of expressions

The code of an expression comes in at its beginning and goes out at its end: it places labels of
its own and jumps to no others. Its value is in a temporary that it gave out, so temporaries from
before keep what they hold.
-/

namespace SmallC

namespace Tree

open Lower Ir

variable {op : Op} {args : List Tree} {ctx : Context} {e : Emitter}
variable {ss : Symbols} {scope : Scope}
variable {i : Info} {a b c : Tree} {s : SymId}

def Computes (ss : Symbols) (t : Tree) : Prop :=
  ∀ {ctx : Context} {e e' : Emitter} {r : Temp} {base : Nat}, t.lower ss ctx e = .ok r e' →
    (t.Loaded ∨ ctx.parent ≠ .deref) → base ≤ e.temps → 0 ≤ e.labels →
    Wrote base (.plain (t.silent ss)) e e' ∧ r.Above base e'

lemma intLit_computes {v : Int64} : Computes ss (.intLit i v) := by
  intro ctx e e' r base h _ hb _
  exact loadInt_wrote h hb

lemma strLit_computes {l : Int} : Computes ss (.strLit i l) := by
  intro ctx e e' r base h _ hb _
  obtain ⟨rfl, rfl⟩ := loadString_eq_ok.mp h
  exact wrote_new _ _ hb

lemma ident_computes : Computes ss (.ident i s) := by
  intro ctx e e' r base h loaded hb _
  rcases ite_eq_ok.mp h with ⟨hr, h⟩ | ⟨hr, h⟩
  · have hr : i.rvalue = true := by
      by_contra hn
      have : ctx.parent ≠ .deref := loaded.resolve_left fun l => hn (l rfl)
      simp [hn, this] at hr
    simpa [silent, hr] using loadVar_wrote h hb
  · obtain ⟨rfl, rfl⟩ := pure_eq_ok.mp h
    have hr : i.rvalue = false := by
      cases hi : i.rvalue
      · rfl
      · simp [hi] at hr
    simpa [silent, hr] using ⟨Wrote.refl, Temp.Above.none⟩

lemma addrOf_computes : Computes ss (.addrOf i (some s) a) := by
  intro ctx e e' r base h _ hb _
  obtain ⟨rfl, rfl⟩ := address_eq_ok.mp h
  exact wrote_new _ _ hb

lemma base_computes (la : a.Loaded) (ha : Computes ss a) : Computes ss (.addrOf i none a) := by
  intro ctx e e' r base h _ hb hl
  exact ha h (.inl la) hb hl

lemma deref_computes (la : a.Loaded) (ha : Computes ss a) : Computes ss (.deref i a) := by
  intro ctx e e' r base h _ hb hl
  obtain ⟨x, e1, h1, h⟩ := bind_eq_ok.mp h
  obtain ⟨w1, hx⟩ := ha h1 (.inl la) hb hl
  by_cases hr : i.rvalue = true
  · rw [if_pos hr] at h
    obtain ⟨w2, hr2⟩ := loadThrough_wrote h (hb.trans w1.temps)
    simp only [silent, hr, Bool.not_true, Bool.false_and]
    exact ⟨w1.andLine w2, hr2⟩
  · rw [if_neg hr] at h
    obtain ⟨rfl, rfl⟩ := pure_eq_ok.mp h
    rw [Bool.not_eq_true] at hr
    simpa [silent, hr] using ⟨w1, hx⟩

lemma binary_computes (la : a.Loaded) (ha : Computes ss a) (lb : b.Loaded) (hb' : Computes ss b) :
    Computes ss (.binary i op a b) := by
  intro ctx e e' r base h _ hb hl
  obtain ⟨x, e1, y, e2, h1, h2, outcome⟩ := lower_binary h
  obtain ⟨w1, hx⟩ := ha h1 (.inl la) hb hl
  obtain ⟨w2, -⟩ := hb' h2 (.inl lb) (hb.trans w1.temps) (hl.trans w1.labels)
  rcases outcome with ⟨rel, c, -, -, rfl, rfl⟩ | ⟨f, c, -, -, -, rfl, rfl⟩
  · obtain ⟨w3, hr⟩ := wrote_new _ _ (hb.trans (w1.temps.trans w2.temps))
    exact ⟨w1.andLine (w2.andLine w3), hr⟩
  · have hx := hx.later w2.temps
    exact ⟨w1.andLine (w2.andLine (wrote_set _ _ hx)), hx⟩

lemma assign_computes (location : a.isLvalue) (ha : Computes ss a) (lb : b.Loaded)
    (hb' : Computes ss b) : Computes ss (.assign i a b) := by
  intro ctx e e' r base h _ hb hl
  obtain ⟨e1, h1, rest⟩ := lower_assign location h
  obtain ⟨w1, hx⟩ := hb' h1 (.inl lb) hb hl
  rcases rest with ⟨j, s, c, rfl, -, rfl⟩ | ⟨j, p, y, e2, size, rfl, h2, scalar, rfl⟩
  · exact ⟨w1.andLine wrote_storeVar, hx⟩
  · obtain ⟨w2, -⟩ := ha h2 (.inr (by simp [Context.under])) (hb.trans w1.temps) (hl.trans w1.labels)
    exact ⟨w1.andLine (w2.andLine (wrote_store scalar)), hx.later w2.temps⟩

section
variable {n : Int64} (la : a.Loaded) (ha : Computes ss a)
include la ha

lemma widen_computes : Computes ss (.widen i a) := by
  intro ctx e e' r base h _ hb hl
  obtain ⟨x, e1, h1, h⟩ := bind_eq_ok.mp h
  obtain ⟨w1, hx⟩ := ha h1 (.inl la) hb hl
  obtain ⟨w2, hr⟩ := widen_wrote h (hb.trans w1.temps) hx
  exact ⟨w1.plain w2, hr⟩

lemma scale_computes : Computes ss (.scale i a n) := by
  intro ctx e e' r base h _ hb hl
  obtain ⟨x, e1, h1, h⟩ := bind_eq_ok.mp h
  obtain ⟨w1, hx⟩ := ha h1 (.inl la) hb hl
  obtain ⟨w2, hr⟩ : Wrote base (.plain false) e1 e' ∧ r.Above base e' := by
    cases hs : shiftOf? n with
    | some k =>
      rw [hs] at h
      exact shiftLeft_wrote h (hb.trans w1.temps)
    | none =>
      rw [hs] at h
      exact timesConstant_wrote h (hb.trans w1.temps) hx
  exact ⟨w1.andLine w2, hr⟩

lemma cast_computes : Computes ss (.cast i a) := by
  intro ctx e e' r base h _ hb hl
  obtain ⟨x, e1, h1, h⟩ := bind_eq_ok.mp h
  obtain ⟨w1, hx⟩ := ha h1 (.inl la) hb hl
  obtain ⟨w2, hr⟩ := cast_wrote h (hb.trans w1.temps) hx
  exact ⟨w1.plain w2, hr⟩

lemma unary_computes : Computes ss (.unary i op a) := by
  intro ctx e e' r base h _ hb hl
  obtain ⟨x, e1, h1, h⟩ := bind_eq_ok.mp h
  obtain ⟨w1, hx⟩ := ha h1 (.inl la) hb hl
  obtain ⟨c, rhs, -, -, rfl, rfl⟩ := unary_eq_ok.mp h
  exact ⟨w1.andLine (wrote_set _ _ hx), hx⟩

end

lemma compound_computes (location : a.isLvalue) (ha : Locates (Computes ss) a) (lb : b.Loaded)
    (hb' : Computes ss b) : Computes ss (.compound i op a b) := by
  intro ctx e e' r base h _ hb hl
  cases a with
  | ident j s =>
    obtain ⟨x, e1, e2, y, e3, f, c, d, h1, h2, h3, -, -, -, rfl⟩ := lower_compound_ident h
    obtain ⟨w1, hx⟩ := loadVar_wrote h1 hb
    obtain ⟨p, w2, hr⟩ := inType_wrote h2 (hb.trans w1.temps) hx
    have w12 := w1.plain w2
    obtain ⟨w3, -⟩ := hb' h3 (.inl lb) (hb.trans w12.temps) (hl.trans w12.labels)
    have hr := hr.later w3.temps
    rw [← List.singleton_append, ← Emitter.add_add]
    exact ⟨w12.andLine (w3.andLine ((wrote_set _ _ hr).andLine wrote_storeVar)), hr⟩
  | deref j a =>
    obtain ⟨ha, la⟩ := ha j a rfl
    obtain ⟨z, e1, t, x, e2, e3, y, e4, f, c, size, h1, -, h2, h3, h4, -, -, scalar, rfl⟩ := lower_compound_deref h
    obtain ⟨w1, -⟩ := ha h1 (.inl la) hb hl
    obtain ⟨w2, hx⟩ := loadThrough_wrote h2 (hb.trans w1.temps)
    have w12 := w1.andLine w2
    obtain ⟨p, w3, hr⟩ := inType_wrote h3 (hb.trans w12.temps) hx
    have w13 := w12.plain w3
    obtain ⟨w4, -⟩ := hb' h4 (.inl lb) (hb.trans w13.temps) (hl.trans w13.labels)
    have hr := hr.later w4.temps
    rw [← List.singleton_append, ← Emitter.add_add]
    exact ⟨w13.andLine (w4.andLine ((wrote_set _ _ hr).andLine (wrote_store scalar))), hr⟩
  | _ => cases location

lemma step_computes (location : a.isLvalue) (ha : Locates (Computes ss) a) : Computes ss (.step i op a) := by
  intro ctx e e' r base h _ hb hl
  cases a with
  | ident j s =>
    exact loadVar_wrote h hb
  | deref j a =>
    obtain ⟨ha, la⟩ := ha j a rfl
    obtain ⟨z, e1, t, x, e2, step, c, size, h1, -, h2, -, -, scalar, rfl, rfl⟩ := lower_step_deref h
    obtain ⟨w1, -⟩ := ha h1 (.inl la) hb hl
    obtain ⟨w2, hx⟩ := loadThrough_wrote h2 (hb.trans w1.temps)
    have w12 := w1.andLine w2
    obtain ⟨w3, hm⟩ := wrote_new _ _ (hb.trans w12.temps)
    rw [← List.singleton_append, ← Emitter.add_add]
    refine ⟨w12.andLine (w3.andLine (wrote_store scalar)), ?_⟩
    split
    · exact hm
    · exact hx.later w3.temps
  | _ => cases location

/-! ## Expressions with jumps -/

lemma logical_computes (la : a.Loaded) (ha : Computes ss a) (lb : b.Loaded) (hb' : Computes ss b) :
    Computes ss (.logical i op a b) := by
  intro ctx e e' r base h _ hb hl
  obtain ⟨x, e1, c, y, e2, d, h1, -, h2, -, rfl, rfl⟩ := lower_logical h
  have hl2 : 0 ≤ (e.count 0 2).labels := by simp; omega
  have pos : 0 < e.labels + 1 := by omega
  obtain ⟨w1, -⟩ := ha h1 (.inl la) hb hl2
  have w2 := w1.andThen (wrote_truth op x c pos (hl2.trans w1.labels) (hb.trans w1.temps)) rfl
  obtain ⟨w3, hy⟩ := hb' h2 (.inl lb) (hb.trans w2.temps) (hl2.trans w2.labels)
  have w4 := w2.andThen w3 rfl
  have w5 := w4.andThen (wrote_truth op r d pos (hl2.trans w4.labels) (hb.trans w4.temps)) rfl
  have hy : r.Above base (e2.count 1 1) := hy.later (by simp)
  have w6 := w5.andThen (wrote_set d (.copy (.int (if op = .logOr then 0 else 1))) hy) rfl
  have w := w6.fork ∅ rfl rfl hl (by simp) (by simp)
    (wrote_set d (.copy (.int (if op = .logOr then 1 else 0))) hy) rfl (by simp)
  simp only [Emitter.add_add, List.append_assoc] at w
  refine ⟨w.weaken (by simp) (by simp) (by simp) ?_, hy⟩
  intro c
  generalize silent ss a = p
  generalize silent ss b = q
  cases p <;> cases q <;> cases c <;> rfl

/-- What is shown of the code of a condition and of the jump that it decides. -/
def Decides (ss : Symbols) (c : Tree) : Prop :=
  ∀ {ctx : Context} {op : Op} {l : Int} {e e1 e' : Emitter} {r : Temp} {u : Unit} {base : Nat},
    c.lower ss (ctx.condition op l) e = .ok r e1 → jumpUnlessTrue r l e1 = .ok u e' →
    op ≠ .deref → 0 < l → base ≤ e.temps → 0 ≤ e.labels → Wrote base (.exiting l) e e'

lemma Decides.wrote (hc : Decides ss c) {l : Int} {e1 : Emitter} {x : Temp} {n : Nat}
    (h : c.lower ss (ctx.condition op l) e = .ok x e1) (hop : op ≠ .deref) (pos : 0 < l) (hn : n ≤ e.temps)
    (hl : 0 ≤ e.labels) : Wrote n (.exiting l) e ((e1.count 2 1).add (unlessLines x l e1)) :=
  hc (u := ()) h (jumpUnlessTrue_eq_ok.mpr rfl) hop pos hn hl

lemma Computes.decides (hc : Computes ss c) : Decides ss c := by
  intro ctx op l e e1 e' r u base h1 h2 hop pos hb hl
  obtain ⟨w1, -⟩ := hc h1 (.inr hop) hb hl
  have w2 := jumpUnlessTrue_wrote h2 pos (hl.trans w1.labels) (hb.trans w1.temps)
  refine (w1.andThen w2 rfl).weaken (by simp) (by simp) (by simp) ?_
  intro d
  generalize silent ss c = p
  cases p <;> cases d <;> rfl

lemma toBool_decides (la : a.Loaded) (ha : Computes ss a) : Decides ss (.toBool i a) := by
  intro ctx op l e e1 e' r u base h1 h2 hop pos hb hl
  obtain ⟨x, e3, c, h3, -, rfl, rfl⟩ := lower_toBool h1
  obtain ⟨w1, -⟩ := ha h3 (.inl la) hb hl
  have w2 := w1.andThen (wrote_truth op x c pos (hl.trans w1.labels) (hb.trans w1.temps)) rfl
  have w3 := jumpUnlessTrue_wrote h2 pos (hl.trans w2.labels) (hb.trans w2.temps)
  refine (w2.andThen w3 rfl).weaken (by simp) (by simp) (by simp) ?_
  intro d
  generalize silent ss a = p
  cases p <;> cases d <;> rfl

lemma ternary_computes (hc : Decides ss c) (la : a.Loaded) (ha : Computes ss a) (lb : b.Loaded)
    (hb' : Computes ss b) : Computes ss (.ternary i c a b) := by
  intro ctx e e' r base h _ hb hl
  obtain ⟨x, e1, y, e2, d, z, e3, f, h1, h2, -, h3, -, rfl, rfl⟩ := lower_ternary h
  have hl2 : 0 ≤ (e.count 0 2).labels := by simp only [Emitter.count_labels]; omega
  have w1 := hc.wrote h1 (by simp) (by omega) hb hl2
  have w12 := w1.andThen (.counted 1) rfl
  simp only [Emitter.count_add, Emitter.count_count] at w12
  obtain ⟨w3, -⟩ := ha h2 (.inl la) (hb.trans w12.temps) (hl2.trans w12.labels)
  have above : base < e1.temps + 3 := Nat.lt_succ_of_le (hb.trans w1.temps)
  have outcome : Temp.Above base e2 (some (e1.temps + 3)) := .some above w3.temps
  have w13 := w12.andThen (w3.andLine (wrote_set d (.copy (.temp y)) outcome)) rfl
  rw [← List.singleton_append, ← Emitter.add_add, ← List.singleton_append, ← Emitter.add_add] at h3
  obtain ⟨w4, -⟩ := hb' h3 (.inl lb) (hb.trans w13.temps) (hl2.trans w13.labels)
  have outcome := outcome.later w4.temps
  have w := w13.fork ∅ rfl rfl hl (by simp) (by simp) (w4.andLine (wrote_set f (.copy (.temp z)) outcome)) rfl (by simp)
  rw [Emitter.add_add] at w
  refine ⟨w.weaken (by simp) (by simp) (by simp) ?_, outcome⟩
  intro d
  cases d <;> rfl

lemma lowerArgs_wrote (hargs : ∀ a ∈ args, Computes ss a) (largs : ∀ a ∈ args, a.Loaded) {e' : Emitter}
    {rs : List (Temp × CType)} {base : Nat} (h : lowerArgs ss ctx args e = .ok rs e') (hb : base ≤ e.temps)
    (hl : 0 ≤ e.labels) : ∃ p, Wrote base (.plain p) e e' := by
  induction args generalizing e' rs with
  | nil =>
    obtain ⟨-, rfl⟩ := pure_eq_ok.mp h
    exact ⟨_, .refl⟩
  | cons a args ih =>
    obtain ⟨rest, e1, h1, h⟩ := bind_eq_ok.mp h
    simp only [bind_eq_ok] at h
    obtain ⟨x, e2, h2, h⟩ := h
    obtain ⟨-, rfl⟩ := pure_eq_ok.mp h
    obtain ⟨p, w1⟩ := ih (fun b hb => hargs b (.tail a hb)) (fun b hb => largs b (.tail a hb)) h1
    obtain ⟨w2, -⟩ := hargs a (.head args) h2 (.inl (largs a (.head args))) (hb.trans w1.temps)
      (hl.trans w1.labels)
    exact ⟨_, w1.plain w2⟩

lemma call_computes (hargs : ∀ a ∈ args, Computes ss a) (largs : ∀ a ∈ args, a.Loaded) :
    Computes ss (.call i s args) := by
  intro ctx e e' r base h _ hb hl
  obtain ⟨rs, e1, h1, h⟩ := bind_eq_ok.mp h
  obtain ⟨p, w1⟩ := lowerArgs_wrote hargs largs h1 hb hl
  obtain ⟨w2, hr⟩ := call_wrote h (hb.trans w1.temps)
  exact ⟨w1.andLine w2, hr⟩

/-! ## All of them -/

theorem IsExpression.computes {t : Tree} (ht : IsExpression ss scope t) : Computes ss t :=
  ht.located (P := Computes ss) intLit_computes strLit_computes (fun _ _ => ident_computes)
    (fun _ _ _ => addrOf_computes) base_computes deref_computes binary_computes logical_computes
    assign_computes (fun la _ => compound_computes la) widen_computes scale_computes cast_computes
    (fun la ha _ => unary_computes la ha) (fun la _ => step_computes la)
    (fun _ hc => ternary_computes (Computes.decides hc))
    (fun lc hc => ternary_computes (toBool_decides lc hc)) call_computes

theorem IsCondition.decides (hc : IsCondition ss scope c) : Decides ss c := by
  rcases hc with ⟨he, -⟩ | ⟨j, a, rfl, ha, la⟩
  · exact Computes.decides he.computes
  · exact toBool_decides la ha.computes

end Tree
end SmallC
