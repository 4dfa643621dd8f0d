import SmallC.Proofs.Ir.Paths
import SmallC.Proofs.Lowering.Statement
import SmallC.Proofs.Tree.Classes

/-!
# Classes of temporaries in code

The code of a tree sets only temporaries that were given out for it, and it sets each with one class
exactly if the tree is steady. `Sets` says this of a step of code generation and `Makes` of one that
leaves a value, with the class of its temporary. Steps one after another set different temporaries,
so what is left to look at are the steps that set a temporary again.
-/

namespace SmallC

variable {u : Unit}

namespace Ir

variable {mid : Nat} {ls : List Line} {s : Symbol} {size : Int64} {args ts : List Tree}

def OneClass (code : List Line) : Prop :=
  ∀ p ∈ setsOf code, ∀ q ∈ setsOf code, p.1 = q.1 → p.2 = q.2

instance (code : List Line) : Decidable (OneClass code) :=
  inferInstanceAs (Decidable (∀ p ∈ setsOf code, ∀ q ∈ setsOf code, p.1 = q.1 → p.2 = q.2))

/-- The code sets only temporaries after `lo` and up to `hi`. -/
def SetsWithin (lo hi : Nat) (code : List Line) : Prop :=
  ∀ p ∈ setsOf code, ∃ n, p.1 = some n ∧ lo < n ∧ n ≤ hi

variable {a b : List Line} {lo hi : Nat}

lemma SetsWithin.mono {lo' hi' : Nat} {code : List Line} (h : SetsWithin lo hi code) (h1 : lo' ≤ lo)
    (h2 : hi ≤ hi') : SetsWithin lo' hi' code := by
  intro p hp
  obtain ⟨n, hn, above, below⟩ := h p hp
  exact ⟨n, hn, by omega, by omega⟩

lemma SetsWithin.append (ha : SetsWithin lo hi a) (hb : SetsWithin lo hi b) :
    SetsWithin lo hi (a ++ b) := by
  intro p hp
  rw [setsOf_append, List.mem_append] at hp
  exact hp.elim (ha p) (hb p)

lemma SetsWithin.apart (ha : SetsWithin lo mid a) (hb : SetsWithin mid hi b) :
    ∀ p ∈ setsOf a, ∀ q ∈ setsOf b, p.1 ≠ q.1 := by
  intro p hp q hq same
  obtain ⟨n, hn, -, below⟩ := ha p hp
  obtain ⟨m, hm, above, -⟩ := hb q hq
  have : n = m := Option.some.inj (hn.symm.trans (same.trans hm))
  omega

lemma oneClass_append (ha : SetsWithin lo mid a) (hb : SetsWithin mid hi b) :
    OneClass (a ++ b) ↔ OneClass a ∧ OneClass b := by
  have apart := ha.apart hb
  constructor
  · intro h
    exact ⟨fun p hp q hq => h p (by simp [hp]) q (by simp [hq]),
      fun p hp q hq => h p (by simp [hp]) q (by simp [hq])⟩
  · rintro ⟨h1, h2⟩ p hp q hq same
    rw [setsOf_append, List.mem_append] at hp hq
    rcases hp with hp | hp <;> rcases hq with hq | hq
    · exact h1 p hp q hq same
    · exact absurd same (apart p hp q hq)
    · exact absurd same.symm (apart q hq p hp)
    · exact h2 p hp q hq same

lemma oneClass_again {t : Temp} {c : Cls} {rhs : Rhs} :
    OneClass (a ++ [.instr (.set (.temp t) c rhs)]) ↔
      OneClass a ∧ ∀ d, (t, d) ∈ setsOf a → d = c := by
  constructor
  · intro h
    refine ⟨fun p hp q hq => h p (by simp [hp]) q (by simp [hq]), fun d hd => ?_⟩
    exact h (t, d) (by simp [hd]) (t, c) (by simp [Line.sets?]) rfl
  · rintro ⟨h, again⟩ p hp q hq same
    simp only [setsOf_append, setsOf_cons, setsOf_nil, Line.sets?, Option.toList_some,
      List.append_nil, List.mem_append, List.mem_singleton] at hp hq
    rcases hp with hp | rfl <;> rcases hq with hq | rfl
    · exact h p hp q hq same
    · obtain ⟨t', d⟩ := p
      obtain rfl : t' = t := same
      exact again d hp
    · obtain ⟨t', d⟩ := q
      obtain rfl : t = t' := same
      exact (again d hq).symm
    · rfl

end Ir

namespace Lower

open Ir

variable {source : CType} {k l : Nat}

/-- The step from `e` to `e'` sets only temporaries that it gives out, each with one class exactly
if it is steady. -/
structure Sets (e e' : Emitter) (steady : Bool) : Prop where
  temps : e.temps ≤ e'.temps
  lines : ∃ code, e'.lines.toList = e.lines.toList ++ code ∧ SetsWithin e.temps e'.temps code ∧
    (OneClass code ↔ steady = true)

/-- It also leaves a value in `r`, a temporary that it gave out and, if it is steady, set with the
class `v` or not at all. -/
structure Makes (e e' : Emitter) (steady : Bool) (r : Temp) (v : Option Cls) : Prop where
  given : ∃ n, r = some n ∧ e.temps < n ∧ n ≤ e'.temps
  lines : ∃ code, e'.lines.toList = e.lines.toList ++ code ∧ SetsWithin e.temps e'.temps code ∧
    (OneClass code ↔ steady = true) ∧ (steady = true → ∀ c, (r, c) ∈ setsOf code ↔ v = some c)

variable {e e1 e2 e' : Emitter} {p q : Bool} {r a : Temp} {v w : Option Cls} {c : Cls} {rhs : Rhs}
variable {t : CType}

lemma Makes.sets (h : Makes e e' p r v) : Sets e e' p := by
  obtain ⟨code, hcode, within, one, -⟩ := h.lines
  obtain ⟨n, -, above, below⟩ := h.given
  exact ⟨by omega, code, hcode, within, one⟩

lemma sets_lines (within : SetsWithin e.temps (e.temps + k) ls) (one : OneClass ls) :
    Sets e ((e.count k l).add ls) true :=
  ⟨by simp, ls, by simp, within, by simpa using one⟩

lemma sets_none (k l : Nat) (ls : List Line) (none : setsOf ls = []) :
    Sets e ((e.count k l).add ls) true :=
  sets_lines (by simp [SetsWithin, none]) (by simp [OneClass, none])

lemma sets_add (ls : List Line) (none : setsOf ls = []) : Sets e (e.add ls) true := by
  simpa using sets_none (e := e) 0 0 ls none

lemma sets_count : Sets e (e.count k l) true := by
  simpa using sets_none (e := e) k l [] rfl

lemma Sets.refl : Sets e e true := by simpa using sets_count (e := e) (k := 0) (l := 0)

lemma Sets.seq (h : Sets e e1 p) (k : Sets e1 e2 q) : Sets e e2 (p && q) := by
  obtain ⟨a, ha, wa, oa⟩ := h.lines
  obtain ⟨b, hb, wb, ob⟩ := k.lines
  have h1 := h.temps
  have h2 := k.temps
  refine ⟨h1.trans h2, a ++ b, by rw [hb, ha, List.append_assoc], ?_, ?_⟩
  · exact (wa.mono (Nat.le_refl _) h2).append (wb.mono h1 (Nat.le_refl _))
  · rw [oneClass_append wa wb, oa, ob, Bool.and_eq_true]

/-- A value that is left by a step in the middle is not set by the others. -/
lemma Makes.between {e3 : Emitter} {o : Bool} (h : Sets e e1 p) (k : Makes e1 e2 q r v) (l : Sets e2 e3 o) :
    Makes e e3 (p && q && o) r v := by
  obtain ⟨a, ha, wa, -⟩ := h.lines
  obtain ⟨b, hb, wb, -, made⟩ := k.lines
  obtain ⟨c, hc, wc, -⟩ := l.lines
  obtain ⟨n, rfl, above, below⟩ := k.given
  obtain ⟨whole, hwhole, within, one⟩ := ((h.seq k.sets).seq l).lines
  obtain rfl : whole = a ++ b ++ c := by simpa [ha, hb, hc] using hwhole.symm
  have h1 := h.temps
  have h2 := l.temps
  refine ⟨⟨n, rfl, by omega, by omega⟩, _, hwhole, within, one, fun steady d => ?_⟩
  simp only [Bool.and_eq_true] at steady
  rw [setsOf_append, setsOf_append, List.mem_append, List.mem_append, made steady.1.2]
  constructor
  · rintro ((hd | hd) | hd)
    · obtain ⟨m, hm, -, earlier⟩ := wa _ hd
      cases hm
      omega
    · exact hd
    · obtain ⟨m, hm, later, -⟩ := wc _ hd
      cases hm
      omega
  · exact fun hd => .inl (.inr hd)

lemma Makes.seq (h : Makes e e1 p r v) (k : Sets e1 e2 q) : Makes e e2 (p && q) r v := by
  simpa using Makes.between .refl h k

lemma Sets.makes (h : Sets e e1 p) (k : Makes e1 e2 q r v) : Makes e e2 (p && q) r v := by
  simpa using Makes.between h k .refl

lemma Makes.again (h : Makes e e1 p r v) (c : Cls) (rhs : Rhs) :
    Makes e (e1.add [.instr (.set (.temp r) c rhs)]) (p && v.all (· = c)) r (some c) := by
  obtain ⟨a, ha, wa, oa, made⟩ := h.lines
  obtain ⟨n, rfl, above, below⟩ := h.given
  refine ⟨⟨n, rfl, above, below⟩, a ++ [.instr (.set (.temp (some n)) c rhs)], ?_, ?_, ?_, ?_⟩
  · rw [Emitter.add_lines, ha, List.append_assoc]
  · refine wa.append ?_
    simpa [SetsWithin, Line.sets?] using ⟨above, below⟩
  · rw [oneClass_again, oa, Bool.and_eq_true]
    refine and_congr_right fun steady => ?_
    simp only [made steady]
    cases v <;> simp [eq_comm]
  · intro steady d
    rw [Bool.and_eq_true] at steady
    rw [setsOf_append, List.mem_append, made steady.1]
    cases v with
    | none => simp [Line.sets?, eq_comm]
    | some d' =>
      obtain rfl : d' = c := by simpa using steady.2
      simp [Line.sets?, eq_comm]

lemma Makes.congr (h : Makes e e' p r v) (hpq : p = q) (hvw : p = true → v = w) :
    Makes e e' q r w := by
  subst hpq
  obtain ⟨code, hcode, within, one, made⟩ := h.lines
  exact ⟨h.given, code, hcode, within, one, fun steady => hvw steady ▸ made steady⟩

/-! ## Lines that are known -/

lemma makes_lines (hk : 0 < k) (sets : setsOf ls = [(some (e.temps + k), c)]) :
    Makes e ((e.count k l).add ls) true (some (e.temps + k)) (some c) := by
  refine ⟨⟨_, rfl, by omega, by simp⟩, ls, by simp, ?_, ?_, ?_⟩
  · simp only [SetsWithin, sets, List.mem_singleton, forall_eq, Emitter.add_temps,
      Emitter.count_temps, Option.some.injEq, exists_eq_left']
    omega
  · simp [OneClass, sets]
  · simp [sets, eq_comm]

lemma makes_set (k : Nat) (hk : 0 < k) (c : Cls) (rhs : Rhs) :
    Makes e ((e.count k 0).add [.instr (.set (.temp (some (e.temps + k))) c rhs)]) true
      (some (e.temps + k)) (some c) :=
  makes_lines hk (by simp [Line.sets?])

lemma makes_new (c : Cls) (rhs : Rhs) :
    Makes e ((e.count 1 0).add [.instr (.set (.temp (some (e.temps + 1))) c rhs)]) true
      (some (e.temps + 1)) (some c) :=
  makes_set 1 (by omega) c rhs

lemma makes_none : Makes e (e.count 1 0) true (some (e.temps + 1)) none := by
  refine ⟨⟨_, rfl, by omega, by simp⟩, [], by simp, ?_, ?_, ?_⟩
  · simp [SetsWithin]
  · simp [OneClass]
  · simp

/-! ## Operations -/

@[simp] lemma setsOf_storeLines (size : Int64) (value address : Value) :
    setsOf (storeLines size value address) = [] := by
  unfold storeLines
  cases Width.ofSize? size <;> simp [Line.sets?]

lemma Makes.read (h : Makes e e1 p r none) (hc : s.type.cls = .ok c) :
    Makes e (e1.add (readLines r s c)) p r s.readClass := by
  unfold readLines Symbol.readClass loadLines
  by_cases hm : s.inMemory = true
  · simp only [hm, if_true]
    cases hk : Load.ofSize? s.size with
    | none => simpa using h
    | some k => simpa using h.again _ _
  · simp only [hm]
    simpa [hc, Except.toOption] using h.again _ _

lemma stepLines_sets (s : Symbol) (c : Cls) (step : Int64) :
    Sets e ((e.count (stepTemps s) 0).add (stepLines s c step (e.temps + 1))) true := by
  unfold stepTemps stepLines bumpLines loadLines
  by_cases hm : s.inMemory = true
  · simp only [hm, if_true]
    cases Load.ofSize? s.size with
    | none => exact sets_none _ _ _ (by simp)
    | some k => exact sets_lines (by simp [SetsWithin, Line.sets?]) (by simp [OneClass, Line.sets?])
  · simp only [hm]
    exact sets_none _ _ _ (by simp [Line.sets?])

lemma loadVar_makes {ss : Symbols} {op : Op} (h : loadVar ss s op e = .ok r e') :
    Makes e e' true r s.readClass := by
  obtain ⟨c, step, hc, -, rfl, rfl⟩ := loadVar_eq_ok h
  have read := (makes_none (e := e)).read hc
  unfold varTemps varLines
  by_cases pre : op = .preInc ∨ op = .preDec
  · have stepped := (makes_none (e := e)).seq (stepLines_sets s c step)
    simpa [pre, Bool.or_eq_true] using stepped.read hc
  · by_cases post : op = .postInc ∨ op = .postDec
    · simpa [pre, post] using read.seq (stepLines_sets s c step)
    · simpa [pre, post] using read

lemma cls_of_scalarSize {k : Load} (h : t.scalarSize = .ok size) (hk : Load.ofSize? size = some (c, k)) :
    t.cls = .ok c := by
  unfold CType.scalarSize at h
  unfold CType.cls
  by_cases hp : t.isPointer = true
  · rw [if_pos hp] at h ⊢
    obtain rfl := Except.ok.inj h
    cases hk
    rfl
  · rw [if_neg hp] at h ⊢
    cases hb : t.base <;> simp only [hb] at h ⊢ <;> cases h <;> cases hk <;> rfl

lemma loadThrough_makes (h : loadThrough a t e = .ok r e') :
    Makes e e' true r t.pointee.cls.toOption := by
  obtain ⟨u, size, c, k, hu, hs, hk, rfl, rfl⟩ := loadThrough_eq_ok h
  have hc := cls_of_scalarSize hs hk
  refine (makes_new _ _).congr rfl fun _ => ?_
  rw [CType.pointee, hu]
  simp [hc, Except.toOption]

lemma call_makes {f : Symbol} {args : List (Temp × CType)} (h : call f args e = .ok r e') :
    Makes e e' true r (if f.type = .void then none else f.type.cls.toOption) := by
  obtain ⟨c, cs, hc, -, rfl, rfl⟩ := call_eq_ok h
  unfold callLine
  by_cases hv : f.type = .void
  · simpa [hv] using (makes_none (e := e)).seq (sets_add [.instr (.call f.name cs)] rfl)
  · simp only [hv, if_false, hc]
    exact makes_new _ _

lemma Makes.widen {target : CType} (h : Makes e e1 p a v) (h1 : Lower.widen a source target e1 = .ok r e') :
    Makes e e' p r (if source.isWide then v else target.cls.toOption) := by
  rcases widen_eq_ok h1 with ⟨wide, rfl, rfl⟩ | ⟨narrow, c, d, -, hd, rfl, rfl⟩
  · simpa [wide] using h
  · simpa [narrow, hd, Except.toOption] using h.sets.makes (makes_new _ _)

lemma Makes.inType {target : CType} (h : Makes e e1 p a v) (h1 : Lower.inType a source target e1 = .ok r e') :
    Makes e e' p r (Tree.convertedClass v source target) := by
  unfold Tree.convertedClass
  rcases inType_eq_ok h1 with ⟨same, rfl, rfl⟩ | ⟨differ, h1⟩
  · simpa [same] using h
  · simpa [differ] using h.widen h1

lemma Makes.cast {target : CType} (h : Makes e e1 p a v) (h1 : Lower.cast a source target e1 = .ok r e') :
    Makes e e' p r (if source.castsFreely target then v else target.cls.toOption) := by
  rcases cast_eq_ok h1 with ⟨free, rfl, rfl⟩ | ⟨not, k, c, rhs, hc, hk, -, rfl, rfl⟩
  · simpa [free] using h.seq sets_count
  · have new := makes_set (e := e1) k (by omega) c rhs
    simpa [not, hc, Except.toOption] using h.sets.makes new

lemma Makes.shiftLeft {k : Int64} (h : Makes e e1 p a v) (h1 : Lower.shiftLeft a k t e1 = .ok r e') :
    Makes e e' p r (some .long) := by
  obtain ⟨rfl, lines, rfl, rfl | rfl⟩ := shiftLeft_eq_ok h1
  · have wide : Makes e1 _ true _ _ := makes_new (e := e1) .long (.extend (.signed .word) a)
    have outcome := wide.sets.makes (makes_new .long (.arith .shl (.temp (some (e1.temps + 1))) (.int k)))
    simpa using h.sets.makes outcome
  · have outcome := makes_set (e := e1) 2 (by omega) .long (.arith .shl (.temp a) (.int k))
    simpa using h.sets.makes outcome

lemma isWide_iff (h : t.scalarSize = .ok size) : t.isWide = true ↔ ¬ size < 8 := by
  unfold CType.scalarSize at h
  unfold CType.isWide
  by_cases hp : t.isPointer = true
  · rw [if_pos hp] at h
    obtain rfl := Except.ok.inj h
    simp [hp]
  · rw [if_neg hp] at h
    have depth : t.depth = 0 := by simpa [CType.isPointer] using hp
    obtain ⟨base, d⟩ := t
    obtain rfl : d = 0 := depth
    cases base <;> simp only at h <;> cases h <;> decide

lemma Makes.timesConstant {k : Int64} (h : Makes e e1 p a v)
    (h1 : Lower.timesConstant a k t e1 = .ok r e') :
    Makes e e' (p && (!t.isWide || CType.long.agrees v)) r (some .long) := by
  obtain ⟨size, hsize, ⟨narrow, rfl, rfl⟩ | ⟨wide, rfl, rfl⟩⟩ := timesConstant_eq_ok h1
  · have no : t.isWide = false := by
      rw [← Bool.not_eq_true, isWide_iff hsize]
      exact not_not.mpr narrow
    have made : Makes e1 _ true _ _ := makes_new (e := e1) .long (.extend (.signed .word) a)
    have factor := (made.seq (makes_new .long (.copy (.int k))).sets).again .long (.arith .mul (.temp (some (e1.temps + 1))) (.temp (some (e1.temps + 2))))
    simpa [no] using h.sets.makes factor
  · have yes := (isWide_iff hsize).mpr wide
    have factor := (h.seq (makes_new .long (.copy (.int k))).sets).again .long (.arith .mul (.temp r) (.temp (some (e1.temps + 1))))
    refine (by simpa using factor : Makes e _ _ _ _).congr ?_ fun _ => rfl
    have long : CType.long.cls.toOption = some .long := rfl
    simp [yes, CType.agrees, long, eq_comm]

lemma truthLines_makes (op : Op) (x : Temp) (c : Cls) (l : Int) :
    Makes e ((e.count 1 1).add (Tree.truthLines op x c l e)) true (some (e.temps + 1)) (some .long) := by
  refine makes_lines (by omega) ?_
  unfold Tree.truthLines decision
  split <;> simp [Line.sets?]

lemma unlessLines_sets (x : Temp) (l : Int) :
    Sets e ((e.count 2 1).add (Tree.unlessLines x l e)) true := by
  refine sets_lines ?_ ?_
  · simp [SetsWithin, Tree.unlessLines, Line.sets?]
  · simp [OneClass, Tree.unlessLines, Line.sets?]

lemma armTest_sets {next here : Int} {value : Option Int64} (h : armTest r t next here value e = .ok u e') :
    Sets e e' true := by
  cases value with
  | none =>
    obtain ⟨-, rfl⟩ := pure_eq_ok.mp h
    exact .refl
  | some v =>
    obtain ⟨c, -, rfl⟩ := Tree.armTest_eq_ok h
    refine sets_lines ?_ ?_
    · simp [SetsWithin, Tree.unequalLines, Line.sets?]
    · simp [OneClass, Tree.unequalLines, Line.sets?]

end Lower

namespace Tree

open Lower Ir

variable {ss : Symbols} {scope : Scope} {i : Info} {op : Op} {a b c : Tree} {arms : List (ArmHead × Tree)}
variable {ctx : Context} {e' e : Emitter} {s : SymId} {t : Tree}

lemma agrees_eq {t : CType} {k : Cls} (h : t.cls = .ok k) (v : Option Cls) :
    t.agrees v = v.all (· = k) := by
  unfold CType.agrees
  rw [h]
  cases v <;> simp [Except.toOption, eq_comm]

def Classed (ss : Symbols) (t : Tree) : Prop :=
  ∀ {ctx : Context} {e e' : Emitter} {r : Temp}, t.lower ss ctx e = .ok r e' → t.Valued →
    Makes e e' (t.steady ss) r (t.valueClass ss)

lemma intLit_classed {v : Int64} : Classed ss (.intLit i v) := by
  intro ctx e e' r h _
  obtain ⟨c, hc, rfl, rfl⟩ := loadInt_eq_ok.mp h
  simpa [hc, Except.toOption] using makes_new (e := e) _ _

lemma strLit_classed {l : Int} : Classed ss (.strLit i l) := by
  intro ctx e e' r h _
  obtain ⟨rfl, rfl⟩ := loadString_eq_ok.mp h
  simpa using makes_new (e := e) _ _

lemma ident_classed : Classed ss (.ident i s) := by
  intro ctx e e' r h valued
  rw [Tree.lower, valued i s rfl, Bool.true_or, if_pos rfl] at h
  simpa using loadVar_makes h

lemma addrOf_classed : Classed ss (.addrOf i (some s) a) := by
  intro ctx e e' r h _
  obtain ⟨rfl, rfl⟩ := address_eq_ok.mp h
  simpa using makes_new (e := e) _ _

section
variable (la : a.Loaded) (ha : Classed ss a)
include la ha

lemma base_classed : Classed ss (.addrOf i none a) := by
  intro ctx e e' r h _
  simpa using ha h la.valued

lemma deref_classed : Classed ss (.deref i a) := by
  intro ctx e e' r h _
  obtain ⟨x, e1, h1, h⟩ := bind_eq_ok.mp h
  have m := ha h1 la.valued
  by_cases hr : i.rvalue = true
  · rw [if_pos hr] at h
    simpa [hr] using m.sets.makes (loadThrough_makes h)
  · rw [if_neg hr] at h
    obtain ⟨rfl, rfl⟩ := pure_eq_ok.mp h
    simpa [hr] using m

lemma binary_classed (lb : b.Loaded) (hb : Classed ss b) : Classed ss (.binary i op a b) := by
  intro ctx e e' r h _
  obtain ⟨x, e1, y, e2, h1, h2, ⟨rel, c, hrel, hc, rfl, rfl⟩ | ⟨f, c, hrel, -, hc, rfl, rfl⟩⟩ :=
    lower_binary h
  · have m := ((ha h1 la.valued).sets.seq (hb h2 lb.valued).sets).makes (makes_new c (.compare rel c (.temp x) (.temp y)))
    simpa [hrel, hc, Except.toOption] using m
  · have m := ((ha h1 la.valued).seq (hb h2 lb.valued).sets).again c (.arith f (.temp r) (.temp y))
    simpa [hrel, hc, agrees_eq hc, Except.toOption] using m

lemma logical_classed (lb : b.Loaded) (hb : Classed ss b) : Classed ss (.logical i op a b) := by
  intro ctx e e' r h _
  obtain ⟨x, e1, c, y, e2, d, h1, hc, h2, hd, rfl, rfl⟩ := lower_logical h
  have left := sets_count.seq
    ((ha h1 la.valued).sets.seq (truthLines_makes op x c (e.labels + 1)).sets)
  have right := (hb h2 lb.valued).seq (truthLines_makes op r d (e.labels + 1)).sets
  -- The temporary of the right operand is set once more on each of the two ways.
  have once := (right.again d (.copy (.int (if op = .logOr then 0 else 1)))).seq
    (sets_add [.instr (.jump (e.labels + 2)), .label (e.labels + 1)] rfl)
  have twice := (once.again d (.copy (.int (if op = .logOr then 1 else 0)))).seq
    (sets_add [.label (e.labels + 2)] rfl)
  refine (by simpa [meetLines] using left.makes twice : Makes e _ _ _ _).congr ?_ fun _ => ?_
  · simp [agrees_eq hd, Bool.and_assoc]
  · simp [hd, Except.toOption]

end

lemma assign_classed (location : a.isLvalue) (ha : Classed ss a) (lb : b.Loaded)
    (hb : Classed ss b) : Classed ss (.assign i a b) := by
  intro ctx e e' r h _
  obtain ⟨e1, h1, ⟨j, s, c, rfl, -, rfl⟩ | ⟨j, p, y, e2, size, rfl, h2, -, rfl⟩⟩ :=
    lower_assign location h
  · have store : setsOf [.instr (storeInstr (ss.get s) c r)] = [] := by
      unfold storeInstr
      split_ifs <;> rfl
    simpa using (hb h1 lb.valued).seq (sets_add _ store)
  · have m := ((hb h1 lb.valued).seq (ha h2 (.of_not_ident nofun)).sets).seq
      (sets_add _ (setsOf_storeLines size (.temp r) (.temp y)))
    simpa [Bool.and_comm] using m

lemma compound_classed (location : a.isLvalue) (ha : Locates (Classed ss) a) (lb : b.Loaded)
    (hb : Classed ss b) : Classed ss (.compound i op a b) := by
  intro ctx e e' r h _
  cases a with
  | ident j s =>
    obtain ⟨x, e1, e2, y, e3, f, c, d, h1, h2, h3, -, hc, -, rfl⟩ := lower_compound_ident h
    have store : setsOf [.instr (storeInstr (ss.get s) d r)] = [] := by
      unfold storeInstr
      split_ifs <;> rfl
    have m := ((((loadVar_makes h1).inType h2).seq (hb h3 lb.valued).sets).again c (.arith f (.temp r) (.temp y))).seq (sets_add _ store)
    refine (by simpa using m : Makes e _ _ _ _).congr ?_ fun _ => ?_
    · simp [agrees_eq hc, Tree.type, info]
    · simp [hc, Except.toOption]
  | deref j p =>
    obtain ⟨hp, lp⟩ := ha j p rfl
    obtain ⟨z, e1, t, x, e2, e3, y, e4, f, c, size, h1, ht, h2, h3, h4, -, hc, -, rfl⟩ :=
      lower_compound_deref h
    have loaded := ((hp h1 lp.valued).sets.makes (loadThrough_makes h2)).inType h3
    have m := ((loaded.seq (hb h4 lb.valued).sets).again c (.arith f (.temp r) (.temp y))).seq
      (sets_add _ (setsOf_storeLines size (.temp r) (.temp z)))
    refine (by simpa using m : Makes e _ _ _ _).congr ?_ fun _ => ?_
    · simp [agrees_eq hc, Tree.type, info, (CType.of_pointerTo ht).2]
    · simp [hc, Except.toOption]
  | _ => cases location

lemma step_classed (location : a.isLvalue) (ha : Locates (Classed ss) a) :
    Classed ss (.step i op a) := by
  intro ctx e e' r h _
  cases a with
  | ident j s => simpa using loadVar_makes h
  | deref j p =>
    obtain ⟨hp, lp⟩ := ha j p rfl
    obtain ⟨z, e1, t, x, e2, step, c, size, h1, ht, h2, -, hc, -, rfl, rfl⟩ := lower_step_deref h
    have old := (hp h1 lp.valued).sets.makes (loadThrough_makes h2)
    have new := makes_new (e := e2) c (.arith .add (.temp x) (.int step))
    have store := sets_add (e := (e2.count 1 0).add
      [.instr (.set (.temp (some (e2.temps + 1))) c (.arith .add (.temp x) (.int step)))])
      _ (setsOf_storeLines size (.temp (some (e2.temps + 1))) (.temp z))
    have same : j.type.cls.toOption = some c := by simp [hc, Except.toOption]
    simp only [steady, valueClass, loadClass]
    split
    · simpa [same] using (old.sets.makes new).seq store
    · simpa [(CType.of_pointerTo ht).2] using (old.seq new.sets).seq store
  | _ => cases location

section
variable {n : Int64} (la : a.Loaded) (ha : Classed ss a)
include la ha

lemma widen_classed : Classed ss (.widen i a) := by
  intro ctx e e' r h _
  obtain ⟨x, e1, h1, h⟩ := bind_eq_ok.mp h
  simpa using (ha h1 la.valued).widen h

lemma cast_classed : Classed ss (.cast i a) := by
  intro ctx e e' r h _
  obtain ⟨x, e1, h1, h⟩ := bind_eq_ok.mp h
  simpa using (ha h1 la.valued).cast h

lemma scale_classed : Classed ss (.scale i a n) := by
  intro ctx e e' r h _
  obtain ⟨x, e1, h1, h⟩ := bind_eq_ok.mp h
  have m := ha h1 la.valued
  cases hs : shiftOf? n with
  | some k =>
    rw [hs] at h
    simpa [hs] using m.shiftLeft h
  | none =>
    rw [hs] at h
    simpa [hs] using m.timesConstant h

lemma unary_classed : Classed ss (.unary i op a) := by
  intro ctx e e' r h _
  obtain ⟨x, e1, h1, h⟩ := bind_eq_ok.mp h
  obtain ⟨c, rhs, hc, -, rfl, rfl⟩ := unary_eq_ok.mp h
  have m := (ha h1 la.valued).again c (rhs)
  simpa [hc, agrees_eq hc, Except.toOption] using m

lemma toBool_classed : Classed ss (.toBool i a) := by
  intro ctx e e' r h _
  obtain ⟨x, e1, c, h1, hc, rfl, rfl⟩ := lower_toBool h
  simpa using (ha h1 la.valued).sets.makes (truthLines_makes ctx.parent x c ctx.ifLabel)

end

lemma ternary_classed (vc : c.Valued) (hc : Classed ss c) (la : a.Loaded) (ha : Classed ss a)
    (lb : b.Loaded) (hb : Classed ss b) : Classed ss (.ternary i c a b) := by
  intro ctx e e' r h _
  obtain ⟨x, e1, y, e2, d, z, e3, f, h1, h2, hd, h3, hf, rfl, rfl⟩ := lower_ternary h
  have cond := (sets_count.seq (hc h1 vc).sets).seq (unlessLines_sets x (e.labels + 1))
  -- The temporary of the outcome is set on each of the two ways.
  have outcome : Makes ((e1.count 2 1).add (unlessLines x (e.labels + 1) e1)) _ true
    (some (e1.temps + 3)) none := makes_none
  simp only [Emitter.count_add, Emitter.count_count] at outcome
  have yes := ((outcome.seq (ha h2 la.valued).sets).again d (.copy (.temp y))).seq
    (sets_add [.instr (.jump (e.labels + 2)), .label (e.labels + 1)] rfl)
  simp only [Emitter.add_add, List.singleton_append] at yes
  have no := ((yes.seq (hb h3 lb.valued).sets).again f (.copy (.temp z))).seq
    (sets_add [.label (e.labels + 2)] rfl)
  refine (by simpa using cond.makes no : Makes e _ _ _ _).congr ?_ fun _ => ?_
  · simp [agrees_eq hf, hd, Except.toOption, Bool.and_assoc]
  · simp [hf, Except.toOption]

lemma lowerArgs_sets (hargs : ∀ a ∈ args, Classed ss a) (largs : ∀ a ∈ args, a.Loaded)
    {rs : List (Temp × CType)} (h : lowerArgs ss ctx args e = .ok rs e') : Sets e e' (steadyAll ss args) := by
  induction args generalizing e' rs with
  | nil =>
    obtain ⟨-, rfl⟩ := pure_eq_ok.mp h
    simpa using Sets.refl
  | cons a args ih =>
    obtain ⟨rest, e1, h1, h⟩ := bind_eq_ok.mp h
    simp only [bind_eq_ok] at h
    obtain ⟨x, e2, h2, h⟩ := h
    obtain ⟨-, rfl⟩ := pure_eq_ok.mp h
    have before := ih (fun b hb => hargs b (.tail a hb)) (fun b hb => largs b (.tail a hb)) h1
    have here := (hargs a (.head args) h2 (largs a (.head args)).valued).sets
    simpa [Bool.and_comm] using before.seq here

lemma call_classed (hargs : ∀ a ∈ args, Classed ss a) (largs : ∀ a ∈ args, a.Loaded) :
    Classed ss (.call i s args) := by
  intro ctx e e' r h _
  obtain ⟨rs, e1, h1, h⟩ := bind_eq_ok.mp h
  simpa using (lowerArgs_sets hargs largs h1).makes (call_makes h)

theorem IsExpression.classed (ht : IsExpression ss scope t) : Classed ss t :=
  ht.located (P := Classed ss) intLit_classed strLit_classed (fun _ _ => ident_classed)
    (fun _ _ _ => addrOf_classed) base_classed deref_classed binary_classed logical_classed
    assign_classed (fun la _ => compound_classed la) widen_classed scale_classed cast_classed
    (fun la ha _ => unary_classed la ha) (fun la _ => step_classed la)
    (fun compares => ternary_classed (.of_isComparison compares))
    (fun lc hc => ternary_classed (.of_not_ident nofun) (toBool_classed lc hc)) call_classed

lemma IsCondition.classed (ht : IsCondition ss scope t) : Classed ss t ∧ t.Valued := by
  rcases ht with ⟨he, compares⟩ | ⟨j, a, rfl, ha, la⟩
  · exact ⟨he.classed, .of_isComparison compares⟩
  · exact ⟨toBool_classed la ha.classed, .of_not_ident nofun⟩

/-! ## Statements -/

def SetsSteadily (ss : Symbols) (t : Tree) : Prop :=
  ∀ {ctx : Context} {e e' : Emitter} {r : Temp}, t.lower ss ctx e = .ok r e' →
    Sets e e' (t.steady ss)

lemma empty_sets : SetsSteadily ss .empty := by
  intro ctx e e' r h
  obtain ⟨-, rfl⟩ := pure_eq_ok.mp h
  exact .refl

lemma lowerAll_sets (hts : ∀ t ∈ ts, SetsSteadily ss t) (h : lowerAll ss ctx ts e = .ok u e') :
    Sets e e' (steadyAll ss ts) := by
  induction ts generalizing e with
  | nil =>
    obtain ⟨-, rfl⟩ := pure_eq_ok.mp h
    simpa using Sets.refl
  | cons t ts ih =>
    obtain ⟨x, e1, h1, h⟩ := bind_eq_ok.mp h
    have rest := ih (fun u hu => hts u (.tail t hu)) h
    simpa using (hts t (.head ts) h1).seq rest

lemma block_sets (hts : ∀ t ∈ ts, SetsSteadily ss t) : SetsSteadily ss (.block i ts) := by
  intro ctx e e' r h
  obtain ⟨_, e1, h1, h⟩ := bind_eq_ok.mp h
  obtain ⟨-, rfl⟩ := pure_eq_ok.mp h
  simpa using lowerAll_sets hts h1

lemma branch_sets (vc : c.Valued) (hc : Classed ss c) (ha : SetsSteadily ss a)
    (hb : SetsSteadily ss b) : SetsSteadily ss (.branch i c a b) := by
  intro ctx e e' r h
  cases hempty : b.isEmpty with
  | true =>
    obtain rfl := eq_empty_of_isEmpty hempty
    obtain ⟨x, e1, y, e2, h1, h2, rfl⟩ := lower_branch_one h
    have cond := (sets_count.seq (hc h1 vc).sets).seq (unlessLines_sets x (e.labels + 1))
    have w := (cond.seq (ha h2)).seq (sets_add [.label (e.labels + 1)] rfl)
    simpa using w
  | false =>
    obtain ⟨x, e1, y, e2, z, e3, h1, h2, h3, rfl⟩ := lower_branch_two hempty h
    have cond := (sets_count.seq (hc h1 vc).sets).seq (unlessLines_sets x (e.labels + 1))
    have yes := (cond.seq (ha h2)).seq (sets_none 0 1 [.label (e2.labels + 1),
      .instr (.jump (e.labels + 2)), .label (e.labels + 1)] rfl)
    have w := (yes.seq (hb h3)).seq (sets_add [.label (e.labels + 2)] rfl)
    simpa using w

lemma loop_sets (vc : c.Valued) (hc : Classed ss c) (ha : SetsSteadily ss a) :
    SetsSteadily ss (.loop i c a) := by
  intro ctx e e' r h
  obtain ⟨x, e1, y, e2, h1, h2, rfl⟩ := lower_loop h
  have cond := ((sets_none 0 2 [.label (e.labels + 1)] rfl).seq (hc h1 vc).sets).seq
    (unlessLines_sets x (e.labels + 2))
  have w := (cond.seq (ha h2)).seq
    (sets_add [.instr (.jump (e.labels + 1)), .label (e.labels + 2)] rfl)
  simpa using w

lemma result_sets (ha : SetsSteadily ss a) : SetsSteadily ss (.result i a) := by
  intro ctx e e' r h
  obtain ⟨x, e1, h1, h⟩ := bind_eq_ok.mp h
  obtain ⟨_, e2, h2, h⟩ := bind_eq_ok.mp h
  obtain ⟨-, rfl⟩ := pure_eq_ok.mp h
  rcases leave_eq_ok h2 with ⟨-, rfl⟩ | ⟨n, c, -, -, rfl⟩
  · simpa using (ha h1).seq (sets_add [.instr (.jump ctx.function.endLabel)] rfl)
  · simpa using (ha h1).seq (sets_add [.instr (.set .result c (.copy (.temp x))),
      .instr (.jump ctx.function.endLabel)] rfl)

lemma lowerArms_sets (harms : ∀ arm ∈ arms, SetsSteadily ss arm.2) {r : Temp} {t : CType} {tests : List Int}
    {code k : Option Int} (h : lowerArms ss ctx r t arms tests code e = .ok k e') :
    Sets e e' (steadyArms ss arms) := by
  induction arms generalizing tests code e with
  | nil =>
    obtain ⟨-, rfl⟩ := pure_eq_ok.mp h
    simpa using Sets.refl
  | cons arm arms ih =>
    obtain ⟨head, body⟩ := arm
    obtain ⟨here, e1, e2, h1, h2, rest⟩ := lowerArms_cons h
    have harms' : ∀ arm ∈ arms, SetsSteadily ss arm.2 := fun arm harm => harms arm (.tail _ harm)
    have s1 : Sets e e1 true := by
      rcases orNewLabel_eq_ok h1 with ⟨-, rfl⟩ | ⟨-, -, rfl⟩
      · exact .refl
      · exact sets_count
    have test := (s1.seq (sets_add _ rfl)).seq (armTest_sets h2)
    rcases rest with ⟨rfl, h3⟩ | ⟨-, x, e3, h3, h4⟩
    · simpa using test.seq (ih harms' h3)
    · have body := (test.seq (sets_add [.label here] rfl)).seq (harms _ (.head _) h3)
      simpa using body.seq (ih harms' h4)

lemma switch_sets (la : a.Loaded) (ha : Classed ss a) (harms : ∀ arm ∈ arms, SetsSteadily ss arm.2) :
    SetsSteadily ss (.switch i a arms) := by
  intro ctx e e' r h
  obtain ⟨last, tests, x, e1, code, e2, e3, -, -, -, -, h1, h2, h3, rfl⟩ := lower_switch h
  obtain rfl := forM_label_eq_ok h3
  have value := sets_count.seq (ha h1 la.valued).sets
  have ends := sets_add (e := e2) (code.toList.map .label ++ [.label last]) (by cases code <;> rfl)
  rw [Emitter.add_add]
  simpa using (value.seq (lowerArms_sets harms h2)).seq ends

theorem IsStatement.setsSteadily (ht : IsStatement ss scope t) : SetsSteadily ss t := by
  induction ht with
  | empty => exact empty_sets
  | expression ht lt => exact fun h => (ht.classed h lt.valued).sets
  | block _ ih => exact block_sets ih
  | branch hc _ _ iha ihb => exact branch_sets hc.classed.2 hc.classed.1 iha ihb
  | loop hc _ iha => exact loop_sets hc.classed.2 hc.classed.1 iha
  | switch ha la _ _ _ ih => exact switch_sets la ha.classed ih
  | leave => exact result_sets empty_sets
  | result ha la _ => exact result_sets fun h => (ha.classed h la.valued).sets
  | breakOut | continueOn =>
    intro ctx e e' r h
    obtain ⟨_, e1, h1, h⟩ := bind_eq_ok.mp h
    obtain rfl := jump_eq_ok.mp h1
    obtain ⟨-, rfl⟩ := pure_eq_ok.mp h
    exact sets_add _ rfl

end Tree
end SmallC
