import SmallC.Proofs.Lowering.Guarded
import SmallC.Proofs.Tree.Classes

/-!
# Temporaries of code are set before they are read

The code of an expression reads only temporaries that it has set, and it has set that of its value at
its end, on every way through it. The code of a statement sets nothing that others rely on: at its end,
and wherever it jumps to, what was set before it still is.
-/

namespace SmallC

open Set

namespace Tree

open Lower Ir

variable {L l last : Int} {ctx : Context} {ts : List Tree} {code : Option Int} {e1 : Emitter}
variable {arms : List (ArmHead × Tree)}
variable {ss : Symbols} {scope : Scope} {i : Info} {op : Op} {a b c : Tree}
variable {e e' : Emitter} {args : List Tree} {s : SymId} {t : Tree} {r : Temp} {u : Unit}

def Supplies (ss : Symbols) (t : Tree) : Prop :=
  ∀ {ctx : Context} {e e' : Emitter} {r : Temp}, t.lower ss ctx e = .ok r e' → t.Valued →
    Yields e e' (t.audible ss) r

lemma intLit_supplies {v : Int64} : Supplies ss (.intLit i v) := by
  intro ctx e e' r h _
  obtain ⟨c, -, rfl, rfl⟩ := loadInt_eq_ok.mp h
  exact yields_new rfl

lemma strLit_supplies : Supplies ss (.strLit i l) := by
  intro ctx e e' r h _
  obtain ⟨rfl, rfl⟩ := loadString_eq_ok.mp h
  exact yields_new rfl

lemma ident_supplies : Supplies ss (.ident i s) := by
  intro ctx e e' r h valued
  rw [Tree.lower, valued i s rfl, Bool.true_or, if_pos rfl] at h
  simpa using loadVar_yields h

lemma addrOf_supplies : Supplies ss (.addrOf i (some s) a) := by
  intro ctx e e' r h _
  obtain ⟨rfl, rfl⟩ := address_eq_ok.mp h
  exact yields_new rfl

section
variable {n : Int64} (la : a.Loaded) (ha : Supplies ss a)
include la ha

lemma base_supplies : Supplies ss (.addrOf i none a) := by
  intro ctx e e' r h _
  simpa using ha h la.valued

lemma deref_supplies : Supplies ss (.deref i a) := by
  intro ctx e e' r h _
  obtain ⟨x, e1, h1, h⟩ := bind_eq_ok.mp h
  by_cases hr : i.rvalue = true
  · rw [if_pos hr] at h
    refine Yields.carry (by simpa using ha h1 la.valued) ?_
    rintro m rfl
    exact loadThrough_carries h
  · rw [if_neg hr] at h
    obtain ⟨rfl, rfl⟩ := pure_eq_ok.mp h
    simpa using ha h1 la.valued

lemma widen_supplies : Supplies ss (.widen i a) := by
  intro ctx e e' r h _
  obtain ⟨x, e1, h1, h⟩ := bind_eq_ok.mp h
  refine Yields.carry (by simpa using ha h1 la.valued) ?_
  rintro m rfl
  exact widen_carries h

lemma cast_supplies : Supplies ss (.cast i a) := by
  intro ctx e e' r h _
  obtain ⟨x, e1, h1, h⟩ := bind_eq_ok.mp h
  refine Yields.carry (by simpa using ha h1 la.valued) ?_
  rintro m rfl
  exact cast_carries h

lemma scale_supplies : Supplies ss (.scale i a n) := by
  intro ctx e e' r h _
  obtain ⟨x, e1, h1, h⟩ := bind_eq_ok.mp h
  refine Yields.carry (by simpa using ha h1 la.valued) ?_
  rintro m rfl
  cases hs : shiftOf? n with
  | some k =>
    rw [hs] at h
    exact shiftLeft_carries h
  | none =>
    rw [hs] at h
    exact timesConstant_carries h

lemma unary_supplies : Supplies ss (.unary i op a) := by
  intro ctx e e' r h _
  obtain ⟨x, e1, h1, h⟩ := bind_eq_ok.mp h
  refine Yields.carry (by simpa using ha h1 la.valued) ?_
  rintro m rfl
  obtain ⟨c, rhs, -, hrhs, rfl, rfl⟩ := unary_eq_ok.mp h
  refine carries_again ?_
  unfold unaryRhs at hrhs
  split at hrhs <;> cases hrhs <;> simp

lemma binary_supplies (lb : b.Loaded) (hb : Supplies ss b) : Supplies ss (.binary i op a b) := by
  intro ctx e e' r h _
  obtain ⟨x, e1, y, e2, h1, h2, ⟨rel, c, -, -, rfl, rfl⟩ | ⟨f, c, -, -, -, rfl, rfl⟩⟩ :=
    lower_binary h
  · simpa using (ha h1 la.valued).compare (hb h2 lb.valued) rel c
  · simpa using (ha h1 la.valued).arith (hb h2 lb.valued) c f

lemma logical_supplies (lb : b.Loaded) (hb : Supplies ss b) : Supplies ss (.logical i op a b) := by
  intro ctx e e' r h _
  obtain ⟨x, e1, c, y, e2, d, h1, -, h2, -, rfl, rfl⟩ := lower_logical h
  obtain ⟨m, rfl, left⟩ := ha h1 la.valued
  obtain ⟨n, rfl, right⟩ := hb h2 lb.valued
  refine ⟨n, rfl, fun ann A there => ?_⟩
  -- Who comes by the shortcut has nothing new, and at the end the value is set.
  refine Guards.scope (L := e.labels + 2) (k := 2) (S := A) (T := insert n A) ?_
  have s1 : Guards (e.labels + 2) (annotateTwo ann e.labels A (insert n A)) (e.count 0 2) e1 A _ :=
    .of (by simp) fun ann1 => left ann1 A there.left
  have s2 := (s1.seq (.truth s1.later op c (mem_insert m A) (l := e.labels + 1) (by omega)
    (by simp))).mono (C := A) ((subset_insert m A).trans (subset_insert _ _))
  have s3 := s2.seq (.of s2.later fun ann1 => right ann1 A there.right)
  have s4 := (s3.seq (.truth s3.later op d (mem_insert n A) (l := e.labels + 1) (by omega)
    (by simp))).mono (subset_insert _ _)
  rw [← Emitter.add_add]
  refine s4.seq (.add _ s4.later ?_ ?_ ?_)
  · intro l
    simp [meetLines]
    omega
  · simp [meetLines]
  · simp [meetLines]

end

lemma assign_supplies (location : a.isLvalue) (ha : Supplies ss a) (lb : b.Loaded)
    (hb : Supplies ss b) : Supplies ss (.assign i a b) := by
  intro ctx e e' r h _
  obtain ⟨e1, h1, ⟨j, s, c, rfl, -, rfl⟩ | ⟨j, p, y, e2, size, rfl, h2, -, rfl⟩⟩ :=
    lower_assign location h
  · obtain ⟨n, rfl, value⟩ := hb h1 lb.valued
    refine ⟨n, rfl, fun ann A there => ?_⟩
    exact (value ann A (by simpa using there)).seq fun _ _ => guarded_storeVar (by simp)
  · obtain ⟨n, rfl, value⟩ := hb h1 lb.valued
    obtain ⟨m, rfl, address⟩ := ha h2 (.of_not_ident nofun)
    refine ⟨n, rfl, fun ann A there => ?_⟩
    have there : Granted ((deref j p).audible ss && b.audible ss) A := by simpa using there
    refine (((value ann A there.right).seq fun ann1 _ =>
      address ann1 _ (there.left.insert n)).seq fun _ _ => guarded_store size _ _ ?_).mono
      (subset_insert m _)
    simp

lemma compound_supplies (location : a.isLvalue) (ha : Locates (Supplies ss) a) (lb : b.Loaded)
    (hb : Supplies ss b) : Supplies ss (.compound i op a b) := by
  intro ctx e e' r h _
  cases a with
  | ident j s =>
    obtain ⟨x, e1, e2, y, e3, f, c, d, h1, h2, h3, -, -, -, rfl⟩ := lower_compound_ident h
    have loaded : Yields e e2 (!(ss.get s).silent) r := by
      refine (loadVar_yields h1).carry ?_
      rintro m rfl
      exact inType_carries h2
    obtain ⟨n, rfl, done⟩ := loaded.arith (hb h3 lb.valued) c f
    refine ⟨n, rfl, fun ann A there => ?_⟩
    have stored := (done ann A (by simpa using there)).seq fun _ _ =>
      guarded_storeVar (s := ss.get s) (c := d) (a := some n) (by simp)
    simpa using stored
  | deref j p =>
    obtain ⟨hp, lp⟩ := ha j p rfl
    obtain ⟨z, e1, t, x, e2, e3, y, e4, f, c, size, h1, -, h2, h3, h4, -, -, -, rfl⟩ :=
      lower_compound_deref h
    obtain ⟨m, rfl, address⟩ := hp h1 lp.valued
    obtain ⟨x, rfl, load⟩ := loadThrough_carries h2
    obtain ⟨n, rfl, typed⟩ := inType_carries h3
    obtain ⟨k, rfl, value⟩ := hb h4 lb.valued
    refine ⟨n, rfl, fun ann A there => ?_⟩
    have there : Granted (p.audible ss && b.audible ss) A := by simpa using there
    have g1 := (address ann A there.left).seq fun ann1 _ => load ann1 _ (mem_insert m A)
    have g2 := g1.seq fun ann1 _ => typed ann1 _ (mem_insert x _)
    have g3 := g2.seq fun ann1 _ => value ann1 _ (((there.right.insert m).insert x).insert n)
    have g4 := g3.seq fun _ _ => guarded_again n c (.arith f (.temp (some n)) (.temp (some k)))
      (by simp)
    have g5 := g4.seq fun _ _ => guarded_store size (.temp (some n)) (.temp (some m))
      (by simp)
    refine Guarded.mono (by simpa using g5) ?_
    refine (insert_subset_insert ?_).trans (subset_insert k _)
    exact (subset_insert m A).trans (subset_insert x _)
  | _ => cases location

lemma step_supplies (location : a.isLvalue) (ha : Locates (Supplies ss) a) :
    Supplies ss (.step i op a) := by
  intro ctx e e' r h _
  cases a with
  | ident j s => simpa using loadVar_yields h
  | deref j p =>
    obtain ⟨hp, lp⟩ := ha j p rfl
    obtain ⟨z, e1, t, x, e2, step, c, size, h1, -, h2, -, -, -, rfl, rfl⟩ := lower_step_deref h
    obtain ⟨m, rfl, address⟩ := hp h1 lp.valued
    obtain ⟨x, rfl, load⟩ := loadThrough_carries h2
    have stored : ∀ ann A, Granted (p.audible ss) A → Guarded ann e ((e2.count 1 0).add
        (.instr (.set (.temp (some (e2.temps + 1))) c (.arith .add (.temp (some x)) (.int step))) ::
          storeLines size (.temp (some (e2.temps + 1))) (.temp (some m)))) A
        (insert (e2.temps + 1) (insert x A)) := by
      intro ann A there
      have g1 := (address ann A there).seq fun ann1 _ => load ann1 _ (mem_insert m A)
      have g2 := g1.seq fun _ _ => guarded_set 1 (e2.temps + 1) c
        (.arith .add (.temp (some x)) (.int step)) (by simp)
      have g3 := g2.seq fun _ _ => guarded_store size (.temp (some (e2.temps + 1)))
        (.temp (some m)) (by simp)
      refine Guarded.mono (by simpa using g3) ?_
      exact insert_subset_insert (insert_subset_insert (subset_insert m A))
    split
    · exact ⟨_, rfl, fun ann A there => (stored ann A (by simpa using there)).mono
        (insert_subset_insert (subset_insert x A))⟩
    · exact ⟨x, rfl, fun ann A there => (stored ann A (by simpa using there)).mono
        (subset_insert _ _)⟩
  | _ => cases location

/-- What is shown of the code of a condition: it may jump to the label for when it fails. -/
def SuppliesTest (ss : Symbols) (c : Tree) : Prop :=
  ∀ {ctx : Context} {op : Op} {l : Int} {e e' : Emitter} {r : Temp},
    c.lower ss (ctx.condition op l) e = .ok r e' →
    ∃ n, r = some n ∧ ∀ ann A, Granted (c.audible ss) A → l ≤ e.labels → ann l ⊆ A →
      Guarded ann e e' A (insert n A)

lemma Supplies.test (hc : Supplies ss c) (vc : c.Valued) : SuppliesTest ss c := by
  intro ctx op l e e' r h
  obtain ⟨n, rfl, guarded⟩ := hc h vc
  exact ⟨n, rfl, fun ann A there _ _ => guarded ann A there⟩

lemma toBool_test (la : a.Loaded) (ha : Supplies ss a) : SuppliesTest ss (.toBool i a) := by
  intro ctx op l e e' r h
  obtain ⟨x, e1, c, h1, -, rfl, rfl⟩ := lower_toBool h
  obtain ⟨n, rfl, value⟩ := ha h1 la.valued
  refine ⟨_, rfl, fun ann A there hl hann => ?_⟩
  have first := value ann A (by simpa using there)
  refine (first.seq fun ann1 same => guarded_truth op c (mem_insert n A)
    (hl.trans first.labels) ?_).mono (insert_subset_insert (subset_insert n A))
  exact (same l hl).symm ▸ hann.trans (subset_insert n A)

lemma SuppliesTest.guards {ann : Int → Set Nat} {A : Set Nat} (hc : SuppliesTest ss c)
    (h : c.lower ss (ctx.condition op l) e = .ok r e') (le : L ≤ e.labels) (there : Granted (c.audible ss) A)
    (hl : l ≤ L) (hann : ann l ⊆ A) : Guards L ann e ((e'.count 2 1).add (unlessLines r l e')) A A := by
  obtain ⟨n, rfl, guarded⟩ := hc h
  have cond : Guards L ann e e' A (insert n A) :=
    ⟨le, fun ann' same => guarded ann' A there (hl.trans le) (same l hl ▸ hann)⟩
  have jump := cond.seq (.jumpsUnless cond.later (mem_insert n A) hl
    (hann.trans (subset_insert n A)))
  exact jump.mono (subset_insert n A)

lemma ternary_supplies (hc : SuppliesTest ss c) (la : a.Loaded) (ha : Supplies ss a)
    (lb : b.Loaded) (hb : Supplies ss b) : Supplies ss (.ternary i c a b) := by
  intro ctx e e' r h _
  obtain ⟨x, e1, y, e2, d, z, e3, f, h1, h2, -, h3, -, rfl, rfl⟩ := lower_ternary h
  obtain ⟨n, rfl, yes⟩ := ha h2 la.valued
  obtain ⟨k, rfl, no⟩ := hb h3 lb.valued
  refine ⟨_, rfl, fun ann A there => ?_⟩
  have there : Granted (c.audible ss && a.audible ss && b.audible ss) A := by simpa using there
  -- Either way the outcome is set when the end is reached.
  refine Guards.scope (L := e.labels + 2) (k := 2) (S := A) (T := insert (e1.temps + 3) A) ?_
  have cond : Guards (e.labels + 2) (annotateTwo ann e.labels A (insert (e1.temps + 3) A)) _ _ A A :=
    hc.guards h1 (by simp) there.left.left (by omega) (by simp)
  have s1 := cond.count 1 0
  simp only [Emitter.count_add, Emitter.count_count] at s1
  have s2 := s1.seq (.of s1.later fun ann1 => yes ann1 A there.left.right)
  have s3 : Guards (e.labels + 2) (annotateTwo ann e.labels A (insert (e1.temps + 3) A)) (e.count 0 2)
      (e2.add [.instr (.set (.temp (some (e1.temps + 3))) d (.copy (.temp (some n)))),
        .instr (.jump (e.labels + 2)), .label (e.labels + 1)]) A A := by
    refine s2.seq (.add _ s2.later ?_ ?_ ?_)
    · intro l
      simp
      omega
    · simp [insert_subset_insert]
    · simp
  have s4 := s3.seq (.of s3.later fun ann1 => no ann1 A there.right)
  refine s4.seq (.add _ s4.later ?_ ?_ ?_)
  · intro l
    simp
    omega
  · simp [insert_subset_insert]
  · simp

section
variable {rs : List (Temp × CType)} (hargs : ∀ a ∈ args, Supplies ss a)
  (largs : ∀ a ∈ args, a.Loaded)
include hargs largs

lemma lowerArgs_supplies (h : lowerArgs ss ctx args e = .ok rs e') :
    ∃ ns : List Nat, rs.map Prod.fst = ns.map some ∧ ∀ ann A, Granted (audibleAll ss args) A →
      Guarded ann e e' A (A ∪ {n | n ∈ ns}) := by
  induction args generalizing e' rs with
  | nil =>
    obtain ⟨rfl, rfl⟩ := pure_eq_ok.mp h
    exact ⟨[], rfl, fun ann A _ => by simpa using Guarded.refl⟩
  | cons a args ih =>
    obtain ⟨rest, e1, h1, h⟩ := bind_eq_ok.mp h
    simp only [bind_eq_ok] at h
    obtain ⟨x, e2, h2, h⟩ := h
    obtain ⟨rfl, rfl⟩ := pure_eq_ok.mp h
    obtain ⟨ns, temps, before⟩ := ih (fun b hb => hargs b (.tail a hb))
      (fun b hb => largs b (.tail a hb)) h1
    obtain ⟨n, rfl, here⟩ := hargs a (.head args) h2 (largs a (.head args)).valued
    refine ⟨n :: ns, by simp [temps], fun ann A there => ?_⟩
    have there : Granted (a.audible ss && audibleAll ss args) A := by simpa using there
    refine ((before ann A there.right).seq fun ann1 _ =>
      here ann1 _ (there.left.mono subset_union_left)).mono ?_
    rintro m (hm | hm)
    · exact .inr (.inl hm)
    · rcases List.mem_cons.mp hm with rfl | hm
      · exact .inl rfl
      · exact .inr (.inr hm)

lemma lower_call_guarded (h : (Tree.call i s args).lower ss ctx e = .ok r e') :
    ∃ n, r = some n ∧ ∀ ann A, Granted (audibleAll ss args) A →
      Guarded ann e e' A (if (ss.get s).type = .void then A else insert n A) := by
  obtain ⟨rs, e1, h1, h⟩ := bind_eq_ok.mp h
  obtain ⟨ns, temps, values⟩ := lowerArgs_supplies hargs largs h1
  obtain ⟨c, cs, -, hcs, rfl, rfl⟩ := call_eq_ok h
  refine ⟨_, rfl, fun ann A there => ?_⟩
  refine ((values ann A there).seq fun _ _ => guarded_call fun t ht => ?_).mono ?_
  · rw [hcs, temps, List.mem_map] at ht
    obtain ⟨n, hn, rfl⟩ := ht
    exact Temp.in_some.mpr (.inr hn)
  · split
    · exact subset_union_left
    · exact insert_subset_insert subset_union_left

lemma call_supplies : Supplies ss (.call i s args) := by
  intro ctx e e' r h _
  obtain ⟨n, rfl, guarded⟩ := lower_call_guarded hargs largs h
  refine ⟨n, rfl, fun ann A there => ?_⟩
  have there : Granted (decide ((ss.get s).type ≠ .void) && audibleAll ss args) A := by
    simpa using there
  refine (guarded ann A there.right).mono ?_
  rcases there.left with valued | rfl
  · rw [if_neg (by simpa using valued)]
  · simp

end

theorem IsExpression.supplies (ht : IsExpression ss scope t) : Supplies ss t :=
  ht.located (P := Supplies ss) intLit_supplies strLit_supplies (fun _ _ => ident_supplies)
    (fun _ _ _ => addrOf_supplies) base_supplies deref_supplies binary_supplies logical_supplies
    assign_supplies (fun la _ => compound_supplies la) widen_supplies scale_supplies cast_supplies
    (fun la ha _ => unary_supplies la ha) (fun la _ => step_supplies la)
    (fun compares hc => ternary_supplies (hc.test (.of_isComparison compares)))
    (fun lc hc => ternary_supplies (toBool_test lc hc)) call_supplies

lemma IsCondition.supplies (ht : IsCondition ss scope t) : SuppliesTest ss t := by
  rcases ht with ⟨he, compares⟩ | ⟨j, a, rfl, ha, la⟩
  · exact Supplies.test he.supplies (.of_isComparison compares)
  · exact toBool_test la ha.supplies

/-! ## Statements -/

/-- What the labels ask for that control may leave a statement to. -/
def Exits (ctx : Context) (L : Int) (ann : Int → Set Nat) (A : Set Nat) : Prop :=
  ∀ l ∈ [ctx.loopTop, ctx.loopEnd, ctx.function.endLabel], l ≤ L ∧ ann l ⊆ A

lemma Exits.later {M : Int} {ann ann' : Int → Set Nat} {A B : Set Nat} (h : Exits ctx L ann A) (le : L ≤ M)
    (same : ∀ l ≤ L, ann' l = ann l) (hab : A ⊆ B) : Exits ctx M ann' B := by
  intro l hl
  obtain ⟨hle, hann⟩ := h l hl
  exact ⟨hle.trans le, same l hle ▸ hann.trans hab⟩

def Keeps (ss : Symbols) (t : Tree) : Prop :=
  ∀ {ctx : Context} {e e' : Emitter} {r : Temp}, t.lower ss ctx e = .ok r e' →
    ∀ ann A, Granted (t.heard ss) A → Exits ctx e.labels ann A → Guarded ann e e' A A

section
variable {ann : Int → Set Nat} {A : Set Nat}

lemma Keeps.guards (ha : Keeps ss a) (h : a.lower ss ctx e = .ok r e') (le : L ≤ e.labels)
    (there : Granted (a.heard ss) A) (exits : Exits ctx L ann A) : Guards L ann e e' A A :=
  ⟨le, fun ann' same => ha h ann' A there (exits.later le same subset_rfl)⟩

lemma empty_keeps : Keeps ss .empty := by
  intro ctx e e' r h ann A _ _
  obtain ⟨-, rfl⟩ := pure_eq_ok.mp h
  exact .refl

lemma IsExpression.keeps (ht : IsExpression ss scope t) (lt : t.Loaded) : Keeps ss t := by
  intro ctx e e' r h ann A there _
  obtain ⟨n, -, guarded⟩ := ht.supplies h lt.valued
  have whole : Granted (t.audible ss) A → Guarded ann e e' A A := fun there =>
    (guarded ann A there).mono (subset_insert n A)
  cases ht with
  | ident =>
    rw [Tree.lower, lt.valued _ _ rfl, Bool.true_or, if_pos rfl] at h
    exact loadVar_guarded_idle h
  | call hargs largs _ =>
    obtain ⟨m, -, call⟩ := lower_call_guarded (fun a ha => (hargs a ha).supplies) largs h
    refine (call ann A (by simpa using there)).mono ?_
    split
    · exact subset_rfl
    · exact subset_insert m A
  | @step _ _ a _ location =>
    cases a with
    | ident => exact loadVar_guarded_idle h
    | deref => exact whole there
    | _ => cases location
  | _ => exact whole there

lemma lowerAll_keeps (hts : ∀ t ∈ ts, Keeps ss t) (h : lowerAll ss ctx ts e = .ok u e')
    (there : Granted (heardAll ss ts) A) (exits : Exits ctx e.labels ann A) :
    Guarded ann e e' A A := by
  induction ts generalizing e ann with
  | nil =>
    obtain ⟨-, rfl⟩ := pure_eq_ok.mp h
    exact .refl
  | cons t ts ih =>
    obtain ⟨x, e1, h1, h⟩ := bind_eq_ok.mp h
    have there : Granted (t.heard ss && heardAll ss ts) A := by simpa using there
    have first := hts t (.head ts) h1 ann A there.left exits
    exact first.seq fun ann1 same => ih (fun u hu => hts u (.tail t hu)) h there.right
      (exits.later first.labels same subset_rfl)

lemma block_keeps (hts : ∀ t ∈ ts, Keeps ss t) : Keeps ss (.block i ts) := by
  intro ctx e e' r h ann A there exits
  obtain ⟨_, e1, h1, h⟩ := bind_eq_ok.mp h
  obtain ⟨-, rfl⟩ := pure_eq_ok.mp h
  exact lowerAll_keeps hts h1 (by simpa using there) exits

lemma branch_keeps (hc : SuppliesTest ss c) (ha : Keeps ss a) (hb : Keeps ss b) :
    Keeps ss (.branch i c a b) := by
  intro ctx e e' r h ann A there exits
  have there : Granted (c.audible ss && a.heard ss && b.heard ss) A := by simpa using there
  have exits (k : Int) (hk : 0 ≤ k) : Exits ctx (e.labels + k) (annotateTwo ann e.labels A A) A :=
    exits.later (by omega) (fun _ hl => annotateTwo_below hl) subset_rfl
  cases hempty : b.isEmpty with
  | true =>
    obtain rfl := eq_empty_of_isEmpty hempty
    obtain ⟨x, e1, y, e2, h1, h2, rfl⟩ := lower_branch_one h
    refine Guards.scope (L := e.labels + 1) (k := 1) (S := A) (T := A) ?_
    have s1 : Guards (e.labels + 1) (annotateTwo ann e.labels A A) _ _ A A :=
      hc.guards h1 (by simp) there.left.left le_rfl (by simp)
    have s2 := s1.seq (ha.guards h2 s1.later there.left.right (exits 1 (by omega)))
    refine s2.seq (.add _ s2.later ?_ ?_ ?_)
    · simp
    · simp
    · simp
  | false =>
    obtain ⟨x, e1, y, e2, z, e3, h1, h2, h3, rfl⟩ := lower_branch_two hempty h
    refine Guards.scope (L := e.labels + 2) (k := 2) (S := A) (T := A) ?_
    have s1 : Guards (e.labels + 2) (annotateTwo ann e.labels A A) _ _ A A :=
      hc.guards h1 (by simp) there.left.left (by omega) (by simp)
    have s2 := s1.seq (ha.guards h2 s1.later there.left.right (exits 2 (by omega)))
    have s3 := s2.seq (.meet s2.later (l := e.labels + 1) (m := e.labels + 2) (by omega) (by omega)
      (by simp) (by simp))
    have s4 := s3.seq (hb.guards h3 s3.later there.right (exits 2 (by omega)))
    refine s4.seq (.add _ s4.later ?_ ?_ ?_)
    · simp
    · simp
    · simp

lemma loop_keeps (hc : SuppliesTest ss c) (ha : Keeps ss a) : Keeps ss (.loop i c a) := by
  intro ctx e e' r h ann A there exits
  have there : Granted (c.audible ss && a.heard ss) A := by simpa using there
  obtain ⟨x, e1, y, e2, h1, h2, rfl⟩ := lower_loop h
  refine Guards.scope (L := e.labels + 2) (k := 2) (S := A) (T := A) ?_
  have inside : Exits { ctx with loopTop := e.labels + 1, loopEnd := e.labels + 2 } (e.labels + 2)
      (annotateTwo ann e.labels A A) A := by
    have outside := exits.later (M := e.labels + 2) (by omega)
      (fun _ hl => annotateTwo_below (S := A) (T := A) hl) (subset_refl A)
    simp only [Exits, List.forall_mem_cons] at outside ⊢
    exact ⟨⟨by omega, by simp⟩, ⟨le_rfl, by simp⟩, outside.2.2⟩
  have s1 : Guards (e.labels + 2) (annotateTwo ann e.labels A A) (e.count 0 2)
      ((e.count 0 2).add [.label (e.labels + 1)]) A A := by
    refine .add _ (by simp) ?_ ?_ ?_
    · simp
    · simp
    · simp
  have s2 := s1.seq (hc.guards h1 s1.later there.left le_rfl (by simp))
  have s3 := s2.seq (ha.guards h2 s2.later there.right inside)
  refine s3.seq (.add _ s3.later ?_ ?_ ?_)
  · intro l
    simp
    omega
  · simp
  · simp

lemma result_keeps (ha : Supplies ss a) (la : a.Loaded) : Keeps ss (.result i a) := by
  intro ctx e e' r h ann A there exits
  obtain ⟨x, e1, h1, h⟩ := bind_eq_ok.mp h
  obtain ⟨_, e2, h2, h⟩ := bind_eq_ok.mp h
  obtain ⟨-, rfl⟩ := pure_eq_ok.mp h
  obtain ⟨n, rfl, value⟩ := ha h1 la.valued
  have first := value ann A (by simpa using there)
  obtain ⟨le, hann⟩ := exits ctx.function.endLabel (by simp)
  rcases leave_eq_ok h2 with ⟨no, -⟩ | ⟨m, c, -, -, rfl⟩
  · cases no
  · refine first.seq fun ann1 same => .add ?_ ?_ ?_
    · simpa using le.trans first.labels
    · simpa [same _ le] using hann.trans (subset_insert n A)
    · simp

lemma jump_keeps (exits : Exits ctx e.labels ann A)
    (hl : l ∈ [ctx.loopTop, ctx.loopEnd, ctx.function.endLabel]) :
    Guarded ann e (e.add [.instr (.jump l)]) A A := by
  obtain ⟨le, hann⟩ := exits l hl
  refine .add ?_ ?_ ?_
  · simpa using le
  · simpa using hann
  · simp

end

/-- What the labels of a switch ask for: those of tests and of code for `B`, that of its end for
`A`. -/
structure ArmLabels (ctx : Context) (tests : List Int) (last : Int) (code : Option Int) (L : Int)
    (ann : Int → Set Nat) (A B : Set Nat) : Prop where
  exits : Exits ctx L ann B
  given : ∀ l ∈ tests ++ last :: code.toList, l ≤ L
  asks : ∀ l ∈ tests ++ code.toList, ann l = B
  atEnd : ann last = A
  more : A ⊆ B

namespace ArmLabels

variable {ctx : Context} {test last here : Int} {tests : List Int} {code : Option Int} {L M : Int}
  {ann ann' : Int → Set Nat} {A B : Set Nat}

lemma later (h : ArmLabels ctx tests last code L ann A B) (le : L ≤ M)
    (same : ∀ l ≤ L, ann' l = ann l) : ArmLabels ctx tests last code M ann' A B where
  exits := h.exits.later le same subset_rfl
  given l hl := (h.given l hl).trans le
  asks l hl := by
    rw [same l (h.given l (by simp at hl ⊢; tauto)), h.asks l hl]
  atEnd := by
    rw [same last (h.given last (by simp)), h.atEnd]
  more := h.more

lemma drop (h : ArmLabels ctx (test :: tests) last code L ann A B) :
    ArmLabels ctx tests last none L ann A B where
  exits := h.exits
  given l hl := h.given l (by simp at hl ⊢; tauto)
  asks l hl := h.asks l (by simp at hl ⊢; tauto)
  atEnd := h.atEnd
  more := h.more

lemma withCode (h : ArmLabels ctx tests last none L ann A B) (le : here ≤ L) (asks : ann here = B) :
    ArmLabels ctx tests last (some here) L ann A B where
  exits := h.exits
  given l hl := by
    have := h.given l
    simp at hl this
    grind
  asks l hl := by
    have := h.asks l
    simp at hl this
    grind
  atEnd := h.atEnd
  more := h.more

lemma next (h : ArmLabels ctx tests last code L ann A B) :
    (tests ++ [last]).headD 0 ≤ L ∧ ann ((tests ++ [last]).headD 0) ⊆ B := by
  cases tests with
  | nil => exact ⟨h.given last (by simp), h.atEnd.subset.trans h.more⟩
  | cons test tests => exact ⟨h.given test (by simp), (h.asks test (by simp)).subset⟩

end ArmLabels

section
variable {n : Nat} {t : CType} {tests : List Int} {k : Option Int} {e2 : Emitter}
  {ann : Int → Set Nat} {A B : Set Nat}

lemma label_guarded (le : l ≤ e.labels) (hann : ann l = A) (hab : A ⊆ B) :
    Guarded ann e (e.add [.label l]) B A := by
  refine .add ?_ ?_ ?_
  · simpa using le
  · simpa [hann] using hab
  · simp [hann]

lemma armsEnd_guarded (h1 : code.forM label e = .ok u e1)
    (labels : ArmLabels ctx [] last code e.labels ann A B) :
    Guarded ann e (e1.add [.label last]) B A := by
  cases code with
  | none =>
    obtain ⟨-, rfl⟩ := pure_eq_ok.mp h1
    exact label_guarded (labels.given last (by simp)) labels.atEnd labels.more
  | some l =>
    obtain rfl := label_eq_ok.mp h1
    have first := label_guarded (labels.given l (by simp)) (labels.asks l (by simp)) subset_rfl
    refine first.seq fun ann1 same => ?_
    have labels := labels.later first.labels same
    exact label_guarded (labels.given last (by simp)) labels.atEnd labels.more

lemma lowerArms_keeps (harms : ∀ arm ∈ arms, Keeps ss arm.2)
    (h1 : lowerArms ss ctx (some n) t arms (tests ++ [last]) code e = .ok k e1)
    (h2 : k.forM label e1 = .ok u e2) (length : tests.length = arms.length) (hn : n ∈ B)
    (there : Granted (heardArms ss arms) B)
    (labels : ArmLabels ctx tests last code e.labels ann A B) :
    Guarded ann e (e2.add [.label last]) B A := by
  induction arms generalizing tests code e ann with
  | nil =>
    obtain rfl := List.eq_nil_of_length_eq_zero length
    obtain ⟨rfl, rfl⟩ := pure_eq_ok.mp h1
    exact armsEnd_guarded h2 labels
  | cons arm arms ih =>
    obtain ⟨head, body⟩ := arm
    cases tests with
    | nil => cases length
    | cons test tests =>
      have length : tests.length = arms.length := by simpa using length
      have there : Granted (body.heard ss && heardArms ss arms) B := by simpa using there
      have harms' : ∀ arm ∈ arms, Keeps ss arm.2 := fun arm h => harms arm (.tail _ h)
      obtain ⟨here, e4, e6, h4, h6, h7⟩ := lowerArms_cons h1
      -- The arm from where the label of its code is known.
      have arm (ann : Int → Set Nat)
          (labels : ArmLabels ctx (test :: tests) last (some here) e4.labels ann A B) :
          Guarded ann e4 (e2.add [.label last]) B A := by
        have begins := label_guarded (labels.given test (by simp)) (labels.asks test (by simp))
          (subset_refl B)
        refine begins.seq fun ann1 same => ?_
        replace labels := labels.later begins.labels same
        have tested : Guarded ann1 _ e6 B B := armTest_guarded h6 hn labels.drop.next
          ⟨labels.given here (by simp), (labels.asks here (by simp)).subset⟩
        refine tested.seq fun ann2 same => ?_
        replace labels := labels.later tested.labels same
        have hhere := labels.given here (by simp)
        have ahere := labels.asks here (by simp)
        rcases h7 with ⟨-, h7⟩ | ⟨-, x, e8, h8, h9⟩
        · exact ih harms' h7 length there.right (labels.drop.withCode hhere ahere)
        · have placed := label_guarded hhere ahere (subset_refl B)
          refine placed.seq fun ann3 same => ?_
          replace labels := labels.later placed.labels same
          have run := harms _ (.head _) h8 ann3 B there.left labels.exits
          refine run.seq fun ann4 same => ?_
          exact ih harms' h9 length there.right (labels.later run.labels same).drop
      rcases orNewLabel_eq_ok h4 with ⟨rfl, rfl⟩ | ⟨rfl, rfl, rfl⟩
      · exact arm ann labels
      · refine (arm (Function.update ann (e.labels + 1) B) ?_).scope (update_below ann B)
        exact (labels.later (by simp only [Emitter.count_labels]; omega)
          (update_below ann B)).withCode le_rfl (Function.update_self ..)

end

lemma switch_keeps (la : a.Loaded) (ha : Supplies ss a) (harms : ∀ arm ∈ arms, Keeps ss arm.2) :
    Keeps ss (.switch i a arms) := by
  intro ctx e e' r h ann A there exits
  have there : Granted (a.audible ss && heardArms ss arms) A := by simpa using there
  obtain ⟨_, tests, x, e3, code, e4, e5, rfl, length, -, mem, h3, h4, h5, rfl⟩ := lower_switch h
  obtain ⟨n, rfl, value⟩ := ha h3 la.valued
  let own : Int → Set Nat := fun l =>
    if l ≤ e.labels then ann l else if l = e.labels + 1 then A else insert n A
  have same : ∀ l ≤ e.labels, own l = ann l := fun l hl => if_pos hl
  have atEnd : own (e.labels + 1) = A := by
    simp only [own]
    rw [if_neg (by omega), if_true]
  have first := value own A there.left
  have labels : ArmLabels { ctx with ifLabel := 0, loopEnd := e.labels + 1, parent := .switchOn } tests
      (e.labels + 1) none (e.labels + ↑(1 + arms.length)) own A (insert n A) := by
    have outside := exits.later (M := e.labels + ↑(1 + arms.length)) (by omega) same
      (subset_insert n A)
    refine ⟨?_, ?_, ?_, atEnd, subset_insert n A⟩
    · simp only [Exits, List.forall_mem_cons] at outside ⊢
      exact ⟨outside.1, ⟨by omega, atEnd.subset.trans (subset_insert n A)⟩, outside.2.2⟩
    · simp only [Option.toList_none, List.mem_append, List.mem_singleton]
      rintro l (hl | rfl)
      · have := (mem l).mp hl
        omega
      · omega
    · simp only [Option.toList_none, List.append_nil]
      intro l hl
      have := (mem l).mp hl
      simp only [own]
      rw [if_neg (by omega), if_neg (by omega)]
  refine (first.seq fun ann1 same => ?_).scope same
  exact lowerArms_keeps harms h4 h5 length (mem_insert n A) (there.right.insert n)
    (labels.later first.labels same)

theorem IsStatement.keeps (ht : IsStatement ss scope t) : Keeps ss t := by
  induction ht with
  | empty => exact empty_keeps
  | expression ht lt => exact ht.keeps lt
  | block _ ih => exact block_keeps ih
  | branch hc _ _ iha ihb => exact branch_keeps hc.supplies iha ihb
  | loop hc _ iha => exact loop_keeps hc.supplies iha
  | switch ha la _ _ _ ih => exact switch_keeps la ha.supplies ih
  | leave =>
    intro ctx e e' r h ann A _ exits
    obtain ⟨x, e1, h1, h⟩ := bind_eq_ok.mp h
    obtain ⟨_, e2, h2, h⟩ := bind_eq_ok.mp h
    obtain ⟨-, rfl⟩ := pure_eq_ok.mp h
    obtain ⟨rfl, rfl⟩ := pure_eq_ok.mp h1
    rcases leave_eq_ok h2 with ⟨-, rfl⟩ | ⟨n, c, no, -, -⟩
    · exact jump_keeps exits (by simp)
    · cases no
  | result ha la _ => exact result_keeps ha.supplies la
  | breakOut | continueOn =>
    intro ctx e e' r h ann A _ exits
    obtain ⟨_, e1, h1, h⟩ := bind_eq_ok.mp h
    obtain rfl := jump_eq_ok.mp h1
    obtain ⟨-, rfl⟩ := pure_eq_ok.mp h
    exact jump_keeps exits (by simp)

end Tree
end SmallC
