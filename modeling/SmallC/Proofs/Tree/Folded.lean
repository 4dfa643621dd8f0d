import SmallC.Proofs.Tree.Nodes

/-!
# What folding leaves

Folding comes to an end in one pass: no operation that it knows is left over literals, except below
an arm outside of a switch, which is not looked into. A node that does not become a literal stays as
it is over its folded children.
-/

namespace SmallC.Tree

variable {f g : Tree → Tree} {t a : Tree} {i : Info}

/-! ## Children -/

def children : Tree → List Tree
  | .addrOf _ _ a | .deref _ a | .widen _ a | .scale _ a _ | .cast _ a | .unary _ _ a
  | .toBool _ a | .step _ _ a | .arm _ a | .result _ a | .function _ _ a => [a]
  | .binary _ _ a b | .logical _ _ a b | .assign _ a b | .compound _ _ a b | .loop _ a b => [a, b]
  | .ternary _ c a b | .branch _ c a b => [c, a, b]
  | .call _ _ ts | .block _ ts => ts
  | .switch _ a arms => a :: arms.map Prod.snd
  | .empty | .intLit .. | .strLit .. | .ident .. | .breakOut _ | .continueOn _ => []

/-- The same node over other children, in the same places. -/
def mapChildren (f : Tree → Tree) : Tree → Tree
  | .addrOf i s a => .addrOf i s (f a)
  | .deref i a => .deref i (f a)
  | .binary i op a b => .binary i op (f a) (f b)
  | .logical i op a b => .logical i op (f a) (f b)
  | .assign i a b => .assign i (f a) (f b)
  | .compound i op a b => .compound i op (f a) (f b)
  | .widen i a => .widen i (f a)
  | .scale i a n => .scale i (f a) n
  | .cast i a => .cast i (f a)
  | .unary i op a => .unary i op (f a)
  | .toBool i a => .toBool i (f a)
  | .step i op a => .step i op (f a)
  | .ternary i c a b => .ternary i (f c) (f a) (f b)
  | .call i s ts => .call i s (ts.map f)
  | .block i ts => .block i (ts.map f)
  | .branch i c a b => .branch i (f c) (f a) (f b)
  | .loop i c a => .loop i (f c) (f a)
  | .switch i a arms => .switch i (f a) (arms.map fun arm => (arm.1, f arm.2))
  | .arm head a => .arm head (f a)
  | .result i a => .result i (f a)
  | .function i s a => .function i s (f a)
  | t => t

lemma parts_eq (t : Tree) : t.parts = t.children.flatMap nodes := by
  cases t <;> simp [parts, children, nodes, partsAll_eq, partsArms_eq, List.flatMap_map]

lemma children_mapChildren (t : Tree) : (t.mapChildren f).children = t.children.map f := by
  cases t <;> simp [mapChildren, children]

lemma info_mapChildren (t : Tree) : (t.mapChildren f).info = t.info := by
  cases t <;> rfl

lemma mapChildren_mapChildren (t : Tree) : (t.mapChildren f).mapChildren g = t.mapChildren fun a => g (f a) := by
  cases t <;> simp [mapChildren]

lemma mapChildren_congr (h : ∀ a ∈ t.children, f a = g a) : t.mapChildren f = t.mapChildren g := by
  cases t with
  | switch =>
    simp_all only [children, mapChildren, List.forall_mem_cons, List.forall_mem_map, switch.injEq, true_and]
    exact List.map_congr_left fun arm mem => by rw [h.2 arm mem]
  | _ => simp_all [mapChildren, children]

lemma sizeOf_child (h : a ∈ t.children) : sizeOf a < sizeOf t := by
  cases t with
  | call _ _ ts | block _ ts =>
    have : sizeOf a < sizeOf ts := List.sizeOf_lt_of_mem h
    simp
    omega
  | switch _ _ arms =>
    rcases List.mem_cons.mp h with rfl | h
    · simp
      omega
    · obtain ⟨⟨head, a⟩, mem, rfl⟩ := List.mem_map.mp h
      have := List.sizeOf_lt_of_mem mem
      simp at this ⊢
      omega
  | _ => grind [children]

/-- What holds of a tree whenever it holds of its children holds of every tree. -/
theorem child_induction {P : Tree → Prop} (h : ∀ t, (∀ a ∈ t.children, P a) → P t) (t : Tree) : P t :=
  h t fun a _ => child_induction h a
termination_by sizeOf t
decreasing_by exact sizeOf_child ‹_›

/-! ## Folding -/

def isArm : Tree → Bool
  | .arm .. => true
  | _ => false

/-- A node over its folded children. -/
lemma foldsTo_fold (h : t.isArm = false) : (t.mapChildren fold).FoldsTo t.fold := by
  cases t with
  | binary i op a b => exact foldsTo_binary ..
  | unary i op a => exact foldsTo_unary ..
  | arm => cases h
  | call | block | switch =>
    rw [fold]
    simp only [foldAll_eq_map, foldArms_eq_map]
    exact .inl ⟨rfl, rfl⟩
  | _ => exact .inl ⟨rfl, rfl⟩

lemma fold_of_isArm (h : t.isArm = true) : t.fold = t := by
  cases t with
  | arm => rfl
  | _ => cases h

lemma isArm_mapChildren (f : Tree → Tree) (t : Tree) : (t.mapChildren f).isArm = t.isArm := by
  cases t <;> rfl

lemma fold_cases (t : Tree) : t.isArm = true ∧ t.fold = t ∨ t.isArm = false ∧
    ((∃ v, t.fold = .intLit { type := t.type, line := t.line } v) ∨
      (t.mapChildren fold).isConstant = false ∧ t.fold = t.mapChildren fold) := by
  by_cases arm : t.isArm = true
  · exact .inl ⟨arm, fold_of_isArm arm⟩
  rw [Bool.not_eq_true] at arm
  rcases foldsTo_fold arm with node | ⟨-, literal⟩
  · exact .inr ⟨arm, .inr node⟩
  · rw [type, line, info_mapChildren] at literal
    exact .inr ⟨arm, .inl literal⟩

lemma fold_fold (t : Tree) : t.fold.fold = t.fold := by
  induction t using child_induction with
  | _ t ih =>
    rcases fold_cases t with ⟨arm, same⟩ | ⟨arm, ⟨v, literal⟩ | ⟨known, node⟩⟩
    · rw [same, same]
    · rw [literal]
      rfl
    · have settled : (t.mapChildren fold).mapChildren fold = t.mapChildren fold := by
        rw [mapChildren_mapChildren]
        exact mapChildren_congr ih
      rw [node]
      rcases foldsTo_fold ((isArm_mapChildren fold t).trans arm) with ⟨-, again⟩ | ⟨constant, -⟩
      · rw [again, settled]
      · rw [settled, known] at constant
        cases constant

/-- What folding knows is left only below an arm outside of a switch. -/
lemma of_isConstant_fold {n : Tree} (t : Tree) (mem : n ∈ t.fold.nodes) (h : n.isConstant = true) :
    ∃ head a, .arm head a ∈ t.nodes ∧ n ∈ a.nodes := by
  induction t using child_induction with
  | _ t ih =>
    rcases fold_cases t with ⟨arm, same⟩ | ⟨arm, ⟨v, literal⟩ | ⟨known, node⟩⟩
    · cases t with
      | arm head a =>
        rcases List.mem_cons.mp mem with rfl | mem
        · cases h
        · exact ⟨head, a, mem_nodes _, mem⟩
      | _ => cases arm
    · rw [literal] at mem
      obtain rfl := List.mem_singleton.mp mem
      cases h
    · rw [node, nodes, parts_eq, children_mapChildren] at mem
      rcases List.mem_cons.mp mem with rfl | mem
      · rw [known] at h
        cases h
      · obtain ⟨_, ha, mem⟩ := List.mem_flatMap.mp mem
        obtain ⟨a, child, rfl⟩ := List.mem_map.mp ha
        obtain ⟨head, b, stands, below⟩ := ih a child mem
        refine ⟨head, b, .tail _ ?_, below⟩
        rw [parts_eq]
        exact List.mem_flatMap.mpr ⟨a, child, stands⟩

/-- Folding comes to an end in one pass and changes nothing but the operations that it knows. -/
theorem fold_comes_to_end (t : Tree) :
    (∀ n ∈ t.fold.nodes, n.isConstant = true → ∃ head a, .arm head a ∈ t.nodes ∧ n ∈ a.nodes) ∧
    t.fold.fold = t.fold ∧ t.fold.type = t.type ∧ t.fold.line = t.line ∧
    (t.isArm = false → (t.mapChildren fold).FoldsTo t.fold) ∧ (t.isArm = true → t.fold = t) := by
  refine ⟨fun n => of_isConstant_fold t, fold_fold t, type_fold t, ?_, foldsTo_fold, fold_of_isArm⟩
  rcases fold_cases t with ⟨-, same⟩ | ⟨-, ⟨v, literal⟩ | ⟨-, node⟩⟩
  · rw [same]
  · rw [literal]
    rfl
  · rw [node, line, info_mapChildren]
    rfl

/-- An arm that stands by itself is left as it is, with the sum in it. -/
theorem fold_leaves_sum :
    let int (v : Int64) : Tree := .intLit { type := .int } v
    let t : Tree := .arm ⟨{}, some 1⟩ (.binary { type := .int } .add (int 1) (int 2))
    ¬ ∀ n ∈ t.fold.nodes, n.isConstant = false := by
  intro int t h
  cases h (.binary { type := .int } .add (int 1) (int 2)) (.tail _ (.head _))

end SmallC.Tree
