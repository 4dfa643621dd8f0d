import SmallC.Proofs.Tree.Shape

/-!
# The nodes of a tree

All nodes of a tree in one list, the root first. Every node of the tree of a program is itself an
expression, a condition or a statement of it, so what the shapes say of their parts holds throughout.
-/

namespace SmallC

namespace Tree

variable {s : SymId}

mutual

def parts : Tree → List Tree
  | .addrOf _ _ a | .deref _ a | .widen _ a | .scale _ a _ | .cast _ a | .unary _ _ a
  | .toBool _ a | .step _ _ a | .arm _ a | .result _ a | .function _ _ a => a :: a.parts
  | .binary _ _ a b | .logical _ _ a b | .assign _ a b | .compound _ _ a b | .loop _ a b =>
    a :: a.parts ++ b :: b.parts
  | .ternary _ c a b | .branch _ c a b => c :: c.parts ++ a :: a.parts ++ b :: b.parts
  | .call _ _ ts | .block _ ts => partsAll ts
  | .switch _ a arms => a :: a.parts ++ partsArms arms
  | .empty | .intLit .. | .strLit .. | .ident .. | .breakOut _ | .continueOn _ => []

def partsAll : List Tree → List Tree
  | [] => []
  | t :: ts => t :: t.parts ++ partsAll ts

def partsArms : List (ArmHead × Tree) → List Tree
  | [] => []
  | (_, t) :: arms => t :: t.parts ++ partsArms arms

end

def nodes (t : Tree) : List Tree := t :: t.parts

lemma partsAll_eq (ts : List Tree) : partsAll ts = ts.flatMap nodes := by
  induction ts with
  | nil => rfl
  | cons t ts ih => rw [partsAll, ih]; rfl

lemma partsArms_eq (arms : List (ArmHead × Tree)) :
    partsArms arms = arms.flatMap fun arm => arm.2.nodes := by
  induction arms with
  | nil => rfl
  | cons arm arms ih => rw [partsArms, ih]; rfl

lemma mem_nodes (t : Tree) : t ∈ t.nodes := .head _

def name? : Tree → Option SymId
  | .ident _ s => some s
  | .addrOf _ s _ => s
  | _ => none

def names (t : Tree) : List SymId := t.nodes.filterMap name?

lemma mem_names {t n : Tree} (hn : n ∈ t.nodes) (hs : n.name? = some s) : s ∈ t.names :=
  List.mem_filterMap.mpr ⟨n, hn, hs⟩

variable {ss : Symbols} {scope : Scope} {t : Tree}

/-! ## Nodes are of the shapes -/

/-- A part of a program. -/
def IsPart (ss : Symbols) (scope : Scope) (t : Tree) : Prop :=
  IsStatement ss scope t ∨ IsExpression ss scope t ∨ IsCondition ss scope t

lemma IsExpression.isPart (h : IsExpression ss scope t) : IsPart ss scope t := .inr (.inl h)

def isOperand : Tree → Bool
  | .empty | .toBool .. | .block .. | .branch .. | .loop .. | .switch .. | .arm .. | .result ..
  | .breakOut _ | .continueOn _ | .function .. => false
  | _ => true

lemma IsPart.isExpression (h : IsPart ss scope t) (operand : t.isOperand = true) :
    IsExpression ss scope t := by
  rcases h with h | h | ⟨h, -⟩ | ⟨j, a, rfl, -⟩
  · cases h with
    | expression h => exact h
    | _ => cases operand
  · exact h
  · exact h
  · cases operand

lemma IsPart.name (h : IsPart ss scope t) (hs : t.name? = some s) : s < ss.size ∧ scope.sees s := by
  cases t with
  | ident =>
    cases h.isExpression rfl with
    | ident known visible =>
      cases hs
      exact ⟨known, visible⟩
  | addrOf =>
    cases h.isExpression rfl with
    | addrOf known visible =>
      cases hs
      exact ⟨known, visible⟩
    | base => cases hs
  | _ => cases hs

lemma IsPart.nodes (h : IsPart ss scope t) (hb : ∀ n ∈ t.parts, IsPart ss scope n) :
    ∀ n ∈ t.nodes, IsPart ss scope n :=
  List.forall_mem_cons.mpr ⟨h, hb⟩

theorem IsExpression.nodes (h : IsExpression ss scope t) : ∀ n ∈ t.nodes, IsPart ss scope n := by
  induction h with
  | intLit => exact (IsExpression.intLit).isPart.nodes (List.forall_mem_nil _)
  | strLit => exact (IsExpression.strLit).isPart.nodes (List.forall_mem_nil _)
  | ident known visible typed =>
    exact (IsExpression.ident known visible typed).isPart.nodes (List.forall_mem_nil _)
  | addrOf known visible place =>
    refine (IsExpression.addrOf known visible place).isPart.nodes ?_
    exact IsPart.nodes (.inl .empty) (List.forall_mem_nil _)
  | base ha la iha => exact (IsExpression.base ha la).isPart.nodes iha
  | deref ha la pointer typed iha => exact (IsExpression.deref ha la pointer typed).isPart.nodes iha
  | binary ha la hb lb typed hop iha ihb =>
    exact (IsExpression.binary ha la hb lb typed hop).isPart.nodes (List.forall_mem_append.mpr ⟨iha, ihb⟩)
  | logical ha la hb lb iha ihb =>
    exact (IsExpression.logical ha la hb lb).isPart.nodes (List.forall_mem_append.mpr ⟨iha, ihb⟩)
  | assign ha location hb lb typed iha ihb =>
    exact (IsExpression.assign ha location hb lb typed).isPart.nodes
      (List.forall_mem_append.mpr ⟨iha, ihb⟩)
  | compound ha location hb lb typed hop iha ihb =>
    exact (IsExpression.compound ha location hb lb typed hop).isPart.nodes
      (List.forall_mem_append.mpr ⟨iha, ihb⟩)
  | widen ha la iha => exact (IsExpression.widen ha la).isPart.nodes iha
  | scale ha la iha => exact (IsExpression.scale ha la).isPart.nodes iha
  | cast ha la iha => exact (IsExpression.cast ha la).isPart.nodes iha
  | unary ha la hop iha => exact (IsExpression.unary ha la hop).isPart.nodes iha
  | step ha location iha => exact (IsExpression.step ha location).isPart.nodes iha
  | ternary hc compares ha la hb lb typed ihc iha ihb =>
    refine (IsExpression.ternary hc compares ha la hb lb typed).isPart.nodes ?_
    exact List.forall_mem_append.mpr ⟨List.forall_mem_append.mpr ⟨ihc, iha⟩, ihb⟩
  | @choice i j c a b hc lc ha la hb lb typed ihc iha ihb =>
    refine (IsExpression.choice (j := j) hc lc ha la hb lb typed).isPart.nodes ?_
    have test : ∀ n ∈ (toBool j c).nodes, IsPart ss scope n :=
      IsPart.nodes (.inr (.inr (.inr ⟨j, c, rfl, hc, lc⟩))) ihc
    exact List.forall_mem_append.mpr ⟨List.forall_mem_append.mpr ⟨test, iha⟩, ihb⟩
  | call hargs largs typed known result ih =>
    refine (IsExpression.call hargs largs typed known result).isPart.nodes ?_
    rw [parts, partsAll_eq]
    simpa only [List.forall_mem_flatMap] using ih

lemma IsCondition.nodes (h : IsCondition ss scope t) : ∀ n ∈ t.nodes, IsPart ss scope n := by
  rcases h with ⟨he, -⟩ | ⟨j, a, rfl, ha, la⟩
  · exact he.nodes
  · exact IsPart.nodes (.inr (.inr (.inr ⟨j, a, rfl, ha, la⟩))) ha.nodes

theorem IsStatement.nodes (h : IsStatement ss scope t) : ∀ n ∈ t.nodes, IsPart ss scope n := by
  induction h with
  | empty => exact IsPart.nodes (.inl .empty) (List.forall_mem_nil _)
  | expression ht _ => exact ht.nodes
  | block hts ih =>
    refine IsPart.nodes (.inl (.block hts)) ?_
    rw [parts, partsAll_eq]
    simpa only [List.forall_mem_flatMap] using ih
  | branch hc ha hb iha ihb =>
    refine IsPart.nodes (.inl (.branch hc ha hb)) ?_
    exact List.forall_mem_append.mpr ⟨List.forall_mem_append.mpr ⟨hc.nodes, iha⟩, ihb⟩
  | loop hc ha iha =>
    exact IsPart.nodes (.inl (.loop hc ha)) (List.forall_mem_append.mpr ⟨hc.nodes, iha⟩)
  | switch ha la some ordered harms ih =>
    refine IsPart.nodes (.inl (.switch ha la some ordered harms)) ?_
    rw [parts, partsArms_eq]
    exact List.forall_mem_append.mpr ⟨ha.nodes, by simpa only [List.forall_mem_flatMap] using ih⟩
  | leave => exact IsPart.nodes (.inl .leave) (IsPart.nodes (.inl .empty) (List.forall_mem_nil _))
  | result ha la typed => exact IsPart.nodes (.inl (.result ha la typed)) ha.nodes
  | breakOut => exact IsPart.nodes (.inl .breakOut) (List.forall_mem_nil _)
  | continueOn => exact IsPart.nodes (.inl .continueOn) (List.forall_mem_nil _)

end Tree
end SmallC
