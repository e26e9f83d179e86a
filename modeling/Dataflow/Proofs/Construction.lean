import Dataflow.Proofs.Grammar

/-!
# Dataflow.Proofs.Construction

What a construction leaves behind, said of what can be asked of the nodes: of
their children, their parents and their ancestors.

* The children of a node are what the step that made it handed over, in that
  order; no later step changes them (`Builder.childLists_run`).
* A step that makes a document lists it, so that once the construction is
  finished every document is a root (`Builder.listsFiles_step`).
* Going up from a node the ids increase (`Tree.IsForest.pairwise_lineage`).

`Builder.run_forms_forest` puts this together with the forest that every step
keeps up (`Builder.isForest_step`).
-/

namespace Dataflow

/-- What a step hands over to the node that it makes, if it makes one. -/
def BuildStep.adopted? : BuildStep → Option (List NodeId)
  | node kind => some kind.handed.flatten
  | switchSource _ | setSpan _ _ => none

namespace Tree

variable {tree : Tree}

/-! ## Children -/

/-- The children of every node, by node. -/
def childLists (tree : Tree) : List (List NodeId) := tree.nodes.toList.map (·.kind.children)

theorem children_eq_ok_iff {id : NodeId} {children : List NodeId} :
    tree.children id = .ok children ↔
      ∃ kind, tree.kind id = .ok kind ∧ kind.children = children := by
  simp only [Tree.children, Tree.kind, bind_eq_ok_iff, pure_eq_ok, Except.ok.injEq]
  grind

theorem children_eq_ok_iff_getElem? {id : NodeId} {children : List NodeId} :
    tree.children id = .ok children ↔ tree.childLists[id]? = some children := by
  rw [Tree.children, bind_eq_ok_iff, childLists, List.getElem?_map, Option.map_eq_some_iff]
  simp [node_eq_ok_iff]

theorem getElem?_childLists (tree : Tree) (id : NodeId) :
    tree.childLists[id]? = tree.nodes[id]?.map (·.kind.children) := by
  simp [childLists]

end Tree

namespace Builder

open Dataflow.Tree

variable {builder builder' : Builder} {step : BuildStep}

/-! ## Steps -/

/-- A step puts the children of the node that it makes behind those of the
others, and changes none of these. -/
theorem childLists_step (h : builder.step step = .ok builder') :
    builder'.childLists = builder.childLists ++ step.adopted?.toList := by
  cases step with
  | node kind =>
    rw [step, make] at h
    obtain ⟨_, _, _, ⟨span, hnew⟩, hold, _⟩ := add_eq_ok h
    have hsize := size_add h
    have hlength : builder.childLists.length = builder.size := by simp [childLists, Tree.size]
    apply List.ext_getElem?
    intro id
    rw [getElem?_childLists]
    by_cases hlt : id < builder.size
    · rw [List.getElem?_append_left (by rw [hlength]; exact hlt), getElem?_childLists, hold id hlt]
      split
      · rw [Option.map_map]
        rfl
      · rfl
    · rw [List.getElem?_append_right (by rw [hlength]; exact Nat.not_lt.mp hlt), hlength]
      by_cases hid : id = builder.size
      · subst hid
        simp [hnew, BuildStep.adopted?, kind.flatten_handed]
      · have hnone : builder'.nodes[id]? = none := by
          rw [Array.getElem?_eq_none_iff]
          show builder'.size ≤ id
          lia
        have hbehind : [kind.handed.flatten].length ≤ id - builder.size := by
          simp only [List.length_singleton]
          lia
        simp only [hnone, BuildStep.adopted?, Option.toList_some, List.getElem?_eq_none hbehind,
          Option.map_none]
  | switchSource source =>
    cases h
    simp [BuildStep.adopted?, childLists]
  | setSpan id span =>
    apply List.ext_getElem?
    intro other
    rw [BuildStep.adopted?, Option.toList_none, List.append_nil, getElem?_childLists,
      getElem?_childLists, (setSpan_eq_ok h).2 other]
    cases builder.nodes[other]? with
    | none => rfl
    | some node => by_cases hid : other = id <;> simp [hid]

/-- The children of the nodes are what the steps handed over. -/
theorem childLists_run {steps : List BuildStep} (h : builder.run steps = .ok builder') :
    builder'.childLists = builder.childLists ++ steps.filterMap BuildStep.adopted? := by
  unfold run at h
  induction steps generalizing builder with
  | nil =>
    cases h
    simp
  | cons step steps ih =>
    rw [List.foldlM_cons] at h
    obtain ⟨between, hstep, hrest⟩ := bind_eq_ok_iff.mp h
    rw [ih hrest, childLists_step hstep, List.append_assoc]
    cases step <;> rfl

/-- Every node that is a document is listed as one. -/
def ListsFiles (builder : Builder) : Prop :=
  ∀ id declarations, builder.kind id = .ok (.file declarations) → id ∈ builder.files

theorem listsFiles_step (hlists : builder.ListsFiles) (h : builder.step step = .ok builder') :
    builder'.ListsFiles := by
  cases step with
  | node kind =>
    rw [step, make] at h
    obtain ⟨_, _, _, _, _, hfiles⟩ := add_eq_ok h
    intro id declarations hkind
    rw [hfiles]
    obtain hkind | ⟨rfl, rfl⟩ := (kind_add_iff h).mp hkind
    · have hmem := hlists id declarations hkind
      split
      · exact List.mem_append_left _ hmem
      · exact hmem
    · simp [NodeKind.isFile]
  | switchSource source =>
    cases h
    exact hlists
  | setSpan id span =>
    intro other declarations hkind
    rw [(setSpan_eq_ok h).1]
    exact hlists other declarations ((kind_setSpan_iff h).mp hkind)

theorem listsFiles_run {source : SourceId} {steps : List BuildStep}
    (h : (new source).run steps = .ok builder) : builder.ListsFiles := by
  refine run_invariant (P := ListsFiles) listsFiles_step ?_ h
  intro id declarations hkind
  exact absurd (lt_size_of_kind hkind) (Nat.not_lt_zero id)

/-! ## Whole constructions -/

/-- A construction, with whatever children its steps hand over, makes a
forest.  A node is a child of another exactly if that other is its parent; the
children of a node are the distinct nodes that the step which made it handed
over, in that order; and a parent comes after its children.  So the ancestors
of a node are finitely many, by increasing id.  Once the construction is
finished, the documents are roots, and no node belongs to two of them. -/
theorem run_forms_forest {source : SourceId} {steps : List BuildStep} {builder : Builder}
    (h : (new source).run steps = .ok builder) :
    (∀ parent child, (∃ children, builder.children parent = .ok children ∧ child ∈ children) ↔
      builder.parent child = .ok (some parent)) ∧
    (∀ parent children, builder.children parent = .ok children ↔
      (steps.filterMap BuildStep.adopted?)[parent]? = some children) ∧
    (∀ parent children, builder.children parent = .ok children →
      children.Nodup ∧ ∀ child ∈ children, child < builder.size) ∧
    (∀ parent child, builder.parent child = .ok (some parent) →
      child < parent ∧ parent < builder.size) ∧
    (∀ id, id < builder.size → ∃ ancestors, builder.ancestors id = .ok ancestors ∧
      (id :: ancestors).Pairwise (· < ·) ∧
      ∀ ancestor, ancestor ∈ ancestors ↔ builder.Inside id ancestor) ∧
    ∀ tree, builder.finish = .ok tree → tree = builder.toTree ∧
      (∀ root declarations, tree.kind root = .ok (.file declarations) →
        root ∈ tree.files ∧ tree.parent root = .ok none) ∧
      ∀ first ∈ tree.files, ∀ second ∈ tree.files, first ≠ second →
        ∃ entries others, tree.subtree first = .ok entries ∧ tree.subtree second = .ok others ∧
          (entries.map (·.1)).Disjoint (others.map (·.1)) := by
  have hf := isForest_run h
  refine ⟨?_, ?_, ?_, ?_, ?_, ?_⟩
  · intro parent child
    constructor
    · rintro ⟨children, hchildren, hmem⟩
      obtain ⟨kind, hkind, rfl⟩ := children_eq_ok_iff.mp hchildren
      exact hf.parent_of_child hkind hmem
    · intro hparent
      obtain ⟨kind, hkind, hmem⟩ := hf.child_of_parent hparent
      exact ⟨_, children_eq_ok_iff.mpr ⟨kind, hkind, rfl⟩, hmem⟩
  · intro parent children
    have hlists := childLists_run h
    have hnone : (new source).childLists = [] := rfl
    rw [hnone, List.nil_append] at hlists
    rw [children_eq_ok_iff_getElem?, hlists]
  · intro parent children hchildren
    obtain ⟨kind, hkind, rfl⟩ := children_eq_ok_iff.mp hchildren
    exact ⟨hf.nodup_children hkind, fun child hmem => hf.child_lt_size hkind hmem⟩
  · intro parent child hparent
    exact ⟨hf.lt_parent hparent, hf.parent_lt_size hparent⟩
  · intro id hid
    obtain ⟨entries, hentries⟩ := hf.exists_lineage hid
    refine ⟨entries.map (·.1), ?_, hf.pairwise_lineage hid hentries, ?_⟩
    · rw [ancestors, hentries]
      rfl
    · intro ancestor
      exact hf.mem_lineage_ids_iff hentries
  · intro tree hfinish
    obtain ⟨rfl, hfinished⟩ := finish_eq_ok hf hfinish
    refine ⟨rfl, ?_, ?_⟩
    · intro root declarations hkind
      have hmem := listsFiles_run h root declarations hkind
      exact ⟨hmem, hfinished.parent_of_file hmem⟩
    · intro first hfirst second hsecond hne
      refine ⟨_, _, hfinished.subtree_file hfirst, hfinished.subtree_file hsecond, ?_⟩
      intro id hid hid'
      exact hne (hfinished.file_eq hfirst hsecond
        (hf.under_of_mem_preorder (hfinished.file_lt_size hfirst) hid)
        (hf.under_of_mem_preorder (hfinished.file_lt_size hsecond) hid'))

/-- Two documents, one with nodes of two sources and an expression where a
type belongs, and a type parameter that no document holds. -/
def mixedSteps : List BuildStep := [
  .node (.type .integer),
  .switchSource 2,
  .node (.expr (.variableDefinition "x")),
  .node (.port "p" .input 1),
  .setSpan 0 ⟨2, 3, 9⟩,
  .node (.dataType "D" [2] [0]),
  .node (.file [3]),
  .node (.typeParameter "t"),
  .switchSource 1,
  .node (.file [])]

theorem run_forms_forest_mixedSteps :
    ∃ builder tree, (new 1).run mixedSteps = .ok builder ∧ builder.finish = .ok tree ∧
      builder.children 3 = .ok [2, 0] ∧ builder.parent 0 = .ok (some 3) ∧
      (∃ ancestors, builder.ancestors 1 = .ok ancestors ∧ (1 :: ancestors).Pairwise (· < ·)) ∧
      tree.parent 4 = .ok none ∧
      ∃ entries others, tree.subtree 4 = .ok entries ∧ tree.subtree 6 = .ok others ∧
        (entries.map (·.1)).Disjoint (others.map (·.1)) := by
  obtain ⟨builder, hrun⟩ : ∃ builder, (new 1).run mixedSteps = .ok builder := ⟨_, rfl⟩
  obtain ⟨hiff, hadopted, _, _, hancestors, hfinished⟩ := run_forms_forest hrun
  have hchildren : builder.children 3 = .ok [2, 0] := (hadopted 3 [2, 0]).mpr rfl
  obtain ⟨tree, hfinish⟩ : ∃ tree, builder.finish = .ok tree := by
    cases hrun
    exact ⟨_, rfl⟩
  obtain ⟨rfl, hroots, hdisjoint⟩ := hfinished tree hfinish
  have hfile : builder.kind 4 = .ok (.file [3]) := by
    cases hrun
    rfl
  have hfiles : builder.files = [4, 6] := by
    cases hrun
    rfl
  have hsize : builder.size = 7 := by
    cases hrun
    rfl
  obtain ⟨ancestors, hlist, hincreasing, _⟩ := hancestors 1 (by rw [hsize]; decide)
  exact ⟨builder, _, hrun, hfinish, hchildren, (hiff 3 0).mp ⟨_, hchildren, by decide⟩,
    ⟨ancestors, hlist, hincreasing⟩, (hroots 4 _ hfile).2,
    hdisjoint 4 (by rw [hfiles]; decide) 6 (by rw [hfiles]; decide) (by decide)⟩

end Builder

end Dataflow
