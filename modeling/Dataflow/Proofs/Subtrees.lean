import Dataflow.Proofs.Walk

/-!
# Dataflow.Proofs.Subtrees

The walk by a stack in a tree that was built.

A stack stands for what is still to be visited: everything under its nodes, one
node after the other.  A turn takes the node on top off the stack and puts the
children in its place, so one node less is to be visited; the walk makes exactly
as many turns as there are nodes to be visited, whatever it is allowed
(`Tree.IsForest.visit_eq_ite`).

Two subtrees have a node in common only if one of their roots is under the other,
and then one walk is a piece of the other (`Tree.IsForest.preorder_infix`).
-/

namespace Dataflow

namespace Tree

variable {tree : Tree} {id root : NodeId}

namespace IsForest

variable (hf : tree.IsForest)
include hf

/-! ## Turns -/

/-- A walk that is allowed fewer nodes than there are to be visited does not come
to its end. -/
theorem visit_eq_endless {bound : Nat} {stack : List NodeId}
    (hstack : ∀ id ∈ stack, id < tree.size)
    (hbound : bound < (stack.flatMap tree.preorder).length) :
    tree.visit bound stack = abort .endless := by
  induction bound generalizing stack with
  | zero =>
    cases stack with
    | nil => simp at hbound
    | cons id stack => rfl
  | succ bound ih =>
    cases stack with
    | nil => simp at hbound
    | cons id stack =>
      obtain ⟨hid, hrest⟩ := List.forall_mem_cons.mp hstack
      obtain ⟨kind, hkind⟩ := exists_kind_of_lt hid
      have hstack' : ∀ other ∈ kind.children ++ stack, other < tree.size := by
        intro other hmem
        obtain hmem | hmem := List.mem_append.mp hmem
        · exact hf.child_lt_size hkind hmem
        · exact hrest other hmem
      have hbound' : bound < ((kind.children ++ stack).flatMap tree.preorder).length := by
        simp only [List.flatMap_cons, hf.preorder_eq hkind, List.flatMap_append,
          List.length_append, List.length_cons] at hbound ⊢
        omega
      rw [visit, hkind, ok_bind, ih hstack' hbound']
      rfl

/-- The walk over a stack makes one turn for each node that is to be visited. -/
theorem visit_eq_ite {stack : List NodeId} (hstack : ∀ id ∈ stack, id < tree.size)
    (bound : Nat) :
    tree.visit bound stack =
      if (stack.flatMap tree.preorder).length ≤ bound then .ok (stack.flatMap tree.preorder)
      else abort .endless := by
  split
  · next hle => exact hf.visit_eq_flatMap_preorder hstack hle
  · next hlt => exact hf.visit_eq_endless hstack (Nat.not_le.mp hlt)

/-! ## Subtrees within subtrees -/

/-- What is under a node is visited in one piece wherever the walk begins above
it. -/
theorem preorder_infix (hunder : tree.Under id root) :
    tree.preorder id <:+: tree.preorder root := by
  induction hunder with
  | refl => exact List.infix_refl _
  | @tail child parent _ hparent ih =>
    obtain ⟨kind, hkind, hmem⟩ := hf.child_of_parent hparent
    have hchild : tree.preorder child <:+: kind.children.flatMap tree.preorder := by
      rw [List.flatMap_def]
      exact List.infix_of_mem_flatten (List.mem_map_of_mem hmem)
    rw [hf.preorder_eq hkind]
    exact (ih.trans hchild).trans (List.suffix_cons _ _).isInfix

/-- A node that two walks visit has their roots above it, one above the other. -/
theorem disjoint_or_under (hid : id < tree.size) (hroot : root < tree.size) :
    ((tree.preorder id).map (·.1)).Disjoint ((tree.preorder root).map (·.1)) ∨
      tree.Under id root ∨ tree.Under root id := by
  by_cases hunder : tree.Under id root ∨ tree.Under root id
  · exact .inr hunder
  · left
    intro common hmem hmem'
    exact hunder (under_total (hf.under_of_mem_preorder hid hmem)
      (hf.under_of_mem_preorder hroot hmem'))

/-- A walk visits its root and the nodes that have the root as an ancestor. -/
theorem mem_preorder_ids_iff (hroot : root < tree.size) :
    id ∈ (tree.preorder root).map (·.1) ↔
      id = root ∨ ∃ ancestors, tree.ancestors id = .ok ancestors ∧ root ∈ ancestors := by
  have hmem : id ∈ (tree.preorder root).map (·.1) ↔ tree.Under id root := by
    refine ⟨hf.under_of_mem_preorder hroot, ?_⟩
    intro hunder
    obtain ⟨kind, hkind⟩ := exists_kind_of_lt (hf.lt_size_of_under hunder hroot)
    exact List.mem_map.mpr ⟨(id, kind), (hf.mem_preorder_iff hroot).mpr ⟨hunder, hkind⟩, rfl⟩
  rw [hmem, under_iff_eq_or_inside]
  refine or_congr Iff.rfl ?_
  constructor
  · rintro ⟨parent, hparent, hunder⟩
    obtain ⟨entries, hentries⟩ := hf.exists_lineage (lt_size_of_parent hparent)
    refine ⟨entries.map (·.1), by rw [ancestors, hentries]; rfl, ?_⟩
    exact (hf.mem_lineage_ids_iff hentries).mpr ⟨parent, hparent, hunder⟩
  · rintro ⟨ancestors, hancestors, hmem⟩
    obtain ⟨entries, hentries, hids⟩ := bind_eq_ok_iff.mp hancestors
    cases hids
    exact (hf.mem_lineage_ids_iff hentries).mp hmem

end IsForest

/-! ## Walks in a tree that was built -/

/-- The walk by a stack is the recursive one, in every tree that was built and from
each of its nodes: first comes the node, and then the walks from its children in
order.  It ends after one turn for each node.  It visits no node twice and none
with a greater id than its root, and it visits exactly the root and the nodes that
have it among their ancestors.  Two walks have no node in common, or one of them is
a piece of the other. -/
theorem subtree_walks_preorder {source : SourceId} {steps : List BuildStep}
    (hbuild : Tree.build source steps = .ok tree) (hid : id < tree.size) :
    tree.subtree id = .ok (tree.preorder id) ∧
    (∃ kind, tree.kind id = .ok kind ∧
      tree.preorder id = (id, kind) :: kind.children.flatMap tree.preorder) ∧
    (∀ bound, tree.visit bound [id] =
      if (tree.preorder id).length ≤ bound then .ok (tree.preorder id) else abort .endless) ∧
    ((tree.preorder id).map (·.1)).Nodup ∧
    (∀ visited ∈ (tree.preorder id).map (·.1), visited ≤ id) ∧
    (∀ visited, visited ∈ (tree.preorder id).map (·.1) ↔
      visited = id ∨ ∃ ancestors, tree.ancestors visited = .ok ancestors ∧ id ∈ ancestors) ∧
    ∀ other < tree.size,
      ((tree.preorder id).map (·.1)).Disjoint ((tree.preorder other).map (·.1)) ∨
        tree.preorder id <:+: tree.preorder other ∨ tree.preorder other <:+: tree.preorder id := by
  have hf := (isFinished_of_build hbuild).toIsForest
  obtain ⟨kind, hkind⟩ := exists_kind_of_lt hid
  refine ⟨hf.subtree_eq_preorder hid, ⟨kind, hkind, hf.preorder_eq hkind⟩, ?_,
    hf.nodup_preorder hid, ?_, fun visited => hf.mem_preorder_ids_iff hid, ?_⟩
  · intro bound
    simpa using hf.visit_eq_ite (List.forall_mem_singleton.mpr hid) bound
  · intro visited hmem
    exact hf.le_of_under (hf.under_of_mem_preorder hid hmem)
  · intro other hother
    obtain hdisjoint | hunder | hunder := hf.disjoint_or_under hid hother
    · exact .inl hdisjoint
    · exact .inr (.inl (hf.preorder_infix hunder))
    · exact .inr (.inr (hf.preorder_infix hunder))

/-- A match case whose pattern applies a constructor to two variables, and a node
outside of it. -/
def patternAndBody : List BuildStep := [
  .node (.expr (.variableDefinition "x")),
  .node (.expr (.variableDefinition "y")),
  .node (.expr (.apply "Mk" [0, 1])),
  .node (.expr (.parens 2)),
  .node (.body [] [] []),
  .node (.matchCase 3 4),
  .node (.type .integer)]

theorem subtree_walks_preorder_patternAndBody :
    ∃ tree, Tree.build 1 patternAndBody = .ok tree ∧ tree.subtree 5 = .ok (tree.preorder 5) ∧
      (tree.preorder 5).map (·.1) = [5, 3, 2, 0, 1, 4] ∧
      tree.visit 5 [5] = abort .endless ∧
      (∃ ancestors, tree.ancestors 1 = .ok ancestors ∧ 5 ∈ ancestors) ∧
      tree.preorder 3 <:+: tree.preorder 5 ∧
      ((tree.preorder 5).map (·.1)).Disjoint ((tree.preorder 6).map (·.1)) := by
  obtain ⟨tree, hbuild⟩ : ∃ tree, Tree.build 1 patternAndBody = .ok tree := ⟨_, rfl⟩
  have hsize : tree.size = 7 := by
    cases hbuild
    rfl
  have hlt : ∀ id ∈ [3, 5, 6], id < tree.size := by
    rw [hsize]
    decide
  obtain ⟨hsubtree, _, hturns, _, _, hmem, hother⟩ :=
    subtree_walks_preorder hbuild (hlt 5 (by decide))
  have hwalk : ∀ id ∈ [3, 5, 6], ∀ ids, List.map (·.1) <$> tree.subtree id = .ok ids →
      (tree.preorder id).map (·.1) = ids := by
    intro id hid ids h
    rw [(subtree_walks_preorder hbuild (hlt id hid)).1] at h
    exact Except.ok.inj h
  have hcase : (tree.preorder 5).map (·.1) = [5, 3, 2, 0, 1, 4] :=
    hwalk 5 (by decide) _ (by cases hbuild; rfl)
  have hpattern : (tree.preorder 3).map (·.1) = [3, 2, 0, 1] :=
    hwalk 3 (by decide) _ (by cases hbuild; rfl)
  have houtside : (tree.preorder 6).map (·.1) = [6] :=
    hwalk 6 (by decide) _ (by cases hbuild; rfl)
  refine ⟨tree, hbuild, hsubtree, hcase, ?_, ?_, ?_, ?_⟩
  · have hlength : (tree.preorder 5).length = 6 := by
      simpa using congrArg List.length hcase
    rw [hturns, hlength]
    rfl
  · exact ((hmem 1).mp (by rw [hcase]; decide)).resolve_left (by decide)
  · obtain hdisjoint | hpiece | hpiece := hother 3 (hlt 3 (by decide))
    · rw [hcase, hpattern] at hdisjoint
      exact absurd (hdisjoint (a := 3) (by decide)) (by decide)
    · have hmap := hpiece.map (·.1)
      rw [hcase, hpattern] at hmap
      exact absurd hmap (by decide)
    · exact hpiece
  · obtain hdisjoint | hpiece | hpiece := hother 6 (hlt 6 (by decide))
    · exact hdisjoint
    all_goals
      have hmap := hpiece.map (·.1)
      rw [hcase, houtside] at hmap
      exact absurd hmap (by decide)

end Tree

end Dataflow
