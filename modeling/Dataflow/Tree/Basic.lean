import Dataflow.Halt
import Dataflow.Text.Span
import Dataflow.Tree.Kind

/-!
# Dataflow.Tree.Basic

The syntax tree of a workspace.  The nodes of all documents stand in one
array, and a node's id is its place there.  A node knows its parent; its
children are part of its kind.

Every look at a node goes through `Tree.node`, which faults on an id that the
tree does not have.
-/

namespace Dataflow

/-- A node of a tree. -/
structure Node where
  kind : NodeKind
  parent : Option NodeId := none
  span : Span
  deriving DecidableEq, Repr

/-- The nodes of some documents, and the roots of the documents in the order
in which they were made. -/
structure Tree where
  nodes : Array Node := #[]
  files : List NodeId := []
  deriving DecidableEq, Repr

namespace Tree

/-- The number of nodes. -/
def size (tree : Tree) : Nat := tree.nodes.size

/-- The node with the given id. -/
def node (tree : Tree) (id : NodeId) : Result Node :=
  match tree.nodes[id]? with
  | some node => .ok node
  | none => abort (.outOfBounds tree.size id)

/-- What a node is. -/
def kind (tree : Tree) (id : NodeId) : Result NodeKind := do
  return (← tree.node id).kind

/-- The parent of a node, if it has one. -/
def parent (tree : Tree) (id : NodeId) : Result (Option NodeId) := do
  return (← tree.node id).parent

/-- Where a node stands in the text. -/
def span (tree : Tree) (id : NodeId) : Result Span := do
  return (← tree.node id).span

/-- The children of a node, in source order. -/
def children (tree : Tree) (id : NodeId) : Result (List NodeId) := do
  return (← tree.node id).kind.children

/-! ## Looking at a node -/

theorem node_eq_ok_iff {tree : Tree} {id : NodeId} {node : Node} :
    tree.node id = .ok node ↔ tree.nodes[id]? = some node := by
  unfold Tree.node
  split <;> simp_all [abort]

/-- A look at a node faults exactly on the ids that the tree does not have. -/
theorem node_eq_abort_iff {tree : Tree} {id : NodeId} {fault : Fault} :
    tree.node id = abort fault ↔ tree.size ≤ id ∧ fault = .outOfBounds tree.size id := by
  unfold Tree.node
  split
  · rename_i h
    have := Array.getElem?_eq_some_iff.mp h
    simp [abort, size]
    lia
  · rename_i h
    simp only [abort, Except.error.injEq, Halt.fault.injEq, size, Array.getElem?_eq_none_iff] at h ⊢
    exact ⟨fun he => ⟨h, he.symm⟩, fun he => he.2.symm⟩

theorem kind_of_node {tree : Tree} {id : NodeId} {node : Node} (h : tree.node id = .ok node) :
    tree.kind id = .ok node.kind := by
  simp only [kind, h]; rfl

theorem parent_of_node {tree : Tree} {id : NodeId} {node : Node} (h : tree.node id = .ok node) :
    tree.parent id = .ok node.parent := by
  simp only [parent, h]; rfl

theorem span_of_node {tree : Tree} {id : NodeId} {node : Node} (h : tree.node id = .ok node) :
    tree.span id = .ok node.span := by
  simp only [span, h]; rfl

theorem children_of_node {tree : Tree} {id : NodeId} {node : Node}
    (h : tree.node id = .ok node) : tree.children id = .ok node.kind.children := by
  simp only [children, h]; rfl

end Tree

end Dataflow
