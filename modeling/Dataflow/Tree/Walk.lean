import Dataflow.Tree.Basic

/-!
# Dataflow.Tree.Walk

Ways through a tree: upwards along the parents (`lineage`, `nearest`,
`enclosing`) and downwards in preorder (`subtree`).  Both give each node
together with its kind.

A walk in a tree of `n` nodes that has not ended after `n + 1` nodes has been
somewhere twice and never ends; it faults with `Fault.endless`.  No tree made
by a builder has such a walk.
-/

namespace Dataflow

namespace Tree

/-! ## Upwards -/

/-- The nodes from `start` up to its root, at most `bound` of them. -/
def climb (tree : Tree) : (bound : Nat) → (start : Option NodeId) →
    Result (List (NodeId × NodeKind))
  | _, none => .ok []
  | 0, some _ => abort .endless
  | bound + 1, some id => do
    let node ← tree.node id
    let rest ← tree.climb bound node.parent
    return (id, node.kind) :: rest

/-- The proper ancestors of a node, innermost first. -/
def lineage (tree : Tree) (id : NodeId) : Result (List (NodeId × NodeKind)) := do
  tree.climb (tree.size + 1) (← tree.parent id)

/-- The ids of the proper ancestors of a node, innermost first. -/
def ancestors (tree : Tree) (id : NodeId) : Result (List NodeId) := do
  return (← tree.lineage id).map (·.1)

/-- The nearest proper ancestor of a node whose kind is of some sort. -/
def nearest (tree : Tree) (id : NodeId) (sort : NodeKind → Bool) :
    Result (Option (NodeId × NodeKind)) := do
  return (← tree.lineage id).find? (sort ·.2)

/-- All proper ancestors of a node whose kind is of some sort, innermost
first. -/
def enclosing (tree : Tree) (id : NodeId) (sort : NodeKind → Bool) :
    Result (List (NodeId × NodeKind)) := do
  return (← tree.lineage id).filter (sort ·.2)

/-! ## Downwards -/

/-- Visit the nodes of a stack, at most `bound` of them.  The children of a
visited node are put in its place on the stack. -/
def visit (tree : Tree) : (bound : Nat) → (stack : List NodeId) →
    Result (List (NodeId × NodeKind))
  | _, [] => .ok []
  | 0, _ :: _ => abort .endless
  | bound + 1, id :: stack => do
    let kind ← tree.kind id
    let rest ← tree.visit bound (kind.children ++ stack)
    return (id, kind) :: rest

/-- A node and everything below it, in preorder. -/
def subtree (tree : Tree) (id : NodeId) : Result (List (NodeId × NodeKind)) :=
  tree.visit (tree.size + 1) [id]

end Tree

end Dataflow
