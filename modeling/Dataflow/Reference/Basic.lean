import Dataflow.Reference.Slot
import Dataflow.Tree.Walk

/-!
# Dataflow.Reference.Basic

The references of a document: every site together with the name that stands
there, in preorder of the nodes and, within a node, in the order of its slots.
-/

namespace Dataflow

/-- A name in a slot of a node, referring to some declaration. -/
structure Reference where
  site : Site
  name : String
  deriving DecidableEq, Repr

/-- The references of one node. -/
def NodeKind.referencesAt (kind : NodeKind) (id : NodeId) : List Reference :=
  kind.references.map fun (slot, name) => ⟨⟨id, slot⟩, name⟩

/-- The references of a node and of everything below it. -/
def Tree.references (tree : Tree) (root : NodeId) : Result (List Reference) := do
  return (← tree.subtree root).flatMap fun (id, kind) => kind.referencesAt id

/-- The references of all nodes of a tree, in or out of a document, by node. -/
def Tree.everyReference (tree : Tree) : List Reference :=
  tree.nodes.toList.zipIdx.flatMap fun (node, id) => node.kind.referencesAt id

theorem NodeKind.mem_referencesAt {kind : NodeKind} {id : NodeId} {reference : Reference} :
    reference ∈ kind.referencesAt id ↔
      reference.site.node = id ∧ (reference.site.slot, reference.name) ∈ kind.references := by
  obtain ⟨⟨node, slot⟩, name⟩ := reference
  simp only [referencesAt, List.mem_map, Prod.exists, Reference.mk.injEq, Site.mk.injEq]
  constructor
  · rintro ⟨_, _, hmem, ⟨rfl, rfl⟩, rfl⟩
    exact ⟨rfl, hmem⟩
  · rintro ⟨rfl, hmem⟩
    exact ⟨slot, name, hmem, ⟨rfl, rfl⟩, rfl⟩

end Dataflow
