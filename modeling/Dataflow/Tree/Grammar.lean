import Dataflow.Tree.Walk

/-!
# Dataflow.Tree.Grammar

Which nodes may stand where.  A builder puts any node below any other; a tree
is *grammatical* if below every document each node stands in a place that
asks for a node of its category.
-/

namespace Dataflow

/-- What the grammar tells apart when it asks for a node. -/
inductive Category where
  | file
  /-- A data type or a node type. -/
  | definition
  | constructor
  | typeParameter
  | port
  | body
  | instanceDecl
  | source
  | link
  | matching
  | matchCase
  | expr
  | type
  deriving DecidableEq, Repr

namespace NodeKind

/-- The category of a node. -/
def category : NodeKind → Category
  | file _ => .file
  | dataType _ _ _ | nodeType _ _ _ _ _ => .definition
  | constructor _ _ => .constructor
  | typeParameter _ => .typeParameter
  | port _ _ _ => .port
  | body _ _ _ => .body
  | instanceDecl _ _ => .instanceDecl
  | source _ => .source
  | link _ _ => .link
  | matching _ _ => .matching
  | matchCase _ _ => .matchCase
  | expr _ => .expr
  | type _ => .type

/-- The children of a node, each with the category that its place asks for. -/
def places : NodeKind → List (NodeId × Category)
  | file declarations => declarations.map (·, .definition)
  | dataType _ params constructors =>
    params.map (·, .typeParameter) ++ constructors.map (·, .constructor)
  | constructor _ args => args.map (·, .type)
  | typeParameter _ => []
  | nodeType _ params ports _ inside =>
    params.map (·, .typeParameter) ++ ports.map (·, .port) ++ inside.toList.map (·, .body)
  | port _ _ portType => [(portType, .type)]
  | body instances links matchings =>
    instances.map (·, .instanceDecl) ++ links.map (·, .link) ++ matchings.map (·, .matching)
  | instanceDecl _ origin => [(origin, .source)]
  | source _ => []
  | link origin destination => [(origin, .expr), (destination, .expr)]
  | matching scrutinee cases => (scrutinee, .expr) :: cases.map (·, .matchCase)
  | matchCase pattern outcome => [(pattern, .expr), (outcome, .body)]
  | expr e => e.children.map (·, .expr)
  | type t => t.children.map (·, .type)

/-- Every child has a place, and nothing else has. -/
theorem map_fst_places (kind : NodeKind) : kind.places.map (·.1) = kind.children := by
  have hmap (ids : List NodeId) (category : Category) :
      (ids.map fun id => (id, category)).map (·.1) = ids := by
    rw [List.map_map]
    exact List.map_id ids
  cases kind <;> simp only [places, children, List.map_append, List.map_cons, List.map_nil, hmap]

end NodeKind

namespace Tree

/-- Whether a node is of the category that its place asks for. -/
def fits (tree : Tree) (place : NodeId × Category) : Bool :=
  match tree.nodes[place.1]? with
  | some node => node.kind.category = place.2
  | none => false

/-- Whether below every document each node fits its place. -/
def isGrammatical (tree : Tree) : Bool :=
  tree.files.all fun root =>
    match tree.subtree root with
    | .ok entries => entries.all fun (_, kind) => kind.places.all tree.fits
    | .error _ => false

end Tree

end Dataflow
