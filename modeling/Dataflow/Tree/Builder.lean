import Dataflow.Tree.Basic

/-!
# Dataflow.Tree.Builder

Trees are built bottom up.  A node is made after its children and adopts
them, so a child has a smaller id than its parent; a node is adopted at most
once.  The span of a new node covers the spans of those children that lie in
the current source.

What a new node adopts is put together from the lists that it is made with
(`NodeKind.handed`), in their order.  These are the children that are read off
its kind afterwards (`NodeKind.flatten_handed`).

A whole construction is a list of `BuildStep`s, run by `Tree.build`.
-/

namespace Dataflow

/-! ## What a new node is made with -/

/-- The lists of nodes that an expression is made with. -/
def Expr.handed : Expr → List (List NodeId)
  | binary left _ right => [[left, right]]
  | apply _ args => [args]
  | parens inner => [[inner]]
  | variableDefinition _ | variableUsage _ | nodePort _ _ | selfPort _ | number _ | string _ => []

/-- The lists of nodes that a type expression is made with. -/
def TypeExpr.handed : TypeExpr → List (List NodeId)
  | apply _ args => [args]
  | parens inner => [[inner]]
  | integer | boolean | string | float | parameter _ => []

/-- The lists of nodes that a node is made with. -/
def NodeKind.handed : NodeKind → List (List NodeId)
  | file declarations => [declarations]
  | dataType _ params constructors => [params, constructors]
  | constructor _ args => [args]
  | typeParameter _ => []
  | nodeType _ params ports _ inside => [params, ports, inside.toList]
  | port _ _ portType => [[portType]]
  | body instances links matchings => [instances, links, matchings]
  | instanceDecl _ origin => [[origin]]
  | source _ => []
  | link origin destination => [[origin, destination]]
  | matching scrutinee cases => [[scrutinee], cases]
  | matchCase pattern outcome => [[pattern, outcome]]
  | expr e => e.handed
  | type t => t.handed

theorem Expr.flatten_handed (e : Expr) : e.handed.flatten = e.children := by
  cases e <;> simp [handed, children]

theorem TypeExpr.flatten_handed (t : TypeExpr) : t.handed.flatten = t.children := by
  cases t <;> simp [handed, children]

/-- A node is made with its children. -/
theorem NodeKind.flatten_handed (kind : NodeKind) : kind.handed.flatten = kind.children := by
  cases kind with
  | expr e => exact e.flatten_handed
  | type t => exact t.flatten_handed
  | _ => simp [handed, children]

/-! ## Builders -/

/-- A tree under construction. -/
structure Builder extends Tree where
  /-- The source that new nodes belong to. -/
  source : SourceId
  deriving DecidableEq, Repr

/-- One step of a construction. -/
inductive BuildStep where
  /-- Make a node, which adopts its children. -/
  | node (kind : NodeKind)
  /-- Go on with the nodes of another source. -/
  | switchSource (source : SourceId)
  /-- Change the span of a node that exists. -/
  | setSpan (node : NodeId) (span : Span)
  deriving DecidableEq, Repr

namespace Builder

/-- No nodes yet. -/
def new (source : SourceId) : Builder where
  source := source

/-! ## Making a node -/

/-- The span of a new node with the given children.  Every child is looked
at; those outside the current source do not count. -/
def coveringSpan (builder : Builder) (children : List NodeId) : Result Span := do
  let spans ← children.mapM builder.toTree.span
  match spans.filter (·.source = builder.source) with
  | [] => return .origin builder.source
  | first :: rest => first.joinAll rest

/-- Make `parent` the parent of `child`. -/
def adopt (parent : NodeId) (nodes : Array Node) (child : NodeId) : Result (Array Node) :=
  match nodes[child]? with
  | none => abort (.outOfBounds nodes.size child)
  | some node =>
    if node.parent.isSome then
      abort .secondParent
    else
      .ok (nodes.setIfInBounds child { node with parent := some parent })

/-- Make a node that adopts some others in order.  Its id is the number of
nodes so far. -/
def add (builder : Builder) (kind : NodeKind) (children : List NodeId) : Result Builder := do
  let id := builder.size
  let span ← builder.coveringSpan children
  let nodes ← children.foldlM (adopt id) (builder.nodes.push { kind, span })
  let files := if kind.isFile then builder.files ++ [id] else builder.files
  return { builder with nodes, files }

/-- Make a node that adopts what it is made with. -/
def make (builder : Builder) (kind : NodeKind) : Result Builder :=
  builder.add kind kind.handed.flatten

/-- Change the span of a node.  Spans that were derived from it stay. -/
def setSpan (builder : Builder) (id : NodeId) (span : Span) : Result Builder := do
  let node ← builder.node id
  return { builder with nodes := builder.nodes.setIfInBounds id { node with span } }

/-! ## Whole constructions -/

/-- Carry out one step. -/
def step (builder : Builder) : BuildStep → Result Builder
  | .node kind => builder.make kind
  | .switchSource source => .ok { builder with source }
  | .setSpan node span => builder.setSpan node span

/-- Carry out some steps in order. -/
def run (builder : Builder) (steps : List BuildStep) : Result Builder := steps.foldlM step builder

/-- The finished tree.  A document that was adopted is no document. -/
def finish (builder : Builder) : Result Tree := do
  let parents ← builder.files.mapM builder.toTree.parent
  if parents.all Option.isNone then
    return builder.toTree
  else
    abort .nestedFile

/-! ## Growth -/

/-- Adoption changes no node's place. -/
theorem size_adopt {parent child : NodeId} {nodes nodes' : Array Node}
    (h : adopt parent nodes child = .ok nodes') : nodes'.size = nodes.size := by
  unfold adopt at h
  split at h
  · cases h
  · split at h
    · cases h
    · cases h
      simp

theorem size_foldlM_adopt {parent : NodeId} {children : List NodeId} {nodes nodes' : Array Node}
    (h : children.foldlM (adopt parent) nodes = .ok nodes') : nodes'.size = nodes.size := by
  induction children generalizing nodes with
  | nil => cases h; rfl
  | cons child children ih =>
    rw [List.foldlM_cons] at h
    cases hc : adopt parent nodes child with
    | error halt => rw [hc] at h; cases h
    | ok between =>
      rw [hc] at h
      rw [ih h, size_adopt hc]

/-- A new node comes behind all others. -/
theorem size_add {builder builder' : Builder} {kind : NodeKind} {children : List NodeId}
    (h : builder.add kind children = .ok builder') : builder'.size = builder.size + 1 := by
  unfold add at h
  cases hs : builder.coveringSpan children with
  | error halt => rw [hs] at h; cases h
  | ok span =>
    rw [hs] at h
    cases hn : children.foldlM (adopt builder.size) (builder.nodes.push { kind, span }) with
    | error halt => simp only [hn, bind, Except.bind] at h; cases h
    | ok nodes =>
      simp only [hn, bind, Except.bind, pure, Except.pure] at h
      cases h
      have := size_foldlM_adopt hn
      simpa [Tree.size] using this

theorem run_append (builder : Builder) (first second : List BuildStep) :
    builder.run (first ++ second) = builder.run first >>= (·.run second) := by
  simp only [run, List.foldlM_append]

end Builder

/-- Build a tree by some steps, beginning in the given source. -/
def Tree.build (source : SourceId) (steps : List BuildStep) : Result Tree := do
  (← (Builder.new source).run steps).finish

end Dataflow
