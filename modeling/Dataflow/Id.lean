/-!
# Dataflow.Id

The two kinds of number that name things: a node of a tree and a source
document.  Both are plain naturals, so that order and bounds on them are
ordinary arithmetic.
-/

namespace Dataflow

/-- A node of a tree, named by its place in the order of creation. -/
abbrev NodeId := Nat

/-- A source document.  Documents are numbered from 1. -/
abbrev SourceId := Nat

/-- How messages name a node. -/
def NodeId.label (node : NodeId) : String := s!"NodeId({node})"

/-- How messages name a source. -/
def SourceId.label (source : SourceId) : String := s!"SourceId({source})"

end Dataflow
