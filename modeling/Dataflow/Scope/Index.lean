import Std.Data.ExtTreeMap
import Dataflow.Tree.Walk

/-!
# Dataflow.Scope.Index

Which data types and node types a workspace declares.

Resolution only asks for the two lists of an `Index`.  `Documents` keeps the
declarations of every document under its source number, so that a document
can be replaced or removed, and lists them in increasing order of source.
-/

namespace Dataflow

/-- The kinds of declaration that are visible everywhere. -/
inductive DeclKind where
  | dataType
  | nodeType
  deriving DecidableEq, Repr

/-- A declaration that is visible everywhere. -/
structure Declaration where
  kind : DeclKind
  node : NodeId
  deriving DecidableEq, Repr

/-- The declarations that are visible everywhere, in order. -/
structure Index where
  dataTypes : List NodeId := []
  nodeTypes : List NodeId := []
  deriving DecidableEq, Repr

/-- The declarations of one kind. -/
def Index.declarations (index : Index) : DeclKind → List NodeId
  | .dataType => index.dataTypes
  | .nodeType => index.nodeTypes

/-! ## The declarations of a document -/

/-- What a node declares for everyone to see. -/
def NodeKind.declKind? : NodeKind → Option DeclKind
  | .dataType _ _ _ => some .dataType
  | .nodeType _ _ _ _ _ => some .nodeType
  | _ => none

/-- The declarations of a node and of everything below it, in preorder. -/
def Tree.declarations (tree : Tree) (root : NodeId) : Result (List Declaration) := do
  return (← tree.subtree root).filterMap fun (id, kind) => kind.declKind?.map (⟨·, id⟩)

/-! ## Documents -/

/-- The declarations of each document, by source. -/
structure Documents where
  bySource : Std.ExtTreeMap SourceId (List Declaration) compare := ∅

namespace Documents

/-- No documents. -/
def empty : Documents := {}

instance : EmptyCollection Documents := ⟨empty⟩

/-- The declarations of one source. -/
def get? (documents : Documents) (source : SourceId) : Option (List Declaration) :=
  documents.bySource[source]?

/-- Take over the declarations below `root`, in place of whatever was known
of its source. -/
def add (documents : Documents) (tree : Tree) (root : NodeId) : Result Documents := do
  let source := (← tree.span root).source
  let declarations ← tree.declarations root
  return ⟨documents.bySource.insert source declarations⟩

/-- Forget the declarations of a source. -/
def remove (documents : Documents) (source : SourceId) : Documents :=
  ⟨documents.bySource.erase source⟩

/-- All declarations, in increasing order of source. -/
def toList (documents : Documents) : List Declaration :=
  documents.bySource.toList.flatMap (·.2)

/-- The number of declarations. -/
def size (documents : Documents) : Nat := documents.toList.length

/-- The declarations of one kind, in increasing order of source. -/
def declarations (documents : Documents) (kind : DeclKind) : List NodeId :=
  (documents.toList.filter (·.kind = kind)).map (·.node)

/-- The documents as an index. -/
def index (documents : Documents) : Index where
  dataTypes := documents.declarations .dataType
  nodeTypes := documents.declarations .nodeType

/-- Take over the declarations below some roots, one after the other. -/
def addAll (documents : Documents) (tree : Tree) (roots : List NodeId) : Result Documents :=
  roots.foldlM (·.add tree ·) documents

/-- The documents of a tree. -/
def ofTree (tree : Tree) : Result Documents := addAll ∅ tree tree.files

@[simp] theorem declarations_index (documents : Documents) (kind : DeclKind) :
    documents.index.declarations kind = documents.declarations kind := by
  cases kind <;> rfl

end Documents

end Dataflow
