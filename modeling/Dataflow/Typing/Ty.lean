import Dataflow.Tree.Basic

/-!
# Dataflow.Typing.Ty

The types of nodes.  An instance type is named by its definition and is the
same as another only if the definition is: definitions are never
instantiated, so `Pair<Integer>` and `Pair<t>` both have the type `Pair`.
-/

namespace Dataflow

/-- A type that the language brings along. -/
inductive Primitive where
  | integer
  | boolean
  | string
  | float
  deriving DecidableEq, Repr

/-- The name of a primitive type. -/
def Primitive.name : Primitive → String
  | integer => "Integer"
  | boolean => "Boolean"
  | string => "String"
  | float => "Float"

/-- The type of a node. -/
inductive Ty where
  | primitive (primitive : Primitive)
  /-- The instances of a data type. -/
  | dataType (definition : NodeId)
  /-- The instances of a node type. -/
  | nodeType (definition : NodeId)
  /-- The node has no type: either it is of a kind that has none, or some
  reference it depends on is unresolved. -/
  | untyped
  deriving DecidableEq, Repr

namespace Ty

/-- Whether there is no type. -/
def isUntyped : Ty → Bool
  | untyped => true
  | _ => false

@[simp] theorem isUntyped_iff {ty : Ty} : ty.isUntyped = true ↔ ty = untyped := by
  cases ty <;> simp [isUntyped]

/-- The name of a definition, behind a keyword if one is asked for. -/
def renderInstance (tree : Tree) (showKind : Bool) (keyword : String) (definition : NodeId) :
    Result String := do
  let name := (← tree.kind definition).name?.getD "?"
  return if showKind then keyword ++ " " ++ name else name

/-- A type in words.  With `showKind`, an instance type says whether its
definition is a data type or a node type. -/
def render (tree : Tree) (showKind : Bool) : Ty → Result String
  | primitive p => .ok p.name
  | dataType definition => renderInstance tree showKind "datatype" definition
  | nodeType definition => renderInstance tree showKind "nodetype" definition
  | untyped => .ok "<none>"

end Ty

end Dataflow
