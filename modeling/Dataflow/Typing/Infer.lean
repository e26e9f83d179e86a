import Dataflow.Reference.Links
import Dataflow.Tree.Walk
import Dataflow.Typing.Ty

/-!
# Dataflow.Typing.Infer

The type of a node, computed from the tree and the resolved references.

A single node either settles its type or has the type of one other node: the
type of a port is that of its type expression, the type of a reference that
of its target, and so on.  `Tree.typeStep` says which; `Tree.infer` follows
the chain of nodes to its end.  The nodes that it passes are the *trail*.

Hand-made references can make a chain run in a circle.  A chain through a
tree of `n` nodes that has not ended after `n + 1` nodes never ends, and
`infer` faults with `Fault.endless`.
-/

namespace Dataflow

/-- What a single node says about its type. -/
inductive TypeStep where
  /-- The type is settled. -/
  | settled (ty : Ty)
  /-- The type is that of another node. -/
  | sameAs (node : NodeId)
  deriving DecidableEq, Repr

namespace TypeStep

/-- The type of a reference to `target`: that of the target, or none if the
reference is unresolved. -/
def ofTarget : Option NodeId → TypeStep
  | some target => sameAs target
  | none => settled .untyped

end TypeStep

namespace Tree

/-- The type of the instances of a data or node type. -/
def instanceType (tree : Tree) (definition : NodeId) : Result Ty := do
  match ← tree.kind definition with
  | .dataType _ _ _ => return .dataType definition
  | .nodeType _ _ _ _ _ => return .nodeType definition
  | _ => malformed (.unexpectedNode definition .dataOrNodeType)

/-- The instance type of a referenced definition, or none if the reference is
unresolved. -/
def instanceTypeOf (tree : Tree) : Option NodeId → Result Ty
  | some definition => tree.instanceType definition
  | none => .ok .untyped

/-- The type of a constructor is the data type around it. -/
def constructorType (tree : Tree) (id : NodeId) : Result Ty := do
  match ← tree.parent id with
  | none => malformed (.missingAncestor id .dataType)
  | some owner =>
    match ← tree.kind owner with
    | .dataType _ _ _ => return .dataType owner
    | _ => malformed (.unexpectedNode owner .dataType)

/-- The type of a type parameter is that of the definition around it. -/
def typeParameterType (tree : Tree) (id : NodeId) : Result Ty := do
  match ← tree.parent id with
  | none => malformed (.missingAncestor id .genericDefinition)
  | some owner => tree.instanceType owner

/-- A match variable has the type that the matched constructor declares for
the argument in whose place it stands.  Only a variable that is itself an
argument has a place; one in parentheses has none. -/
def variableStep (tree : Tree) (links : Links) (id : NodeId) : Result TypeStep := do
  match (← tree.lineage id).dropWhile (·.2.isParens) with
  | (application, .expr (.apply _ args)) :: _ =>
    match args.idxOf? id, links.target application .constructor with
    | some place, some constructor =>
      match ← tree.kind constructor with
      | .constructor _ declared => return .ofTarget declared[place]?
      | _ => malformed (.unexpectedNode constructor .constructor)
    | _, _ => return .settled .untyped
  | _ => return .settled .untyped

/-- What an expression says about its type.  An arithmetic expression has the
type of its left operand, and every number is a float. -/
def exprStep (tree : Tree) (links : Links) (id : NodeId) : Expr → Result TypeStep
  | .binary left _ _ => .ok (.sameAs left)
  | .apply _ _ => .ok (.ofTarget (links.target id .constructor))
  | .variableDefinition _ => tree.variableStep links id
  | .variableUsage _ => .ok (.ofTarget (links.target id .matchVariable))
  | .nodePort _ _ => .ok (.ofTarget (links.target id .nodePort))
  | .selfPort _ => .ok (.ofTarget (links.target id .selfPort))
  | .number _ => .ok (.settled (.primitive .float))
  | .string _ => .ok (.settled (.primitive .string))
  | .parens inner => .ok (.sameAs inner)

/-- What a type expression says about its type. -/
def typeExprStep (tree : Tree) (links : Links) (id : NodeId) : TypeExpr → Result TypeStep
  | .integer => .ok (.settled (.primitive .integer))
  | .boolean => .ok (.settled (.primitive .boolean))
  | .string => .ok (.settled (.primitive .string))
  | .float => .ok (.settled (.primitive .float))
  | .apply _ _ => .settled <$> tree.instanceTypeOf (links.target id .dataType)
  | .parameter _ => .ok (.ofTarget (links.target id .typeParameter))
  | .parens inner => .ok (.sameAs inner)

/-- What a single node says about its type. -/
def typeStep (tree : Tree) (links : Links) (id : NodeId) : Result TypeStep := do
  match ← tree.kind id with
  | .file _ | .body _ _ _ | .link _ _ | .matching _ _ | .matchCase _ _ =>
    return .settled .untyped
  | .dataType _ _ _ => return .settled (.dataType id)
  | .nodeType _ _ _ _ _ => return .settled (.nodeType id)
  | .constructor _ _ => .settled <$> tree.constructorType id
  | .typeParameter _ => .settled <$> tree.typeParameterType id
  | .port _ _ type => return .sameAs type
  | .instanceDecl _ source => return .sameAs source
  | .source (.definition _) => .settled <$> tree.instanceTypeOf (links.target id .nodeDef)
  | .source (.selfPort _) => return .ofTarget (links.target id .sourcePort)
  | .expr e => tree.exprStep links id e
  | .type t => tree.typeExprStep links id t

/-! ## Following the chain -/

/-- The type of a node whose chain has at most `bound` nodes. -/
def inferWithin (tree : Tree) (links : Links) : (bound : Nat) → NodeId → Result Ty
  | 0, _ => abort .endless
  | bound + 1, id => do
    match ← tree.typeStep links id with
    | .settled ty => return ty
    | .sameAs next => tree.inferWithin links bound next

/-- The type of a node. -/
def infer (tree : Tree) (links : Links) (id : NodeId) : Result Ty :=
  tree.inferWithin links (tree.size + 1) id

/-- The first `bound` nodes of the chain from a node. -/
def trailWithin (tree : Tree) (links : Links) : (bound : Nat) → NodeId → List NodeId
  | 0, _ => []
  | bound + 1, id =>
    id :: match tree.typeStep links id with
      | .ok (.sameAs next) => tree.trailWithin links bound next
      | _ => []

/-- The nodes that inference passes on its way from a node. -/
def trail (tree : Tree) (links : Links) (id : NodeId) : List NodeId :=
  tree.trailWithin links (tree.size + 1) id

end Tree

end Dataflow
