import Dataflow.Scope.Basic
import Dataflow.Scope.Index
import Dataflow.Typing.Infer

/-!
# Dataflow.Scope.Visible

Which declarations are visible from a reference site.

* A type sees the type parameters of the definition around it; a type
  application sees all data types and then all node types.
* An interface or an instance source sees all node types.
* `self.port` sees the ports of the node type around it.
* `a.port` sees the instances of all bodies around it, and for the port those
  of whatever node type the instance denotes.
* A constructor application sees the constructors of all data types.
* A use of a match variable sees the variables of all patterns around it.

Only the ports of `a.port` depend on references that are resolved already.
-/

namespace Dataflow

/-- A tree, the declarations visible everywhere in it, and the way they are
named. -/
structure Workspace where
  tree : Tree
  index : Index := {}
  naming : Naming := Naming.plain

namespace Workspace

/-! ## Candidates -/

/-- A declaration as a candidate. -/
def candidate (ws : Workspace) (declaration : NodeId) : Result Candidate := do
  match (← ws.tree.kind declaration).name? with
  | some name => return ws.naming declaration name
  | none => malformed (.unexpectedNode declaration .declaration)

/-- Some declarations as a scope. -/
def candidates (ws : Workspace) (declarations : List NodeId) : Result Scope :=
  declarations.mapM ws.candidate

/-! ## The scope of each slot -/

/-- The data types or node types of the workspace. -/
def globals (ws : Workspace) (kind : DeclKind) : Result Scope :=
  ws.candidates (ws.index.declarations kind)

/-- The constructors of all data types. -/
def constructors (ws : Workspace) : Result Scope := do
  let scopes ← ws.index.dataTypes.mapM fun dataType => do
    match ← ws.tree.kind dataType with
    | .dataType _ _ constructors => ws.candidates constructors
    | _ => malformed (.unexpectedNode dataType .dataType)
  return scopes.flatten

/-- The type parameters of the definition around a node. -/
def typeParameters (ws : Workspace) (id : NodeId) : Result Scope := do
  match ← ws.tree.nearest id NodeKind.isGeneric with
  | none => malformed (.missingAncestor id .genericDefinition)
  | some (_, .dataType _ params _) => ws.candidates params
  | some (_, .nodeType _ params _ _ _) => ws.candidates params
  | some (other, _) => malformed (.unexpectedNode other .genericDefinition)

/-- The ports of a node type. -/
def ports (ws : Workspace) (nodeType : NodeId) : Result Scope := do
  match ← ws.tree.kind nodeType with
  | .nodeType _ _ ports _ _ => ws.candidates ports
  | _ => malformed (.unexpectedNode nodeType .nodeType)

/-- The ports of the node type around a node. -/
def ownPorts (ws : Workspace) (id : NodeId) : Result Scope := do
  match ← ws.tree.nearest id NodeKind.isNodeType with
  | none => malformed (.missingAncestor id .nodeType)
  | some (nodeType, _) => ws.ports nodeType

/-- The instances of all bodies around a node, innermost first.  The body
around a body in a match case is the one that holds the match. -/
def instances (ws : Workspace) (id : NodeId) : Result Scope := do
  match ← ws.tree.enclosing id NodeKind.isBody with
  | [] => malformed (.missingAncestor id .body)
  | bodies =>
    let scopes ← bodies.mapM fun
      | (_, .body instances _ _) => ws.candidates instances
      | (other, _) => malformed (.unexpectedNode other .body)
    return scopes.flatten

/-- The match variables of all match cases around a node, innermost first:
every variable bound anywhere in the pattern of a case. -/
def matchVariables (ws : Workspace) (id : NodeId) : Result Scope := do
  let scopes ← (← ws.tree.enclosing id NodeKind.isMatchCase).mapM fun
    | (_, .matchCase pattern _) => do
      let bound := (← ws.tree.subtree pattern).filter (·.2.isVariableDefinition)
      ws.candidates (bound.map (·.1))
    | (other, _) => malformed (.unexpectedNode other .matchCase)
  return scopes.flatten

/-! ## Ports of instances -/

/-- Where the ports of an instance come from. -/
inductive PortOwner where
  /-- Some reference on the way is unresolved. -/
  | unknown
  /-- A node type. -/
  | definition (nodeType : NodeId)
  /-- The node type that is the type of a port. -/
  | typeOf (port : NodeId)
  deriving DecidableEq, Repr

/-- Where the ports of the instance in `a.port` come from: from the node type
that the instance's source names, or from the type of the port that it
re-exposes. -/
def portOwner (ws : Workspace) (links : Links) (id : NodeId) : Result PortOwner := do
  match links.target id .instanceRef with
  | none => return .unknown
  | some inst =>
    match ← ws.tree.kind inst with
    | .instanceDecl _ source =>
      match ← ws.tree.kind source with
      | .source (.definition _) =>
        return (links.target source .nodeDef).elim .unknown .definition
      | .source (.selfPort _) =>
        return (links.target source .sourcePort).elim .unknown .typeOf
      | _ => malformed (.unexpectedNode source .instanceSource)
    | _ => malformed (.unexpectedNode inst .instanceDecl)

/-- The ports of the instance in `a.port`.  As long as the instance is not
resolved, or its source is not, none are visible. -/
def instancePorts (ws : Workspace) (links : Links) (id : NodeId) : Result Scope := do
  match ← ws.portOwner links id with
  | .unknown => return []
  | .definition nodeType => ws.ports nodeType
  | .typeOf port =>
    match ← ws.tree.infer links port with
    | .nodeType nodeType => ws.ports nodeType
    | _ => return []

/-! ## Scopes -/

/-- The declarations visible from a site. -/
def scope (ws : Workspace) (links : Links) (site : Site) : Result Scope := do
  if (← ws.tree.kind site.node).hasSlot site.slot then
    match site.slot with
    | .typeParameter => ws.typeParameters site.node
    | .dataType => return (← ws.globals .dataType) ++ (← ws.globals .nodeType)
    | .iface | .nodeDef => ws.globals .nodeType
    | .sourcePort | .selfPort => ws.ownPorts site.node
    | .instanceRef => ws.instances site.node
    | .nodePort => ws.instancePorts links site.node
    | .constructor => ws.constructors
    | .matchVariable => ws.matchVariables site.node
  else
    malformed (.noSuchSlot site.node site.slot)

/-- The declarations visible from some sites, those of the first site first. -/
def jointScope (ws : Workspace) (links : Links) (sites : List Site) : Result Scope := do
  return (← sites.mapM (ws.scope links)).flatten

/-! ## What a scope depends on -/

/-- Only the ports of `a.port` depend on what is resolved already. -/
theorem scope_eq_of_ne_nodePort {ws : Workspace} {site : Site} (h : site.slot ≠ .nodePort)
    (links links' : Links) : ws.scope links site = ws.scope links' site := by
  obtain ⟨node, slot⟩ := site
  cases slot with
  | nodePort => exact absurd rfl h
  | _ => rfl

end Workspace

end Dataflow
