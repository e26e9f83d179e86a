import Dataflow.Id
import Dataflow.Reference.Slot

/-!
# Dataflow.Tree.Kind

What a node of the syntax tree can be.  A kind holds the names that the node
declares or refers to, and the ids of its children; what a reference resolves
to is kept elsewhere.

Everything else that a kind determines is read off it here: its children in
source order, the name it declares, the references it holds.
-/

namespace Dataflow

/-! ## The parts of a kind -/

/-- Which way data flows through a port. -/
inductive Direction where
  | input
  | output
  deriving DecidableEq, Repr

/-- An arithmetic operator. -/
inductive BinaryOp where
  | add
  | sub
  | mul
  | div
  deriving DecidableEq, Repr

/-- The right-hand side of an instance. -/
inductive InstanceSource where
  /-- `self.port`: re-exposes a port of the enclosing node type. -/
  | selfPort (port : String)
  /-- `Inner`: instantiates a node type. -/
  | definition (nodeDef : String)
  deriving DecidableEq, Repr

/-- An expression. -/
inductive Expr where
  /-- `x + y` -/
  | binary (left : NodeId) (op : BinaryOp) (right : NodeId)
  /-- `Mk(x, y)` -/
  | apply (constructor : String) (args : List NodeId)
  /-- The place in a pattern where a match variable is bound. -/
  | variableDefinition (name : String)
  /-- A use of a match variable. -/
  | variableUsage (name : String)
  /-- `a.output` -/
  | nodePort (inst port : String)
  /-- `self.output` -/
  | selfPort (port : String)
  /-- A number literal, given by the bits of its double-precision value. -/
  | number (bits : UInt64)
  /-- A string literal. -/
  | string (text : String)
  /-- `(x)` -/
  | parens (inner : NodeId)
  deriving DecidableEq, Repr

/-- A type expression. -/
inductive TypeExpr where
  | integer
  | boolean
  | string
  | float
  /-- `Tree<a>` -/
  | apply (dataType : String) (args : List NodeId)
  /-- `a`, a type parameter -/
  | parameter (name : String)
  /-- `(t)` -/
  | parens (inner : NodeId)
  deriving DecidableEq, Repr

/-! ## Kinds -/

/-- What a node is. -/
inductive NodeKind where
  /-- A whole document. -/
  | file (declarations : List NodeId)
  /-- `datatype Tree<a> { Leaf a, Node (Tree<a>) (Tree<a>) }` -/
  | dataType (name : String) (params constructors : List NodeId)
  /-- `Leaf a` -/
  | constructor (name : String) (args : List NodeId)
  /-- `a` in `datatype Tree<a>` -/
  | typeParameter (name : String)
  /-- `nodetype Convert<a>(in input of a) { .. }`, with the name of the
  interface it conforms to, if any. -/
  | nodeType (name : String) (params ports : List NodeId) (iface : Option String)
      (body : Option NodeId)
  /-- `in input of a` -/
  | port (name : String) (direction : Direction) (type : NodeId)
  /-- `{ a: Inner; a.output -> self.output; match .. }` -/
  | body (instances links matchings : List NodeId)
  /-- `a: Inner` or `a: self.port` -/
  | instanceDecl (name : String) (source : NodeId)
  /-- The right-hand side of an instance. -/
  | source (source : InstanceSource)
  /-- `a.output -> self.output` -/
  | link (origin destination : NodeId)
  /-- `match x { .. }` -/
  | matching (scrutinee : NodeId) (cases : List NodeId)
  /-- `Mk(a, b) => { .. }` -/
  | matchCase (pattern outcome : NodeId)
  /-- An expression. -/
  | expr (expr : Expr)
  /-- A type expression. -/
  | type (type : TypeExpr)
  deriving DecidableEq, Repr

/-! ## Children -/

/-- The children of an expression, in source order. -/
def Expr.children : Expr → List NodeId
  | binary left _ right => [left, right]
  | apply _ args => args
  | parens inner => [inner]
  | variableDefinition _ | variableUsage _ | nodePort _ _ | selfPort _ | number _ | string _ => []

/-- The children of a type expression, in source order. -/
def TypeExpr.children : TypeExpr → List NodeId
  | apply _ args => args
  | parens inner => [inner]
  | integer | boolean | string | float | parameter _ => []

/-! ## References -/

/-- The references of an instance source, each with the name it gives. -/
def InstanceSource.references : InstanceSource → List (Slot × String)
  | selfPort port => [(.sourcePort, port)]
  | definition nodeDef => [(.nodeDef, nodeDef)]

/-- The references of an expression, each with the name it gives. -/
def Expr.references : Expr → List (Slot × String)
  | apply constructor _ => [(.constructor, constructor)]
  | variableUsage name => [(.matchVariable, name)]
  | nodePort inst port => [(.instanceRef, inst), (.nodePort, port)]
  | selfPort port => [(.selfPort, port)]
  | binary _ _ _ | variableDefinition _ | number _ | string _ | parens _ => []

/-- The references of a type expression, each with the name it gives. -/
def TypeExpr.references : TypeExpr → List (Slot × String)
  | apply dataType _ => [(.dataType, dataType)]
  | parameter name => [(.typeParameter, name)]
  | integer | boolean | string | float | parens _ => []

namespace NodeKind

/-- The children of a node, in source order. -/
def children : NodeKind → List NodeId
  | file declarations => declarations
  | dataType _ params constructors => params ++ constructors
  | constructor _ args => args
  | typeParameter _ => []
  | nodeType _ params ports _ inside => params ++ ports ++ inside.toList
  | port _ _ portType => [portType]
  | body instances links matchings => instances ++ links ++ matchings
  | instanceDecl _ origin => [origin]
  | source _ => []
  | link origin destination => [origin, destination]
  | matching scrutinee cases => scrutinee :: cases
  | matchCase pattern outcome => [pattern, outcome]
  | expr e => e.children
  | type t => t.children

/-- The references of a node, each with the name it gives. -/
def references : NodeKind → List (Slot × String)
  | nodeType _ _ _ iface _ => iface.toList.map (Slot.iface, ·)
  | source s => s.references
  | expr e => e.references
  | type t => t.references
  | file _ | dataType _ _ _ | constructor _ _ | typeParameter _ | port _ _ _ | body _ _ _
  | instanceDecl _ _ | link _ _ | matching _ _ | matchCase _ _ => []

/-- Whether a node has the given slot. -/
def hasSlot (kind : NodeKind) (slot : Slot) : Bool := kind.references.any (·.1 = slot)

/-! ## Names and classes -/

/-- The name that a node declares, if it is a declaration. -/
def name? : NodeKind → Option String
  | dataType name _ _ | constructor name _ | typeParameter name | nodeType name _ _ _ _
  | port name _ _ | instanceDecl name _ | expr (.variableDefinition name) => some name
  | _ => none

/-- Whether a node is the root of a document. -/
def isFile : NodeKind → Bool
  | file _ => true
  | _ => false

/-- Whether a node can have type parameters. -/
def isGeneric : NodeKind → Bool
  | dataType _ _ _ | nodeType _ _ _ _ _ => true
  | _ => false

/-- Whether a node is a node type. -/
def isNodeType : NodeKind → Bool
  | nodeType _ _ _ _ _ => true
  | _ => false

/-- Whether a node is a body. -/
def isBody : NodeKind → Bool
  | body _ _ _ => true
  | _ => false

/-- Whether a node is a match case. -/
def isMatchCase : NodeKind → Bool
  | matchCase _ _ => true
  | _ => false

/-- Whether a node is an expression in parentheses. -/
def isParens : NodeKind → Bool
  | expr (.parens _) => true
  | _ => false

/-- Whether a node is a constructor application. -/
def isApplication : NodeKind → Bool
  | expr (.apply _ _) => true
  | _ => false

/-- Whether a node binds a match variable. -/
def isVariableDefinition : NodeKind → Bool
  | expr (.variableDefinition _) => true
  | _ => false

/-- What a node is, in words. -/
def describe : NodeKind → String
  | file _ => "file"
  | dataType _ _ _ => "data type"
  | constructor _ _ => "constructor"
  | typeParameter _ => "type parameter"
  | nodeType _ _ _ _ _ => "node type"
  | port _ _ _ => "port"
  | body _ _ _ => "node type body"
  | instanceDecl _ _ => "instance"
  | source _ => "instance source"
  | link _ _ => "link"
  | matching _ _ => "pattern matching"
  | matchCase _ _ => "pattern match definition"
  | expr _ => "expression"
  | type _ => "type expression"

end NodeKind

end Dataflow
