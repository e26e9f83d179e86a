import Mathlib.Data.Prod.Basic
import Dataflow.Proofs.Result
import Dataflow.Reference.Basic
import Dataflow.Scope.Basic
import Dataflow.Scope.Index
import Dataflow.Tree.Builder

/-!
# Dataflow.Proofs.Renaming

Other names for the declarations of a tree, and for whatever refers to them.
`Tree.rename` replaces every declared name and every name that stands in a
reference by its image under a function.  Children, spans and string literals
stay, and so does everything that does not read a name.

A renamed tree is built by the renamed steps (`Tree.build_rename`).
-/

namespace Dataflow

/-! ## Renaming -/

section Definitions

variable (f : String → String)

/-- An instance source by other names. -/
def InstanceSource.rename : InstanceSource → InstanceSource
  | selfPort port => selfPort (f port)
  | definition nodeDef => definition (f nodeDef)

/-- An expression by other names.  The text of a string is no name. -/
def Expr.rename : Expr → Expr
  | apply constructor args => apply (f constructor) args
  | variableDefinition name => variableDefinition (f name)
  | variableUsage name => variableUsage (f name)
  | nodePort inst port => nodePort (f inst) (f port)
  | selfPort port => selfPort (f port)
  | binary left op right => binary left op right
  | number bits => number bits
  | string text => string text
  | parens inner => parens inner

/-- A type expression by other names. -/
def TypeExpr.rename : TypeExpr → TypeExpr
  | apply dataType args => apply (f dataType) args
  | parameter name => parameter (f name)
  | integer => integer
  | boolean => boolean
  | string => string
  | float => float
  | parens inner => parens inner

/-- A node by other names. -/
def NodeKind.rename : NodeKind → NodeKind
  | dataType name params constructors => dataType (f name) params constructors
  | constructor name args => constructor (f name) args
  | typeParameter name => typeParameter (f name)
  | nodeType name params ports iface inside =>
    nodeType (f name) params ports (iface.map f) inside
  | port name direction portType => port (f name) direction portType
  | instanceDecl name origin => instanceDecl (f name) origin
  | source s => source (s.rename f)
  | expr e => expr (e.rename f)
  | type t => type (t.rename f)
  | file declarations => file declarations
  | body instances links matchings => body instances links matchings
  | link origin destination => link origin destination
  | matching scrutinee cases => matching scrutinee cases
  | matchCase pattern outcome => matchCase pattern outcome

def Node.rename (node : Node) : Node := { node with kind := node.kind.rename f }

/-- A tree by other names. -/
def Tree.rename (tree : Tree) : Tree := { tree with nodes := tree.nodes.map (Node.rename f) }

def Builder.rename (builder : Builder) : Builder :=
  { builder with toTree := builder.toTree.rename f }

def BuildStep.rename : BuildStep → BuildStep
  | node kind => node (kind.rename f)
  | switchSource source => switchSource source
  | setSpan id span => setSpan id span

def Reference.rename (reference : Reference) : Reference :=
  { reference with name := f reference.name }

def Candidate.rename (candidate : Candidate) : Candidate :=
  { candidate with name := f candidate.name }

end Definitions

variable {f : String → String}

/-! ## What a renaming changes -/

namespace NodeKind

variable (f) (kind : NodeKind)

@[simp] theorem name?_rename : (kind.rename f).name? = kind.name?.map f := by
  cases kind with
  | expr e => cases e <;> rfl
  | _ => rfl

@[simp] theorem references_rename :
    (kind.rename f).references = kind.references.map (Prod.map id f) := by
  cases kind with
  | nodeType _ _ _ iface _ => cases iface <;> rfl
  | source s => cases s <;> rfl
  | expr e => cases e <;> rfl
  | type t => cases t <;> rfl
  | _ => rfl

theorem referencesAt_rename (id : NodeId) :
    (kind.rename f).referencesAt id = (kind.referencesAt id).map (Reference.rename f) := by
  simp [referencesAt, Reference.rename]

/-! ## What a renaming leaves -/

@[simp] theorem handed_rename : (kind.rename f).handed = kind.handed := by
  cases kind with
  | expr e => cases e <;> rfl
  | type t => cases t <;> rfl
  | _ => rfl

@[simp] theorem children_rename : (kind.rename f).children = kind.children := by
  rw [← flatten_handed, handed_rename, flatten_handed]

@[simp] theorem hasSlot_rename (slot : Slot) :
    (kind.rename f).hasSlot slot = kind.hasSlot slot := by
  simp [hasSlot, Function.comp_def]

@[simp] theorem isFile_rename : (kind.rename f).isFile = kind.isFile := by
  cases kind <;> rfl

@[simp] theorem isGeneric_rename : (kind.rename f).isGeneric = kind.isGeneric := by
  cases kind <;> rfl

@[simp] theorem isNodeType_rename : (kind.rename f).isNodeType = kind.isNodeType := by
  cases kind <;> rfl

@[simp] theorem isBody_rename : (kind.rename f).isBody = kind.isBody := by
  cases kind <;> rfl

@[simp] theorem isMatchCase_rename : (kind.rename f).isMatchCase = kind.isMatchCase := by
  cases kind <;> rfl

@[simp] theorem declKind?_rename : (kind.rename f).declKind? = kind.declKind? := by
  cases kind <;> rfl

@[simp] theorem isParens_rename : (kind.rename f).isParens = kind.isParens := by
  cases kind with
  | expr e => cases e <;> rfl
  | _ => rfl

@[simp] theorem isApplication_rename : (kind.rename f).isApplication = kind.isApplication := by
  cases kind with
  | expr e => cases e <;> rfl
  | _ => rfl

@[simp] theorem isVariableDefinition_rename :
    (kind.rename f).isVariableDefinition = kind.isVariableDefinition := by
  cases kind with
  | expr e => cases e <;> rfl
  | _ => rfl

end NodeKind

/-- Names that differ before differ afterwards, so a name means what it meant. -/
theorem Scope.lookup_rename (hf : Function.Injective f) (scope : Scope) (name : String) :
    Scope.lookup (scope.map (Candidate.rename f)) (f name) = Scope.lookup scope name := by
  induction scope with
  | nil => rfl
  | cons candidate scope ih =>
    rw [List.map_cons, lookup_cons, lookup_cons, ih]
    simp only [Candidate.rename, hf.eq_iff]

/-! ## Renamed trees -/

namespace Tree

variable (f) (tree : Tree) (id : NodeId)

@[simp] theorem size_rename : (tree.rename f).size = tree.size := by
  simp [size, rename]

theorem node_rename : (tree.rename f).node id = Node.rename f <$> tree.node id := by
  have hnode : (tree.rename f).nodes[id]? = tree.nodes[id]?.map (Node.rename f) := by
    simp [rename]
  unfold node
  rw [hnode, size_rename]
  cases tree.nodes[id]? <;> rfl

theorem kind_rename : (tree.rename f).kind id = NodeKind.rename f <$> tree.kind id := by
  rw [kind, kind, node_rename]
  cases tree.node id <;> rfl

@[simp] theorem parent_rename : (tree.rename f).parent id = tree.parent id := by
  rw [parent, parent, node_rename]
  cases tree.node id <;> rfl

@[simp] theorem span_rename : (tree.rename f).span id = tree.span id := by
  rw [span, span, node_rename]
  cases tree.node id <;> rfl

end Tree

/-! ## Building a renamed tree -/

namespace Builder

variable (f) (builder : Builder)

theorem adopt_rename (parent : NodeId) (nodes : Array Node) (child : NodeId) :
    adopt parent (nodes.map (Node.rename f)) child =
      Array.map (Node.rename f) <$> adopt parent nodes child := by
  unfold adopt
  rw [Array.getElem?_map, Array.size_map]
  cases nodes[child]? with
  | none => rfl
  | some node =>
    have hparent : (node.rename f).parent = node.parent := rfl
    simp only [Option.map_some, hparent]
    split
    · rfl
    · rw [map_ok, Array.map_setIfInBounds]
      rfl

theorem foldlM_adopt_rename (parent : NodeId) (nodes : Array Node) (children : List NodeId) :
    children.foldlM (adopt parent) (nodes.map (Node.rename f)) =
      Array.map (Node.rename f) <$> children.foldlM (adopt parent) nodes := by
  have hfold := foldlM_comm (adopt_rename f parent) (h := id) nodes children
  rw [List.map_id] at hfold
  exact hfold

theorem coveringSpan_rename (children : List NodeId) :
    (builder.rename f).coveringSpan children = builder.coveringSpan children := by
  have hspan : (builder.rename f).toTree.span = builder.toTree.span :=
    funext fun id => builder.toTree.span_rename f id
  rw [coveringSpan, hspan]
  rfl

theorem make_rename (kind : NodeKind) :
    (builder.rename f).make (kind.rename f) = Builder.rename f <$> builder.make kind := by
  rw [make, make, NodeKind.handed_rename, add, add, coveringSpan_rename]
  cases builder.coveringSpan kind.handed.flatten with
  | error halt => rfl
  | ok span =>
    have hpush : (builder.rename f).nodes.push { kind := kind.rename f, span } =
        (builder.nodes.push { kind, span }).map (Node.rename f) := by
      rw [Array.map_push]
      rfl
    have hsize : (builder.rename f).size = builder.size := builder.toTree.size_rename f
    simp only [ok_bind, hpush, hsize, foldlM_adopt_rename, NodeKind.isFile_rename]
    cases kind.handed.flatten.foldlM (adopt builder.size)
      (builder.nodes.push { kind, span }) with
    | error halt => rfl
    | ok nodes => rfl

theorem setSpan_rename (id : NodeId) (span : Span) :
    (builder.rename f).setSpan id span = Builder.rename f <$> builder.setSpan id span := by
  have hnode : (builder.rename f).node id = Node.rename f <$> builder.node id :=
    builder.toTree.node_rename f id
  rw [setSpan, setSpan, hnode]
  cases builder.node id with
  | error halt => rfl
  | ok node =>
    simp [Builder.rename, Tree.rename, Array.map_setIfInBounds, Node.rename]

theorem step_rename (step : BuildStep) :
    (builder.rename f).step (step.rename f) = Builder.rename f <$> builder.step step := by
  cases step with
  | node kind => exact builder.make_rename f kind
  | switchSource source => rfl
  | setSpan id span => exact builder.setSpan_rename f id span

theorem finish_rename : (builder.rename f).finish = Tree.rename f <$> builder.finish := by
  have hparent : (builder.rename f).toTree.parent = builder.toTree.parent :=
    funext fun id => builder.toTree.parent_rename f id
  have hfiles : (builder.rename f).files = builder.files := rfl
  rw [finish, finish, hparent, hfiles]
  cases builder.files.mapM builder.toTree.parent with
  | error halt => rfl
  | ok parents =>
    simp only [ok_bind]
    split <;> rfl

end Builder

/-- The renamed steps build the renamed tree. -/
theorem Tree.build_rename (f : String → String) (source : SourceId) (steps : List BuildStep) :
    Tree.build source (steps.map (BuildStep.rename f)) =
      Tree.rename f <$> Tree.build source steps := by
  have hnew : (Builder.new source).rename f = Builder.new source := by
    simp [Builder.rename, Builder.new, rename]
  have hrun := foldlM_comm (fun builder step => Builder.step_rename f builder step)
    (Builder.new source) steps
  rw [hnew, ← Builder.run, ← Builder.run] at hrun
  rw [build, build, hrun]
  cases (Builder.new source).run steps with
  | error halt => rfl
  | ok builder => exact builder.finish_rename f

end Dataflow
