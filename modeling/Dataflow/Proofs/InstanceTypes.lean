import Dataflow.Proofs.Inference
import Dataflow.Scope.Visible

/-!
# Dataflow.Proofs.InstanceTypes

What instance types name.  Each node that settles a type looks at the definition
that the type is to name: at itself, at the definition around it, or at the target
of a reference.  So whatever inference finds, in a tree of any shape and by any
table, an instance type names a definition of its own kind
(`Tree.IsForest.ensures_infer`).  The shape errors of inference are about
definitions and constructors, and never about node types alone.

It follows that every type that is inferred has a name to be shown, and that the
ports of an instance that re-exposes a port are never looked for in something that
is no node type (`Tree.instance_types_name_definitions`).
-/

namespace Dataflow

/-- An instance type names a definition of its own kind. -/
def Ty.NamesDefinition (tree : Tree) : Ty → Prop
  | dataType definition => ∃ name params constructors,
      tree.kind definition = .ok (.dataType name params constructors)
  | nodeType definition => ∃ name params ports iface body,
      tree.kind definition = .ok (.nodeType name params ports iface body)
  | primitive _ | untyped => True

/-- A type that a node settles names a definition. -/
def TypeStep.NamesDefinition (tree : Tree) : TypeStep → Prop
  | settled ty => ty.NamesDefinition tree
  | sameAs _ => True

/-- The shape errors of inference: a definition is missing around a declaration, or
is none, or an argument is matched against no constructor. -/
inductive ShapeError.OfInference : ShapeError → Prop
  | missingAncestor (node : NodeId) (expected : Enclosure) :
      OfInference (.missingAncestor node expected)
  | dataType (node : NodeId) : OfInference (.unexpectedNode node .dataType)
  | dataOrNodeType (node : NodeId) : OfInference (.unexpectedNode node .dataOrNodeType)
  | constructor (node : NodeId) : OfInference (.unexpectedNode node .constructor)

namespace Tree

variable {tree : Tree} {links : Links} {id : NodeId} {S : ShapeError → Prop}

/-! ## Types that nodes settle -/

/-- To look at a node is no matter of shape. -/
theorem ensures_node (tree : Tree) (id : NodeId) :
    Ensures (fun node => tree.node id = .ok node) S (tree.node id) := by
  cases hnode : tree.nodes[id]? with
  | some node =>
    rw [Tree.node, hnode]
    rfl
  | none =>
    rw [Tree.node, hnode]
    trivial

theorem ensures_kind (tree : Tree) (id : NodeId) :
    Ensures (fun kind => tree.kind id = .ok kind) S (tree.kind id) := by
  refine (tree.ensures_node id).bind ?_
  intro node hnode
  exact kind_of_node hnode

theorem ensures_parent (tree : Tree) (id : NodeId) :
    Ensures (fun parent => tree.parent id = .ok parent) S (tree.parent id) := by
  refine (tree.ensures_node id).bind ?_
  intro node hnode
  exact parent_of_node hnode

theorem ensures_instanceType (tree : Tree) (definition : NodeId) :
    Ensures (Ty.NamesDefinition tree) ShapeError.OfInference (tree.instanceType definition) := by
  refine (tree.ensures_kind definition).bind ?_
  intro kind hkind
  cases kind with
  | dataType name params constructors => exact ⟨name, params, constructors, hkind⟩
  | nodeType name params ports iface body => exact ⟨name, params, ports, iface, body, hkind⟩
  | _ => exact .dataOrNodeType definition

theorem ensures_instanceTypeOf (tree : Tree) (target : Option NodeId) :
    Ensures (Ty.NamesDefinition tree) ShapeError.OfInference (tree.instanceTypeOf target) := by
  cases target with
  | none => trivial
  | some definition => exact tree.ensures_instanceType definition

theorem ensures_constructorType (tree : Tree) (id : NodeId) :
    Ensures (Ty.NamesDefinition tree) ShapeError.OfInference (tree.constructorType id) := by
  refine (tree.ensures_parent id).bind ?_
  intro parent _
  cases parent with
  | none => exact .missingAncestor id .dataType
  | some owner =>
    refine (tree.ensures_kind owner).bind ?_
    intro kind hkind
    cases kind with
    | dataType name params constructors => exact ⟨name, params, constructors, hkind⟩
    | _ => exact .dataType owner

theorem ensures_typeParameterType (tree : Tree) (id : NodeId) :
    Ensures (Ty.NamesDefinition tree) ShapeError.OfInference (tree.typeParameterType id) := by
  refine (tree.ensures_parent id).bind ?_
  intro parent _
  cases parent with
  | none => exact .missingAncestor id .genericDefinition
  | some owner => exact tree.ensures_instanceType owner

theorem namesDefinition_of_ownType? {kind : NodeKind} {ty : Ty} (hkind : tree.kind id = .ok kind)
    (h : kind.ownType? id = some ty) : ty.NamesDefinition tree := by
  cases kind with
  | dataType name params constructors =>
    cases h
    exact ⟨name, params, constructors, hkind⟩
  | nodeType name params ports iface body =>
    cases h
    exact ⟨name, params, ports, iface, body, hkind⟩
  | expr e => cases e <;> cases h <;> trivial
  | type t => cases t <;> cases h <;> trivial
  | _ => cases h <;> trivial

theorem namesDefinition_ofTarget (tree : Tree) (target : Option NodeId) :
    (TypeStep.ofTarget target).NamesDefinition tree := by
  cases target <;> trivial

namespace IsForest

variable (hf : tree.IsForest)
include hf

theorem ensures_variableStep (links : Links) (hid : id < tree.size) :
    Ensures (TypeStep.NamesDefinition tree) ShapeError.OfInference
      (tree.variableStep links id) := by
  obtain ⟨application, _, _, place, _, _, _, hstep⟩ | ⟨_, hstep⟩ := hf.variableStep_cases links hid
  · rw [hstep]
    cases links.target application .constructor with
    | none => trivial
    | some constructor =>
      refine (tree.ensures_kind constructor).bind ?_
      intro kind _
      cases kind with
      | constructor name declared => exact tree.namesDefinition_ofTarget declared[place]?
      | _ => exact .constructor constructor
  · rw [hstep]
    trivial

/-- A node that settles a type names a definition of the right kind. -/
theorem ensures_typeStep (links : Links) (id : NodeId) :
    Ensures (TypeStep.NamesDefinition tree) ShapeError.OfInference (tree.typeStep links id) := by
  by_cases hid : id < tree.size
  · obtain ⟨kind, hkind⟩ := exists_kind_of_lt hid
    have hsays : tree.Says links id kind (tree.typeStep links id) := says_typeStep hkind
    generalize tree.typeStep links id = said at hsays
    cases hsays with
    | own hown => exact namesDefinition_of_ownType? hkind hown
    | child _ => trivial
    | target _ => exact tree.namesDefinition_ofTarget _
    | definition _ => exact (tree.ensures_instanceTypeOf _).map fun _ hty => hty
    | constructor _ _ => exact (tree.ensures_constructorType id).map fun _ hty => hty
    | typeParameter _ => exact (tree.ensures_typeParameterType id).map fun _ hty => hty
    | matchVariable _ => exact hf.ensures_variableStep links hid
  · rw [typeStep, Tree.kind, node_eq_abort_iff.mpr ⟨Nat.not_lt.mp hid, rfl⟩]
    trivial

/-- What inference finds at the end of a chain names a definition, however long the
chain is. -/
theorem ensures_inferWithin (links : Links) (bound : Nat) (id : NodeId) :
    Ensures (Ty.NamesDefinition tree) ShapeError.OfInference
      (tree.inferWithin links bound id) := by
  induction bound generalizing id with
  | zero => trivial
  | succ bound ih =>
    rw [inferWithin]
    refine (hf.ensures_typeStep links id).bind ?_
    intro step hstep
    cases step with
    | settled ty => exact hstep
    | sameAs next => exact ih next

theorem ensures_infer (links : Links) (id : NodeId) :
    Ensures (Ty.NamesDefinition tree) ShapeError.OfInference (tree.infer links id) :=
  hf.ensures_inferWithin links (tree.size + 1) id

end IsForest

end Tree

/-! ## Types in words -/

/-- A definition that declares a name is shown by it. -/
theorem Ty.renderInstance_of_name {tree : Tree} {definition : NodeId} {kind : NodeKind}
    {name : String} (hkind : tree.kind definition = .ok kind) (hname : kind.name? = some name)
    (showKind : Bool) (keyword : String) :
    renderInstance tree showKind keyword definition =
      .ok (if showKind then keyword ++ " " ++ name else name) := by
  rw [renderInstance, hkind, ok_bind, hname]
  rfl

/-- A keyword in front of a name is more than the placeholder for a name. -/
theorem Ty.eq_placeholder {showKind : Bool} {keyword name : String} (hkeyword : 0 < keyword.length)
    (h : (if showKind then keyword ++ " " ++ name else name) = "?") : name = "?" := by
  cases showKind with
  | false => exact h
  | true =>
    have hlength : (keyword ++ " " ++ name).length = 1 := congrArg String.length h
    have hspace : (" ".length) = 1 := rfl
    rw [String.length_append, String.length_append, hspace] at hlength
    lia

/-- The placeholder for a name is shown only of a definition that bears it as its
name. -/
theorem Ty.NamesDefinition.exists_render {tree : Tree} {ty : Ty} (h : ty.NamesDefinition tree)
    (showKind : Bool) :
    ∃ text, ty.render tree showKind = .ok text ∧ (text = "?" → ∃ definition kind,
      (ty = .dataType definition ∨ ty = .nodeType definition) ∧
        tree.kind definition = .ok kind ∧ kind.name? = some "?") := by
  cases ty with
  | primitive p =>
    have hname : p.name ≠ "?" := by cases p <;> decide
    exact ⟨p.name, rfl, fun htext => absurd htext hname⟩
  | untyped => exact ⟨"<none>", rfl, fun htext => absurd htext (by decide)⟩
  | dataType definition =>
    obtain ⟨name, params, constructors, hkind⟩ := h
    refine ⟨_, renderInstance_of_name hkind rfl showKind "datatype", ?_⟩
    intro htext
    exact ⟨definition, _, .inl rfl, hkind, congrArg some (eq_placeholder (by decide) htext)⟩
  | nodeType definition =>
    obtain ⟨name, params, ports, iface, body, hkind⟩ := h
    refine ⟨_, renderInstance_of_name hkind rfl showKind "nodetype", ?_⟩
    intro htext
    exact ⟨definition, _, .inr rfl, hkind, congrArg some (eq_placeholder (by decide) htext)⟩

/-! ## Ports that are re-exposed -/

namespace Workspace

variable {ws : Workspace} {links : Links}

/-- Declarations make a scope, or one of them declares no name. -/
theorem ensures_candidates (ws : Workspace) (declarations : List NodeId) :
    Ensures (fun _ => True) (fun error => ∃ node, error = .unexpectedNode node .declaration)
      (ws.candidates declarations) := by
  refine (ensures_mapM (Q := fun _ => True) ?_).imp (fun _ _ => trivial) fun _ herror => herror
  intro declaration _
  refine (ws.tree.ensures_kind declaration).bind ?_
  intro kind _
  cases kind.name? with
  | some name => trivial
  | none => exact ⟨declaration, rfl⟩

section SelfPort

variable {id inst source : NodeId} {name port : String}
  (htarget : links.target id .instanceRef = some inst)
  (hinst : ws.tree.kind inst = .ok (.instanceDecl name source))
  (hsource : ws.tree.kind source = .ok (.source (.selfPort port)))
include htarget hinst hsource

theorem portOwner_of_selfPort : ws.portOwner links id =
    .ok ((links.target source .sourcePort).elim .unknown .typeOf) := by
  rw [portOwner, htarget]
  simp only [hinst, hsource, ok_bind]
  rfl

/-- The ports of a node type that is the type of a port are seen through an
instance that re-exposes the port. -/
theorem instancePorts_of_nodeType {exposed definition : NodeId} {typeName : String}
    {params ports : List NodeId} {iface : Option String} {body : Option NodeId}
    (hexposed : links.target source .sourcePort = some exposed)
    (hinfer : ws.tree.infer links exposed = .ok (.nodeType definition))
    (hkind : ws.tree.kind definition = .ok (.nodeType typeName params ports iface body)) :
    ws.instancePorts links id = ws.candidates ports := by
  rw [instancePorts, portOwner_of_selfPort htarget hinst hsource, hexposed]
  simp only [Option.elim_some, ok_bind, hinfer, Workspace.ports, hkind]

/-- No port is looked for in something that is no node type. -/
theorem ensures_instancePorts (hf : ws.tree.IsForest) :
    Ensures (fun _ => True) (fun error => ∀ node, error ≠ .unexpectedNode node .nodeType)
      (ws.instancePorts links id) := by
  rw [instancePorts, portOwner_of_selfPort htarget hinst hsource, ok_bind]
  cases hexposed : links.target source .sourcePort with
  | none => trivial
  | some exposed =>
    refine ((hf.ensures_infer links exposed).imp (fun _ hty => hty) ?_).bind ?_
    · rintro error herror node rfl
      cases herror
    · intro ty hty
      cases ty with
      | primitive _ | dataType _ | untyped => trivial
      | nodeType definition =>
        obtain ⟨typeName, params, ports, iface, body, hkind⟩ := hty
        simp only [Workspace.ports, hkind, ok_bind]
        refine (ws.ensures_candidates ports).imp (fun _ _ => trivial) ?_
        rintro error ⟨declaration, rfl⟩ node
        simp

theorem scope_ne_unexpectedNode (hf : ws.tree.IsForest) (node : NodeId) :
    ws.scope links ⟨id, .nodePort⟩ ≠ malformed (.unexpectedNode node .nodeType) := by
  have hports := ensures_instancePorts htarget hinst hsource hf
  have hscope : Ensures (fun _ => True)
      (fun error => ∀ node, error ≠ .unexpectedNode node .nodeType)
      (ws.scope links ⟨id, .nodePort⟩) := by
    refine (ws.tree.ensures_kind id).bind ?_
    intro kind _
    split
    · exact hports
    · exact nofun
  intro h
  exact hscope.of_malformed h node rfl

end SelfPort

end Workspace

/-! ## Instance types -/

/-- Instance types name definitions of the right kind, in a tree of any shape and by
any table.  A data type that is inferred is one, and a node type too, and both are
shown by the names they declare; so the placeholder for a name is not shown unless
a definition has it as its name.  The ports of an instance that re-exposes a port
are never looked for in something that is no node type: if the port has a node type,
they are listed. -/
theorem Tree.instance_types_name_definitions {source : SourceId} {steps : List BuildStep}
    {tree : Tree} (hbuild : Tree.build source steps = .ok tree) (links : Links) :
    (∀ id definition, tree.infer links id = .ok (.dataType definition) →
      ∃ name params constructors,
        tree.kind definition = .ok (.dataType name params constructors) ∧
        ∀ showKind, (Ty.dataType definition).render tree showKind =
          .ok (if showKind then "datatype " ++ name else name)) ∧
    (∀ id definition, tree.infer links id = .ok (.nodeType definition) →
      ∃ name params ports iface body,
        tree.kind definition = .ok (.nodeType name params ports iface body) ∧
        ∀ showKind, (Ty.nodeType definition).render tree showKind =
          .ok (if showKind then "nodetype " ++ name else name)) ∧
    (∀ id ty showKind, tree.infer links id = .ok ty →
      ∃ text, ty.render tree showKind = .ok text ∧ (text = "?" → ∃ definition kind,
        (ty = .dataType definition ∨ ty = .nodeType definition) ∧
          tree.kind definition = .ok kind ∧ kind.name? = some "?")) ∧
    ∀ index naming id inst name origin port, links.target id .instanceRef = some inst →
      tree.kind inst = .ok (.instanceDecl name origin) →
      tree.kind origin = .ok (.source (.selfPort port)) →
      (∀ node, Workspace.scope { tree, index, naming } links ⟨id, .nodePort⟩ ≠
        malformed (.unexpectedNode node .nodeType)) ∧
      ∀ exposed definition, links.target origin .sourcePort = some exposed →
        tree.infer links exposed = .ok (.nodeType definition) →
        ∃ typeName params ports iface body,
          tree.kind definition = .ok (.nodeType typeName params ports iface body) ∧
          Workspace.instancePorts { tree, index, naming } links id =
            Workspace.candidates { tree, index, naming } ports := by
  have hf := (isFinished_of_build hbuild).toIsForest
  have hnames : ∀ {id ty}, tree.infer links id = .ok ty → ty.NamesDefinition tree :=
    fun hinfer => (hf.ensures_infer links _).of_ok hinfer
  refine ⟨?_, ?_, ?_, ?_⟩
  · intro id definition hinfer
    obtain ⟨name, params, constructors, hkind⟩ := hnames hinfer
    exact ⟨name, params, constructors, hkind, fun showKind =>
      Ty.renderInstance_of_name hkind rfl showKind "datatype"⟩
  · intro id definition hinfer
    obtain ⟨name, params, ports, iface, body, hkind⟩ := hnames hinfer
    exact ⟨name, params, ports, iface, body, hkind, fun showKind =>
      Ty.renderInstance_of_name hkind rfl showKind "nodetype"⟩
  · intro id ty showKind hinfer
    exact (hnames hinfer).exists_render showKind
  · intro index naming id inst name origin port htarget hinst hsource
    have hforest : (Workspace.tree { tree, index, naming }).IsForest := hf
    refine ⟨Workspace.scope_ne_unexpectedNode htarget hinst hsource hforest, ?_⟩
    intro exposed definition hexposed hinfer
    obtain ⟨typeName, params, ports, iface, body, hkind⟩ := hnames hinfer
    exact ⟨typeName, params, ports, iface, body, hkind,
      Workspace.instancePorts_of_nodeType htarget hinst hsource hexposed hinfer hkind⟩

/-- Nodes that stand in no document: a node type with a port, an instance that
re-exposes something, and a use of a match variable. -/
def strayNodes : List BuildStep := [
  .node (.type (.apply "N" [])),
  .node (.port "out" .output 0),
  .node (.nodeType "N" [] [1] none none),
  .node (.type (.parameter "a")),
  .node (.source (.selfPort "in")),
  .node (.instanceDecl "inst" 4),
  .node (.expr (.nodePort "inst" "out")),
  .node (.dataType "D" [] []),
  .node (.expr (.variableUsage "x"))]

/-- References that make little sense: a type parameter that is a type, a port that
is a type, and a match variable that is a data type. -/
def strayLinks : Links :=
  (((((∅ : Links).bind ⟨0, .dataType⟩ 2).bind ⟨3, .typeParameter⟩ 0).bind ⟨4, .sourcePort⟩ 3).bind
    ⟨6, .instanceRef⟩ 5).bind ⟨8, .matchVariable⟩ 7

theorem Tree.instance_types_name_definitions_strayNodes :
    ∃ tree, Tree.build 1 strayNodes = .ok tree ∧
      tree.infer strayLinks 8 = .ok (.dataType 7) ∧
      tree.kind 7 = .ok (.dataType "D" [] []) ∧
      (Ty.dataType 7).render tree true = .ok "datatype D" ∧
      tree.infer strayLinks 3 = .ok (.nodeType 2) ∧
      tree.kind 2 = .ok (.nodeType "N" [] [1] none none) ∧
      (Ty.nodeType 2).render tree false = .ok "N" ∧
      (∀ node, Workspace.scope { tree } strayLinks ⟨6, .nodePort⟩ ≠
        malformed (.unexpectedNode node .nodeType)) ∧
      Workspace.instancePorts { tree } strayLinks 6 = Workspace.candidates { tree } [1] := by
  obtain ⟨tree, hbuild⟩ : ∃ tree, Tree.build 1 strayNodes = .ok tree := ⟨_, rfl⟩
  have hinfer : tree.infer strayLinks 8 = .ok (.dataType 7) ∧
      tree.infer strayLinks 3 = .ok (.nodeType 2) := by
    cases hbuild
    exact ⟨rfl, rfl⟩
  have hkinds : tree.kind 5 = .ok (.instanceDecl "inst" 4) ∧
      tree.kind 4 = .ok (.source (.selfPort "in")) ∧ tree.kind 7 = .ok (.dataType "D" [] []) ∧
      tree.kind 2 = .ok (.nodeType "N" [] [1] none none) := by
    cases hbuild
    exact ⟨rfl, rfl, rfl, rfl⟩
  obtain ⟨hinst, horigin, hdata, hnode⟩ := hkinds
  obtain ⟨hdataType, hnodeType, _, hports⟩ :=
    Tree.instance_types_name_definitions hbuild strayLinks
  obtain ⟨_, _, _, hfound, hrender⟩ := hdataType 8 7 hinfer.1
  cases kind_inj hdata hfound
  obtain ⟨_, _, _, _, _, hfound, hrender'⟩ := hnodeType 3 2 hinfer.2
  cases kind_inj hnode hfound
  obtain ⟨hscope, hexposed⟩ := hports {} Naming.plain 6 5 "inst" 4 "in" rfl hinst horigin
  obtain ⟨_, _, _, _, _, hfound, hlisted⟩ := hexposed 3 2 rfl hinfer.2
  cases kind_inj hnode hfound
  exact ⟨tree, hbuild, hinfer.1, hdata, hrender true, hinfer.2, hnode, hrender' false, hscope,
    hlisted⟩

end Dataflow
