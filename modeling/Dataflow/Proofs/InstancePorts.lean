import Dataflow.Proofs.Failures
import Dataflow.Proofs.Positions

/-!
# Dataflow.Proofs.InstancePorts

Which ports `a.port` sees.  The resolver looks at the source of the instance: at
the node type that it names, or at the type of the port that it re-exposes.
Inference has a way of its own from an instance to its type.  They agree as long
as the sources of instances name nothing but node types: the ports that are
visible are those of the type of the instance
(`Workspace.instancePorts_eq_portsOf`).  After a check this holds for every
`a.port`, and its own type is that of the port (`Tree.ports_follow_instance_type`).
-/

namespace Dataflow

namespace Workspace

variable {ws : Workspace} {links : Links}

/-! ## The ports of a type -/

/-- The ports of a type, which only a node type has. -/
def portsOf (ws : Workspace) : Ty → Result Scope
  | .nodeType definition => ws.ports definition
  | .primitive _ | .dataType _ | .untyped => .ok []

theorem instancePorts_of_unbound {id : NodeId} (h : links.target id .instanceRef = none) :
    ws.instancePorts links id = .ok [] := by
  rw [instancePorts, portOwner, h]
  rfl

section Bound

variable (hf : ws.tree.IsForest) {id inst source : NodeId} {name : String}
  (htarget : links.target id .instanceRef = some inst)
  (hinst : ws.tree.kind inst = .ok (.instanceDecl name source))
include hf htarget hinst

/-- An instance of a definition has the ports of the definition. -/
theorem instancePorts_of_definition {nodeDef : String}
    (hsource : ws.tree.kind source = .ok (.source (.definition nodeDef)))
    (hnodeDef : ∀ definition, links.target source .nodeDef = some definition →
      ws.tree.HasSort NodeKind.isNodeType definition) :
    ws.instancePorts links id = ws.tree.infer links source >>= ws.portsOf := by
  rw [instancePorts, portOwner, htarget]
  simp only [hinst, hsource, ok_bind]
  cases hdefinition : links.target source .nodeDef with
  | none =>
    rw [hf.infer_of_lacksType (.unbound hsource (.inr rfl) hdefinition)]
    rfl
  | some definition =>
    -- A data type would be an error for the resolver and a type without ports for
    -- inference.
    obtain ⟨kind, hkind, hnodeType⟩ := hnodeDef definition hdefinition
    have hinstance : ws.tree.instanceType definition = .ok (.nodeType definition) := by
      cases kind <;> cases hnodeType
      rw [Tree.instanceType, hkind]
      rfl
    rw [Tree.infer_definition hsource hdefinition hinstance]
    rfl

/-- An instance that re-exposes a port has the ports of the type of the port. -/
theorem instancePorts_of_selfPort {port : String}
    (hsource : ws.tree.kind source = .ok (.source (.selfPort port))) :
    ws.instancePorts links id = ws.tree.infer links source >>= ws.portsOf := by
  rw [instancePorts, portOwner, htarget]
  simp only [hinst, hsource, ok_bind]
  cases hport : links.target source .sourcePort with
  | none =>
    rw [hf.infer_of_lacksType (.unbound hsource (.inl rfl) hport)]
    rfl
  | some port =>
    rw [hf.infer_eq_of_passesTo (.target hsource rfl hport)]
    refine congrArg (ws.tree.infer links port >>= ·) (funext fun ty => ?_)
    cases ty <;> rfl

/-- The ports of an instance are those of its type, whatever inference comes to. -/
theorem instancePorts_eq_portsOf {origin : InstanceSource}
    (hsource : ws.tree.kind source = .ok (.source origin))
    (hnodeDef : ∀ definition, links.target source .nodeDef = some definition →
      ws.tree.HasSort NodeKind.isNodeType definition) :
    ws.instancePorts links id = ws.tree.infer links inst >>= ws.portsOf := by
  rw [hf.infer_eq_of_passesTo (.child hinst rfl)]
  cases origin with
  | definition nodeDef => exact instancePorts_of_definition hf htarget hinst hsource hnodeDef
  | selfPort port => exact instancePorts_of_selfPort hf htarget hinst hsource

end Bound

end Workspace

/-! ## After a check -/

/-- A scope lists the ports of a type: those of a node type, in order, and none of
any other type. -/
def Tree.ListsPortsOf (tree : Tree) (scope : Scope) : Ty → Prop
  | .nodeType definition => ∃ name params ports iface body,
      tree.kind definition = .ok (.nodeType name params ports iface body) ∧
        List.Forall₂ tree.ListedAs ports scope
  | .primitive _ | .dataType _ | .untyped => scope = []

namespace Workspace

variable {ws : Workspace} {links : Links}

theorem listsPortsOf_of_portsOf (hplain : ws.naming = Naming.plain) (hf : ws.tree.IsForest)
    {ty : Ty} {scope : Scope} (h : ws.portsOf ty = .ok scope) : ws.tree.ListsPortsOf scope ty := by
  cases ty with
  | nodeType definition =>
    obtain ⟨name, params, ports, iface, body, hkind, hcandidates⟩ := exists_nodeType_of_ports h
    refine ⟨name, params, ports, iface, body, hkind, ?_⟩
    refine (isScopeOf_candidates hplain ?_).ok_iff.mp hcandidates
    intro port hmem
    exact hf.child_lt_size hkind
      (NodeKind.mem_children_of_mem_places (NodeKind.mem_places_of_mem_ports hmem))
  | primitive _ | dataType _ | untyped => exact (Except.ok.inj h).symm

/-- A port that `a.port` sees belongs to the node type that is the type of `a`. -/
theorem exists_nodeType_of_mem_instancePorts (hplain : ws.naming = Naming.plain)
    (hf : ws.tree.IsForest) {id : NodeId} {scope : Scope} {candidate : Candidate}
    (hscope : ws.instancePorts links id = .ok scope) (hmem : candidate ∈ scope) :
    ∃ inst definition kind, links.target id .instanceRef = some inst ∧
      ws.tree.infer links inst = .ok (.nodeType definition) ∧
      ws.tree.kind definition = .ok kind ∧ candidate.declaration ∈ kind.ports := by
  obtain ⟨inst, definition, htarget, _, hinfer, hports⟩ :=
    exists_owner_of_instancePorts hf hscope hmem
  obtain ⟨_, _, _, _, _, hkind, hcandidates⟩ := exists_nodeType_of_ports hports
  exact ⟨inst, definition, _, htarget, hinfer, hkind,
    declaration_mem_of_candidates hplain hcandidates hmem⟩

section Regular

variable (hr : ws.IsRegular) (hindex : ws.HasSoundIndex) (hs : ws.Supports links) {id : NodeId}
include hr hindex hs

/-- What `a.port` sees is what the type of `a` has. -/
theorem listsPortsOf_of_instancePorts {inst : NodeId} {scope : Scope}
    (htarget : links.target id .instanceRef = some inst)
    (hscope : ws.instancePorts links id = .ok scope) :
    ∃ ty, ws.tree.infer links inst = .ok ty ∧ ws.tree.ListsPortsOf scope ty := by
  have hw := hr.wellShaped
  obtain ⟨root, hroot, hunder⟩ := hs.inDocument_of_target htarget
  obtain ⟨name, source, origin, hinst, _, hsource⟩ :=
    exists_source_of_target hw hs hroot hunder htarget
  have hnodeDef : ∀ definition, links.target source .nodeDef = some definition →
      ws.tree.HasSort NodeKind.isNodeType definition := by
    intro definition hdefinition
    exact (hindex.nodeType (hs.offers_of_target hdefinition)).2
  rw [instancePorts_eq_portsOf hw.toIsForest htarget hinst hsource hnodeDef] at hscope
  obtain ⟨ty, hty, hports⟩ := bind_eq_ok_iff.mp hscope
  exact ⟨ty, hty, listsPortsOf_of_portsOf hr.plain hw.toIsForest hports⟩

/-- A bound `a.port` has the type that is written at the port. -/
theorem exists_type_of_target {inst port : String} {target : NodeId}
    (hkind : ws.tree.kind id = .ok (.expr (.nodePort inst port)))
    (htarget : links.target id .nodePort = some target) :
    ∃ name direction type, ws.tree.kind target = .ok (.port name direction type) ∧
      ws.tree.infer links id = ws.tree.infer links type := by
  have hf := hr.wellShaped.toIsForest
  obtain ⟨found, hfound, haccepts⟩ := exists_kind_of_target hr hindex hs htarget
  cases found <;> cases haccepts
  refine ⟨_, _, _, hfound, ?_⟩
  rw [hf.infer_eq_of_passesTo (.target hkind rfl htarget)]
  exact hf.infer_eq_of_passesTo (.child hfound rfl)

end Regular

end Workspace

/-- The resolver and inference agree on what an instance is.  After a check of a
grammatical tree `a.port` sees nothing if `a` is not bound, and otherwise the
ports of the type of the instance, in order, if this is a node type.  Whatever
`port` is bound to is one of these ports, and `a.port` has the type that is
written at it. -/
theorem Tree.ports_follow_instance_type {source : SourceId} {steps : List BuildStep} {tree : Tree}
    (hbuild : Tree.build source steps = .ok tree) (hgrammar : tree.isGrammatical = true)
    (checks : Checks) :
    ∃ index analysis, tree.workspace = .ok { tree, index } ∧ tree.check checks = .ok analysis ∧
      ∀ id inst port, tree.InDocument id → tree.kind id = .ok (.expr (.nodePort inst port)) →
        ∃ scope, Workspace.scope { tree, index } analysis.links ⟨id, .nodePort⟩ = .ok scope ∧
          (analysis.links.target id .instanceRef = none → scope = []) ∧
          (∀ found, analysis.links.target id .instanceRef = some found →
            ∃ ty, tree.infer analysis.links found = .ok ty ∧ tree.ListsPortsOf scope ty) ∧
          ∀ target, analysis.links.target id .nodePort = some target →
            (∃ found definition kind, analysis.links.target id .instanceRef = some found ∧
              tree.infer analysis.links found = .ok (.nodeType definition) ∧
              tree.kind definition = .ok kind ∧ target ∈ kind.ports) ∧
            ∃ name direction type ty, tree.kind target = .ok (.port name direction type) ∧
              tree.infer analysis.links type = .ok ty ∧ tree.infer analysis.links id = .ok ty := by
  have hw := Tree.wellShaped_of_build hbuild hgrammar
  obtain ⟨index, analysis, resolved, findings, hworkspace, hcheck, hr, hindex, hchecked⟩ :=
    hw.exists_check checks
  have hs := hchecked.supports
  have hc := hchecked.isConsistent hw
  refine ⟨index, analysis, hworkspace, hcheck, ?_⟩
  intro id inst port hid hkind
  have hmem : (Slot.nodePort, port) ∈ (NodeKind.expr (.nodePort inst port)).references := by
    simp [NodeKind.references, Expr.references]
  have hscope_eq : Workspace.scope { tree, index } analysis.links ⟨id, .nodePort⟩ =
      Workspace.instancePorts { tree, index } analysis.links id := by
    unfold Workspace.scope
    simp only [hkind, ok_bind]
    rfl
  have href : tree.IsReference ⟨⟨id, .nodePort⟩, port⟩ := ⟨hid, _, hkind, hmem⟩
  obtain ⟨scope, hscope⟩ := (hr.yields_scope hs href).exists_ok hindex
  have hports : Workspace.instancePorts { tree, index } analysis.links id = .ok scope :=
    hscope_eq.symm.trans hscope
  refine ⟨scope, hscope, ?_, ?_, ?_⟩
  · intro hnone
    rw [Workspace.instancePorts_of_unbound hnone] at hports
    exact (Except.ok.inj hports).symm
  · intro found htarget
    exact Workspace.listsPortsOf_of_instancePorts hr hindex hs htarget hports
  · intro target htarget
    obtain ⟨found, hfound, hlookup⟩ :=
      (hc.target_iff (hw.documentNode_iff.mpr ⟨hid, hkind⟩) hmem target).mp htarget
    cases hscope.symm.trans hfound
    obtain ⟨candidate, hcandidate, rfl⟩ := Scope.exists_of_lookup hlookup
    obtain ⟨name, direction, type, hport, hsame⟩ :=
      Workspace.exists_type_of_target hr hindex hs hkind htarget
    obtain ⟨ty, hty⟩ := hs.exists_infer hw hindex hid
    exact ⟨Workspace.exists_nodeType_of_mem_instancePorts hr.plain hw.toIsForest hports hcandidate,
      name, direction, type, ty, hport, hsame.symm.trans hty, hty⟩

/-- An instance `a` that re-exposes a port of a node type, an instance `b` that
re-exposes a port of another type, and references to both and to an instance that
is not there. -/
def Tree.threeInstances : List BuildStep := [
  .node (.type .integer),
  .node (.port "value" .input 0),
  .node (.type .string),
  .node (.port "extra" .input 2),
  .node (.nodeType "Face" [] [1, 3] none none),
  .node (.type (.apply "Face" [])),
  .node (.type (.parens 5)),
  .node (.port "inner" .input 6),
  .node (.type .integer),
  .node (.port "plain" .input 8),
  .node (.source (.selfPort "inner")),
  .node (.instanceDecl "a" 10),
  .node (.source (.selfPort "plain")),
  .node (.instanceDecl "b" 12),
  .node (.expr (.nodePort "a" "value")),
  .node (.expr (.nodePort "b" "value")),
  .node (.link 14 15),
  .node (.expr (.nodePort "c" "value")),
  .node (.expr (.selfPort "inner")),
  .node (.link 17 18),
  .node (.body [11, 13] [16, 19] []),
  .node (.nodeType "Outer" [] [7, 9] none (some 20)),
  .node (.file [4, 21])]

theorem Tree.ports_follow_instance_type_threeInstances :
    ∃ tree index analysis scope, Tree.build 1 Tree.threeInstances = .ok tree ∧
      tree.isGrammatical = true ∧ tree.workspace = .ok { tree, index } ∧
      tree.check {} = .ok analysis ∧
      analysis.links.target 14 .instanceRef = some 11 ∧
      tree.infer analysis.links 11 = .ok (.nodeType 4) ∧
      Workspace.scope { tree, index } analysis.links ⟨14, .nodePort⟩ = .ok scope ∧
      tree.ListsPortsOf scope (.nodeType 4) ∧ scope = [⟨"value", 1⟩, ⟨"extra", 3⟩] ∧
      analysis.links.target 14 .nodePort = some 1 ∧
      (∃ ty, tree.infer analysis.links 0 = .ok ty ∧ tree.infer analysis.links 14 = .ok ty) ∧
      analysis.links.target 15 .instanceRef = some 13 ∧
      tree.infer analysis.links 13 = .ok (.primitive .integer) ∧
      Workspace.scope { tree, index } analysis.links ⟨15, .nodePort⟩ = .ok [] ∧
      analysis.links.target 17 .instanceRef = none ∧
      Workspace.scope { tree, index } analysis.links ⟨17, .nodePort⟩ = .ok [] := by
  obtain ⟨tree, hbuild⟩ : ∃ tree, Tree.build 1 Tree.threeInstances = .ok tree := ⟨_, rfl⟩
  have hgrammar : tree.isGrammatical = true := by
    cases hbuild
    decide +kernel
  obtain ⟨index, analysis, hworkspace, hcheck, hports⟩ :=
    Tree.ports_follow_instance_type hbuild hgrammar {}
  have hf := Tree.isFinished_of_build hbuild
  have hfirst : tree.DocumentNode 14 (.expr (.nodePort "a" "value")) := by
    cases hbuild
    exact ⟨22, by decide, _, rfl, by decide⟩
  have hsecond : tree.DocumentNode 15 (.expr (.nodePort "b" "value")) := by
    cases hbuild
    exact ⟨22, by decide, _, rfl, by decide⟩
  have hthird : tree.DocumentNode 17 (.expr (.nodePort "c" "value")) := by
    cases hbuild
    exact ⟨22, by decide, _, rfl, by decide⟩
  have htargets : analysis.links.target 14 .instanceRef = some 11 ∧
      analysis.links.target 14 .nodePort = some 1 ∧
      analysis.links.target 15 .instanceRef = some 13 ∧
      analysis.links.target 17 .instanceRef = none := by
    cases hbuild
    cases hcheck
    decide +kernel
  obtain ⟨hinst, hport, hinst', hnone⟩ := htargets
  have hface : tree.infer analysis.links 11 = .ok (.nodeType 4) := by
    cases hbuild
    cases hcheck
    decide +kernel
  have hplain : tree.infer analysis.links 13 = .ok (.primitive .integer) := by
    cases hbuild
    cases hcheck
    decide +kernel
  have hvisible : Workspace.scope { tree, index } analysis.links ⟨14, .nodePort⟩ =
      .ok [⟨"value", 1⟩, ⟨"extra", 3⟩] := by
    cases hbuild
    cases hworkspace
    cases hcheck
    decide +kernel
  obtain ⟨hid, hkind⟩ := hf.documentNode_iff.mp hfirst
  obtain ⟨scope, hscope, _, hbound, htyped⟩ := hports 14 _ _ hid hkind
  obtain ⟨_, hty, hlists⟩ := hbound 11 hinst
  cases hface.symm.trans hty
  cases hvisible.symm.trans hscope
  obtain ⟨_, _, _, _, _, hvalue, htype, hsame⟩ := htyped 1 hport
  have hwritten : tree.kind 1 = .ok (.port "value" .input 0) := by
    cases hbuild
    rfl
  cases hwritten.symm.trans hvalue
  obtain ⟨hid', hkind'⟩ := hf.documentNode_iff.mp hsecond
  obtain ⟨_, hscope', _, hbound', _⟩ := hports 15 _ _ hid' hkind'
  obtain ⟨_, hty', hlists'⟩ := hbound' 13 hinst'
  cases hplain.symm.trans hty'
  cases hlists'
  obtain ⟨hid'', hkind''⟩ := hf.documentNode_iff.mp hthird
  obtain ⟨_, hscope'', hunbound, _⟩ := hports 17 _ _ hid'' hkind''
  cases hunbound hnone
  exact ⟨tree, index, analysis, _, hbuild, hgrammar, hworkspace, hcheck, hinst, hface, hscope,
    hlists, rfl, hport, ⟨_, htype, hsame⟩, hinst', hplain, hscope', hnone, hscope''⟩

end Dataflow
