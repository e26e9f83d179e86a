import Dataflow.Proofs.Consistency

/-!
# Dataflow.Proofs.Ownership

Whose declarations references are bound to.  The resolver looks for the owner
of a declaration upwards from the reference or in the index, inference looks
for it at the parent of the declaration and in the table.  They find the same
owner: after a check each binding points at a declaration of the right kind
that belongs to the right owner (`Tree.check_binds_rightfully`).
-/

namespace Dataflow

/-! ## Owners -/

namespace Tree

variable {tree : Tree} {links : Links}

/-- The nearest ancestor of a node whose kind is of some sort: every other
ancestor of the sort is around it. -/
structure IsNearest (tree : Tree) (sort : NodeKind → Bool) (id ancestor : NodeId) : Prop where
  inside : tree.Inside id ancestor
  exists_kind : ∃ kind, tree.kind ancestor = .ok kind ∧ sort kind = true
  under_other {other : NodeId} {kind : NodeKind} : tree.Inside id other →
    tree.kind other = .ok kind → sort kind = true → tree.Under ancestor other

/-- The search upwards finds the nearest ancestor. -/
theorem IsForest.isNearest (hf : tree.IsForest) {id ancestor : NodeId} {kind : NodeKind}
    {sort : NodeKind → Bool} (h : tree.nearest id sort = .ok (some (ancestor, kind))) :
    tree.IsNearest sort id ancestor := by
  obtain ⟨hinside, hkind, hsort⟩ := hf.of_nearest_eq_some h
  refine ⟨hinside, ⟨kind, hkind, hsort⟩, ?_⟩
  intro other okind hother hokind hosort
  obtain ⟨all, hall, h⟩ := bind_eq_ok_iff.mp h
  obtain ⟨_, nearer, farther, rfl, hnearer⟩ := List.find?_eq_some_iff_append.mp (Except.ok.inj h)
  obtain ⟨parent, hparent, _⟩ := bind_eq_ok_iff.mp hall
  have hpairwise := List.Pairwise.of_cons (hf.pairwise_lineage (lt_size_of_parent hparent) hall)
  have hmem := (hf.mem_lineage_iff hall).mpr ⟨hother, hokind⟩
  obtain hmem | hmem := List.mem_append.mp hmem
  · -- What comes before the one that was found is of another sort.
    have hnot := hnearer _ hmem
    simp [hosort] at hnot
  · obtain heq | hmem := List.mem_cons.mp hmem
    · cases heq
      exact .refl _
    · rw [List.map_append, List.map_cons, List.pairwise_append] at hpairwise
      have hlt := List.rel_of_pairwise_cons hpairwise.2.1 (List.mem_map_of_mem hmem)
      obtain habove | hbelow := IsForest.under_total hinside.under hother.under
      · exact habove
      · exact absurd (hf.le_of_under hbelow) (Nat.not_le.mpr hlt)

theorem IsForest.isNearest_unique (hf : tree.IsForest) {id first second : NodeId}
    {sort : NodeKind → Bool} (hfirst : tree.IsNearest sort id first)
    (hsecond : tree.IsNearest sort id second) : first = second := by
  obtain ⟨_, hkind, hsort⟩ := hfirst.exists_kind
  obtain ⟨_, hkind', hsort'⟩ := hsecond.exists_kind
  exact Nat.le_antisymm (hf.le_of_under (hfirst.under_other hsecond.inside hkind' hsort'))
    (hf.le_of_under (hsecond.under_other hfirst.inside hkind hsort))

/-- A port that belongs to a node. -/
def IsPortOf (tree : Tree) (port owner : NodeId) : Prop :=
  (∃ name direction type, tree.kind port = .ok (.port name direction type)) ∧
    tree.parent port = .ok (some owner)

/-- What a slot of a node may be bound to: of which kind it is, whom it belongs
to, and what follows for the type of the node. -/
def IsRightful (tree : Tree) (links : Links) (id : NodeId) (slot : Slot) (target : NodeId) :
    Prop :=
  match slot with
  | .typeParameter =>
    (∃ name, tree.kind target = .ok (.typeParameter name)) ∧
      ∃ owner ty, tree.parent target = .ok (some owner) ∧
        tree.IsNearest NodeKind.isGeneric id owner ∧
        tree.instanceType owner = .ok ty ∧ tree.infer links id = .ok ty
  | .dataType => ∃ kind, tree.kind target = .ok kind ∧ kind.isGeneric = true
  | .iface | .nodeDef => ∃ kind, tree.kind target = .ok kind ∧ kind.isNodeType = true
  | .sourcePort | .selfPort =>
    ∃ owner, tree.IsPortOf target owner ∧ tree.IsNearest NodeKind.isNodeType id owner
  | .instanceRef =>
    (∃ name source, tree.kind target = .ok (.instanceDecl name source)) ∧
      ∃ owner kind, tree.parent target = .ok (some owner) ∧ tree.kind owner = .ok kind ∧
        kind.isBody = true ∧ tree.Inside id owner
  | .nodePort =>
    ∃ inst definition, links.target id .instanceRef = some inst ∧
      (∃ name source, tree.kind inst = .ok (.instanceDecl name source)) ∧
      tree.infer links inst = .ok (.nodeType definition) ∧ tree.IsPortOf target definition
  | .constructor =>
    (∃ name args, tree.kind target = .ok (.constructor name args)) ∧
      ∃ owner name params constructors, tree.parent target = .ok (some owner) ∧
        tree.kind owner = .ok (.dataType name params constructors) ∧
        tree.infer links id = .ok (.dataType owner)
  | .matchVariable =>
    (∃ name, tree.kind target = .ok (.expr (.variableDefinition name))) ∧
      ∃ owner pattern outcome, tree.kind owner = .ok (.matchCase pattern outcome) ∧
        tree.Inside id owner ∧ tree.Under target pattern

end Tree

/-- Types and applications have the type of what they refer to. -/
theorem NodeKind.typedSlot?_of_mem_references {kind : NodeKind} {slot : Slot} {name : String}
    (hslot : slot = .typeParameter ∨ slot = .constructor) (h : (slot, name) ∈ kind.references) :
    kind.typedSlot? = some slot := by
  cases kind with
  | nodeType _ _ _ iface _ => cases iface <;> simp_all [references]
  | source s => cases s <;> simp_all [references, InstanceSource.references]
  | expr e =>
    obtain rfl | rfl := hslot <;> cases e <;> simp_all [references, Expr.references, typedSlot?]
  | type t =>
    obtain rfl | rfl := hslot <;> cases t <;> simp_all [references, TypeExpr.references, typedSlot?]
  | _ => simp [references] at h

namespace Workspace

variable {ws : Workspace} {links : Links}

/-! ## Ports of instances -/

/-- The ways in which it is known where the ports of an instance come from. -/
theorem of_portOwner {id : NodeId} {owner : PortOwner} (h : ws.portOwner links id = .ok owner) :
    owner = .unknown ∨ ∃ inst name source, links.target id .instanceRef = some inst ∧
      ws.tree.kind inst = .ok (.instanceDecl name source) ∧
      ((∃ nodeDef definition, owner = .definition definition ∧
          ws.tree.kind source = .ok (.source (.definition nodeDef)) ∧
          links.target source .nodeDef = some definition) ∨
        ∃ portName port, owner = .typeOf port ∧
          ws.tree.kind source = .ok (.source (.selfPort portName)) ∧
          links.target source .sourcePort = some port) := by
  unfold portOwner at h
  cases htarget : links.target id .instanceRef with
  | none =>
    rw [htarget] at h
    exact .inl (Except.ok.inj h).symm
  | some inst =>
    rw [htarget] at h
    obtain ⟨ikind, hikind, h⟩ := bind_eq_ok_iff.mp h
    cases ikind with
    | instanceDecl name source =>
      obtain ⟨skind, hskind, h⟩ := bind_eq_ok_iff.mp h
      split at h
      · cases hnodeDef : links.target source .nodeDef with
        | none =>
          rw [hnodeDef] at h
          exact .inl (Except.ok.inj h).symm
        | some definition =>
          rw [hnodeDef] at h
          exact .inr ⟨inst, name, source, rfl, hikind,
            .inl ⟨_, definition, (Except.ok.inj h).symm, hskind, hnodeDef⟩⟩
      · cases hport : links.target source .sourcePort with
        | none =>
          rw [hport] at h
          exact .inl (Except.ok.inj h).symm
        | some port =>
          rw [hport] at h
          exact .inr ⟨inst, name, source, rfl, hikind,
            .inr ⟨_, port, (Except.ok.inj h).symm, hskind, hport⟩⟩
      · cases h
    | _ => cases h

theorem exists_nodeType_of_ports {definition : NodeId} {scope : Scope}
    (h : ws.ports definition = .ok scope) : ∃ name params ports iface body,
      ws.tree.kind definition = .ok (.nodeType name params ports iface body) ∧
        ws.candidates ports = .ok scope := by
  obtain ⟨kind, hkind, h⟩ := bind_eq_ok_iff.mp h
  cases kind with
  | nodeType name params ports iface body => exact ⟨name, params, ports, iface, body, hkind, h⟩
  | _ => cases h

/-- Where ports of an instance are visible, they are those of the node type
that is the type of the instance. -/
theorem exists_owner_of_instancePorts (hf : ws.tree.IsForest) {id : NodeId} {scope : Scope}
    {candidate : Candidate} (h : ws.instancePorts links id = .ok scope)
    (hmem : candidate ∈ scope) :
    ∃ inst definition, links.target id .instanceRef = some inst ∧
      (∃ name source, ws.tree.kind inst = .ok (.instanceDecl name source)) ∧
      ws.tree.infer links inst = .ok (.nodeType definition) ∧
      ws.ports definition = .ok scope := by
  obtain ⟨owner, howner, h⟩ := bind_eq_ok_iff.mp h
  obtain rfl | ⟨inst, name, source, htarget, hikind, horigin⟩ := of_portOwner howner
  · cases h
    cases hmem
  · have hinst : ws.tree.PassesTo links inst source := .child hikind rfl
    obtain ⟨nodeDef, definition, rfl, hskind, hnodeDef⟩ |
      ⟨portName, port, rfl, hskind, hport⟩ := horigin
    · obtain ⟨_, _, _, _, _, hdefinition, _⟩ := exists_nodeType_of_ports h
      have hinstance : ws.tree.instanceType definition = .ok (.nodeType definition) := by
        rw [Tree.instanceType, hdefinition]
        rfl
      have hsource := Tree.infer_definition hskind hnodeDef hinstance
      exact ⟨inst, definition, htarget, ⟨name, source, hikind⟩,
        hf.infer_of_passesTo hinst hsource, h⟩
    · obtain ⟨ty, hty, h⟩ := bind_eq_ok_iff.mp h
      have hsource := hf.infer_of_passesTo (.target hskind rfl hport) hty
      cases ty with
      | nodeType definition =>
        exact ⟨inst, definition, htarget, ⟨name, source, hikind⟩,
          hf.infer_of_passesTo hinst hsource, h⟩
      | primitive _ | dataType _ | untyped =>
        cases h
        cases hmem

/-! ## Every binding -/

section Rightful

variable (hr : ws.IsRegular) (hindex : ws.HasSoundIndex) (hs : ws.Supports links)
  (hc : ws.IsConsistent links) {id target : NodeId}
include hr hindex hs

/-- What a slot is bound to is of the kind that it refers to. -/
theorem exists_kind_of_target {slot : Slot} (h : links.target id slot = some target) :
    ∃ kind, ws.tree.kind target = .ok kind ∧ slot.accepts kind = true := by
  have hdocument := hs.inDocument_of_target h
  exact (hindex.of_offers hr.wellShaped hdocument (hs.offers_of_target h)).2

theorem isPortOf_of_target {slot : Slot}
    (hslot : slot = .sourcePort ∨ slot = .nodePort ∨ slot = .selfPort)
    (h : links.target id slot = some target) {owner : NodeId} {okind : NodeKind}
    (hokind : ws.tree.kind owner = .ok okind) (hmem : target ∈ okind.ports) :
    ws.tree.IsPortOf target owner := by
  have hf := hr.wellShaped.toIsForest
  have hplace := NodeKind.mem_places_of_mem_ports hmem
  obtain ⟨kind, hkind, haccepts⟩ := exists_kind_of_target hr hindex hs h
  refine ⟨?_, hf.parent_of_child hokind (NodeKind.mem_children_of_mem_places hplace)⟩
  obtain rfl | rfl | rfl := hslot <;> cases kind <;> cases haccepts <;> exact ⟨_, _, _, hkind⟩

include hc

theorem isRightful_typeParameter (h : links.target id .typeParameter = some target) :
    ws.tree.IsRightful links id .typeParameter target := by
  have hf := hr.wellShaped.toIsForest
  obtain ⟨kind, hkind, haccepts⟩ := exists_kind_of_target hr hindex hs h
  obtain ⟨owner, okind, hnearest, hmem⟩ := hs.offers_of_target h
  obtain ⟨_, hokind, hgeneric⟩ := hf.of_nearest_eq_some hnearest
  have hplace := NodeKind.mem_places_of_mem_params hmem
  have hparent := hf.parent_of_child hokind (NodeKind.mem_children_of_mem_places hplace)
  obtain ⟨ty, hty, _⟩ := Tree.exists_instanceType hokind hgeneric
  obtain ⟨nkind, name, hnode, href⟩ := hc.exists_reference h
  have hnkind := (hr.wellShaped.documentNode_iff.mp hnode).2
  have hpasses : ws.tree.PassesTo links id target :=
    .target hnkind (NodeKind.typedSlot?_of_mem_references (.inl rfl) href) h
  cases kind <;> cases haccepts
  refine ⟨⟨_, hkind⟩, owner, ty, hparent, hf.isNearest hnearest, hty, ?_⟩
  exact hf.infer_of_passesTo hpasses (Tree.infer_typeParameter hkind hparent hty)

theorem isRightful_constructor (h : links.target id .constructor = some target) :
    ws.tree.IsRightful links id .constructor target := by
  have hf := hr.wellShaped.toIsForest
  obtain ⟨kind, hkind, haccepts⟩ := exists_kind_of_target hr hindex hs h
  obtain ⟨owner, okind, hlisted, hokind, hmem⟩ := hs.offers_of_target h
  obtain ⟨_, ownerName, params, constructors, hdataType⟩ := hindex.dataType hlisted
  have hplace := NodeKind.mem_places_of_mem_constructors hmem
  have hparent := hf.parent_of_child hokind (NodeKind.mem_children_of_mem_places hplace)
  obtain ⟨nkind, name, hnode, href⟩ := hc.exists_reference h
  have hnkind := (hr.wellShaped.documentNode_iff.mp hnode).2
  have hpasses : ws.tree.PassesTo links id target :=
    .target hnkind (NodeKind.typedSlot?_of_mem_references (.inr rfl) href) h
  cases kind <;> cases haccepts
  refine ⟨⟨_, _, hkind⟩, owner, ownerName, params, constructors, hparent, hdataType, ?_⟩
  exact hf.infer_of_passesTo hpasses (Tree.infer_constructor hkind hparent hdataType)

/-- The port in `a.port` belongs to the node type that is the type of `a`: the
finished table still resolves it there. -/
theorem isRightful_nodePort (h : links.target id .nodePort = some target) :
    ws.tree.IsRightful links id .nodePort target := by
  have hf := hr.wellShaped.toIsForest
  obtain ⟨kind, name, hnode, href⟩ := hc.exists_reference h
  obtain ⟨scope, hscope, hlookup⟩ := (hc.target_iff hnode href target).mp h
  obtain ⟨candidate, hcandidate, rfl⟩ := Scope.exists_of_lookup hlookup
  have hports : ws.instancePorts links id = .ok scope := by
    obtain ⟨_, _, hscope⟩ := bind_eq_ok_iff.mp hscope
    split at hscope
    · exact hscope
    · cases hscope
  obtain ⟨inst, definition, htarget, hinst, hinfer, hports⟩ :=
    exists_owner_of_instancePorts hf hports hcandidate
  obtain ⟨_, _, _, _, _, hdefinition, hcandidates⟩ := exists_nodeType_of_ports hports
  have hmem := declaration_mem_of_candidates hr.plain hcandidates hcandidate
  exact ⟨inst, definition, htarget, hinst, hinfer,
    isPortOf_of_target hr hindex hs (by simp) h hdefinition hmem⟩

/-- Every binding is rightful. -/
theorem isRightful_of_target {slot : Slot} (h : links.target id slot = some target) :
    ws.tree.IsRightful links id slot target := by
  have hf := hr.wellShaped.toIsForest
  obtain ⟨kind, hkind, haccepts⟩ := exists_kind_of_target hr hindex hs h
  cases slot with
  | typeParameter => exact isRightful_typeParameter hr hindex hs hc h
  | dataType | iface | nodeDef => cases kind <;> cases haccepts <;> exact ⟨_, hkind, rfl⟩
  | sourcePort | selfPort =>
    obtain ⟨owner, okind, hnearest, hmem⟩ := hs.offers_of_target h
    obtain ⟨_, hokind, _⟩ := hf.of_nearest_eq_some hnearest
    exact ⟨owner, isPortOf_of_target hr hindex hs (by simp) h hokind hmem, hf.isNearest hnearest⟩
  | instanceRef =>
    obtain ⟨owner, okind, hinside, hokind, hmem⟩ := hs.offers_of_target h
    have hplace := NodeKind.mem_places_of_mem_instances hmem
    have hparent := hf.parent_of_child hokind (NodeKind.mem_children_of_mem_places hplace)
    have hbody : okind.isBody = true := by
      cases okind with
      | body _ _ _ => rfl
      | _ => cases hmem
    cases kind <;> cases haccepts
    exact ⟨⟨_, _, hkind⟩, owner, okind, hparent, hokind, hbody, hinside⟩
  | nodePort => exact isRightful_nodePort hr hindex hs hc h
  | constructor => exact isRightful_constructor hr hindex hs hc h
  | matchVariable =>
    obtain ⟨owner, pattern, outcome, name, hinside, hokind, hunder, hkind⟩ := hs.offers_of_target h
    exact ⟨⟨name, hkind⟩, owner, pattern, outcome, hokind, hinside, hunder⟩

end Rightful

end Workspace

/-- Checking a grammatical tree binds each reference to a declaration of the
right kind that belongs to the right owner. -/
theorem Tree.check_binds_rightfully {source : SourceId} {steps : List BuildStep} {tree : Tree}
    (hbuild : Tree.build source steps = .ok tree) (hgrammar : tree.isGrammatical = true)
    (checks : Checks) :
    ∃ analysis, tree.check checks = .ok analysis ∧ ∀ id slot target,
      analysis.links.target id slot = some target →
        tree.IsRightful analysis.links id slot target := by
  have hw := Tree.wellShaped_of_build hbuild hgrammar
  obtain ⟨index, analysis, resolved, findings, _, hcheck, hr, hindex, hchecked⟩ :=
    hw.exists_check checks
  refine ⟨analysis, hcheck, ?_⟩
  intro id slot target htarget
  exact Workspace.isRightful_of_target hr hindex hchecked.supports (hchecked.isConsistent hw)
    htarget

/-- A document with a binding in every slot: a generic data type, a node type
that serves as interface, and one that conforms to it, with an instance that
re-exposes a port, one of a node type, and a match. -/
def Tree.everySlot : List BuildStep := [
  .node (.typeParameter "t"),
  .node (.type (.parameter "t")),
  .node (.constructor "Mk" [1]),
  .node (.dataType "Box" [0] [2]),
  .node (.type (.apply "Box" [])),
  .node (.port "value" .input 4),
  .node (.nodeType "Face" [] [5] none none),
  .node (.type (.apply "Face" [])),
  .node (.port "inner" .input 7),
  .node (.source (.selfPort "inner")),
  .node (.instanceDecl "a" 9),
  .node (.source (.definition "Face")),
  .node (.instanceDecl "b" 11),
  .node (.expr (.nodePort "a" "value")),
  .node (.expr (.selfPort "inner")),
  .node (.link 13 14),
  .node (.expr (.string "scrutinee")),
  .node (.expr (.variableDefinition "x")),
  .node (.expr (.apply "Mk" [17])),
  .node (.expr (.variableUsage "x")),
  .node (.expr (.nodePort "b" "value")),
  .node (.link 19 20),
  .node (.body [] [21] []),
  .node (.matchCase 18 22),
  .node (.matching 16 [23]),
  .node (.body [10, 12] [15] [24]),
  .node (.nodeType "Outer" [] [8] (some "Face") (some 25)),
  .node (.file [3, 6, 26])]

theorem Tree.check_binds_rightfully_everySlot :
    ∃ tree analysis, Tree.build 1 Tree.everySlot = .ok tree ∧ tree.isGrammatical = true ∧
      tree.check {} = .ok analysis ∧
      analysis.links.toList =
        [(⟨1, .typeParameter⟩, 0), (⟨4, .dataType⟩, 3), (⟨7, .dataType⟩, 6),
          (⟨9, .sourcePort⟩, 8), (⟨11, .nodeDef⟩, 6), (⟨13, .instanceRef⟩, 10),
          (⟨13, .nodePort⟩, 5), (⟨14, .selfPort⟩, 8), (⟨18, .constructor⟩, 2),
          (⟨19, .matchVariable⟩, 17), (⟨20, .instanceRef⟩, 12), (⟨20, .nodePort⟩, 5),
          (⟨26, .iface⟩, 6)] ∧
      ∀ entry ∈ analysis.links.toList,
        tree.IsRightful analysis.links entry.1.node entry.1.slot entry.2 := by
  obtain ⟨tree, hbuild⟩ : ∃ tree, Tree.build 1 Tree.everySlot = .ok tree := ⟨_, rfl⟩
  have hgrammar : tree.isGrammatical = true := by
    cases hbuild
    decide +kernel
  obtain ⟨analysis, hcheck, hrightful⟩ := Tree.check_binds_rightfully hbuild hgrammar {}
  refine ⟨tree, analysis, hbuild, hgrammar, hcheck, ?_, ?_⟩
  · cases hbuild
    cases hcheck
    decide +kernel
  · intro entry hmem
    exact hrightful _ _ _ (Links.mem_toList.mp hmem)

end Dataflow
