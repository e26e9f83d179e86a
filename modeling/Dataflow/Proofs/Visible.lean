import Dataflow.Proofs.Signature

/-!
# Dataflow.Proofs.Visible

What the scopes of a grammatical tree hold.  At every reference of a document
the scope is computed without a fault, and without a shape error if the index
is sound, and its candidates are declarations that the site is offered
(`Workspace.yields_scope`).

The ports of an instance are the only scope that looks at the table.  It looks
at references of the same document, and not at the port of any `a.port`
(`Workspace.scope_congr`).
-/

namespace Dataflow

/-! ## What a scope yields -/

/-- A scope that is computed without a fault, by a sound index without a shape
error, and that holds only declarations of some sort. -/
structure Workspace.Yields (ws : Workspace) (sort : NodeId → Prop) (scope : Result Scope) :
    Prop where
  faultFree : FaultFree scope
  exists_ok : ws.HasSoundIndex → ∃ found, scope = .ok found
  sort_of_mem {found : Scope} {candidate : Candidate} :
    scope = .ok found → candidate ∈ found → sort candidate.declaration

namespace Workspace

variable {ws : Workspace} {sort : NodeId → Prop}

theorem yields_nil (ws : Workspace) (sort : NodeId → Prop) : ws.Yields sort (.ok []) where
  faultFree := faultFree_ok []
  exists_ok _ := ⟨[], rfl⟩
  sort_of_mem h hmem := by
    cases h
    cases hmem

theorem yields_malformed {error : ShapeError} (h : ¬ ws.HasSoundIndex) :
    ws.Yields sort (malformed error) where
  faultFree := faultFree_malformed error
  exists_ok hindex := absurd hindex h
  sort_of_mem h := by cases h

theorem Yields.append {inner outer : Result Scope} (hinner : ws.Yields sort inner)
    (houter : ws.Yields sort outer) :
    ws.Yields sort (inner >>= fun a => outer >>= fun b => pure (a ++ b)) where
  faultFree := hinner.faultFree.bind fun a _ => houter.faultFree.bind fun b _ => faultFree_ok _
  exists_ok hindex := by
    obtain ⟨a, rfl⟩ := hinner.exists_ok hindex
    obtain ⟨b, rfl⟩ := houter.exists_ok hindex
    exact ⟨a ++ b, rfl⟩
  sort_of_mem h hmem := by
    obtain ⟨a, ha, h⟩ := bind_eq_ok_iff.mp h
    obtain ⟨b, hb, h⟩ := bind_eq_ok_iff.mp h
    cases h
    obtain hmem | hmem := List.mem_append.mp hmem
    · exact hinner.sort_of_mem ha hmem
    · exact houter.sort_of_mem hb hmem

theorem yields_flatten {α : Type} {f : α → Result Scope} {xs : List α}
    (h : ∀ x ∈ xs, ws.Yields sort (f x)) :
    ws.Yields sort (xs.mapM f >>= fun scopes => pure scopes.flatten) where
  faultFree := (faultFree_mapM fun x hx => (h x hx).faultFree).bind fun _ _ => faultFree_ok _
  exists_ok hindex := by
    obtain ⟨scopes, hscopes⟩ := exists_mapM_eq_ok fun x hx => (h x hx).exists_ok hindex
    exact ⟨scopes.flatten, by rw [hscopes]; rfl⟩
  sort_of_mem hok hmem := by
    obtain ⟨scopes, hscopes, hok⟩ := bind_eq_ok_iff.mp hok
    cases hok
    obtain ⟨scope, hscope, hmem⟩ := List.mem_flatten.mp hmem
    obtain ⟨x, hx, hfx⟩ := exists_of_mem_mapM hscopes hscope
    exact (h x hx).sort_of_mem hfx hmem

end Workspace

theorem Slot.exists_name_of_accepts {slot : Slot} {kind : NodeKind}
    (h : slot.accepts kind = true) : ∃ name, kind.name? = some name := by
  unfold accepts at h
  split at h <;> simp_all [NodeKind.name?]

namespace Workspace

variable {ws : Workspace}

/-- Declarations under their own names stand for themselves. -/
theorem declaration_mem_of_candidates (hplain : ws.naming = Naming.plain)
    {declarations : List NodeId} {scope : Scope} {candidate : Candidate}
    (h : ws.candidates declarations = .ok scope) (hmem : candidate ∈ scope) :
    candidate.declaration ∈ declarations := by
  obtain ⟨declaration, hdeclaration, hcandidate⟩ := exists_of_mem_mapM h hmem
  obtain ⟨kind, _, hcandidate⟩ := bind_eq_ok_iff.mp hcandidate
  split at hcandidate
  · cases hcandidate
    rw [hplain]
    exact hdeclaration
  · cases hcandidate

/-- Declarations that a site is offered make a scope. -/
theorem yields_candidates (hplain : ws.naming = Naming.plain) (hw : ws.tree.WellShaped)
    (hindex : ws.HasBoundedIndex) {site : Site} (hnode : ws.tree.InDocument site.node)
    {declarations : List NodeId} (h : ∀ declaration ∈ declarations, ws.Offers site declaration) :
    ws.Yields (ws.Offers site) (ws.candidates declarations) where
  faultFree := by
    refine faultFree_mapM ?_
    intro declaration hmem
    obtain ⟨kind, hkind⟩ :=
      Tree.exists_kind_of_lt (lt_size_of_offers hw hindex hnode (h declaration hmem))
    rw [candidate, hkind, ok_bind]
    split
    · exact faultFree_ok _
    · exact faultFree_malformed _
  exists_ok hsound := by
    refine exists_mapM_eq_ok ?_
    intro declaration hmem
    obtain ⟨_, kind, hkind, haccepts⟩ := hsound.of_offers hw hnode (h declaration hmem)
    obtain ⟨name, hname⟩ := Slot.exists_name_of_accepts haccepts
    refine ⟨ws.naming declaration name, ?_⟩
    rw [candidate, hkind, ok_bind, hname]
    rfl
  sort_of_mem hok hmem := h _ (declaration_mem_of_candidates hplain hok hmem)

end Workspace

/-! ## Each slot -/

theorem NodeKind.category_isInDefinition {kind : NodeKind} {name : String}
    (h : (.typeParameter, name) ∈ kind.references) : kind.category.isInDefinition = true := by
  cases kind with
  | type t => rfl
  | nodeType _ _ _ iface _ => cases iface <;> simp [references] at h
  | source s => cases s <;> simp [references, InstanceSource.references] at h
  | expr e => cases e <;> simp [references, Expr.references] at h
  | _ => simp [references] at h

theorem NodeKind.category_isInBody {kind : NodeKind} {slot : Slot} {name : String}
    (hslot : slot = .sourcePort ∨ slot = .selfPort ∨ slot = .instanceRef)
    (h : (slot, name) ∈ kind.references) : kind.category.isInBody = true := by
  cases kind with
  | source _ | expr _ => rfl
  | nodeType _ _ _ iface _ => cases iface <;> simp_all [references]
  | type t => cases t <;> simp_all [references, TypeExpr.references]
  | _ => simp [references] at h

theorem Category.isInNodeType_of_isInBody {category : Category}
    (h : category.isInBody = true) : category.isInNodeType = true := by
  cases category <;> simp_all [isInBody, isInNodeType]

namespace Workspace

section Slots

variable {ws : Workspace} (hplain : ws.naming = Naming.plain) (hw : ws.tree.WellShaped)
  (hindex : ws.HasBoundedIndex)
include hplain hw hindex

variable {id : NodeId} {kind : NodeKind} {name : String} (hid : ws.tree.InDocument id)
include hid

theorem yields_typeParameters (hkind : ws.tree.kind id = .ok kind)
    (href : (.typeParameter, name) ∈ kind.references) :
    ws.Yields (ws.Offers ⟨id, .typeParameter⟩) (ws.typeParameters id) := by
  obtain ⟨owner, okind, hnearest, _, _, hgeneric⟩ :=
    hw.exists_nearest_generic hid hkind (NodeKind.category_isInDefinition href)
  have hoffers : ∀ declaration ∈ okind.params, ws.Offers ⟨id, .typeParameter⟩ declaration :=
    fun declaration hmem => ⟨owner, okind, hnearest, hmem⟩
  rw [typeParameters, hnearest, ok_bind]
  cases okind with
  | dataType _ params _ => exact yields_candidates hplain hw hindex hid hoffers
  | nodeType _ params _ _ _ => exact yields_candidates hplain hw hindex hid hoffers
  | _ => cases hgeneric

/-- The ports of a node type make a scope wherever they are offered. -/
theorem yields_ports {slot : Slot} {owner : NodeId} {okind : NodeKind}
    (hokind : ws.tree.kind owner = .ok okind)
    (hnodeType : ws.HasSoundIndex → okind.isNodeType = true)
    (hoffers : ∀ declaration ∈ okind.ports, ws.Offers ⟨id, slot⟩ declaration) :
    ws.Yields (ws.Offers ⟨id, slot⟩) (ws.ports owner) := by
  rw [ports, hokind, ok_bind]
  cases okind with
  | nodeType _ _ ports _ _ => exact yields_candidates hplain hw hindex hid hoffers
  | _ => exact yields_malformed fun hsound => nomatch hnodeType hsound

theorem yields_ownPorts {slot : Slot} (hslot : slot = .sourcePort ∨ slot = .selfPort)
    (hkind : ws.tree.kind id = .ok kind) (href : (slot, name) ∈ kind.references) :
    ws.Yields (ws.Offers ⟨id, slot⟩) (ws.ownPorts id) := by
  have hin := NodeKind.category_isInBody (by obtain rfl | rfl := hslot <;> simp) href
  obtain ⟨owner, okind, hnearest, _, hokind, hnodeType⟩ :=
    hw.exists_nearest_nodeType hid hkind (Category.isInNodeType_of_isInBody hin)
  rw [ownPorts, hnearest, ok_bind]
  refine yields_ports hplain hw hindex hid hokind (fun _ => hnodeType) ?_
  intro declaration hmem
  obtain rfl | rfl := hslot
  · exact ⟨owner, okind, hnearest, hmem⟩
  · exact ⟨owner, okind, hnearest, hmem⟩

theorem yields_instances (hkind : ws.tree.kind id = .ok kind)
    (href : (.instanceRef, name) ∈ kind.references) :
    ws.Yields (ws.Offers ⟨id, .instanceRef⟩) (ws.instances id) := by
  have hin := NodeKind.category_isInBody (by simp) href
  obtain ⟨bodies, hbodies, hne⟩ := hw.exists_enclosing_body hid hkind hin
  rw [instances, hbodies, ok_bind]
  split
  · exact absurd rfl hne
  · refine yields_flatten ?_
    intro ⟨owner, okind⟩ hmem
    obtain ⟨hinside, hokind, hbody⟩ := (hw.mem_enclosing_iff hbodies).mp hmem
    cases okind with
    | body instances _ _ =>
      refine yields_candidates hplain hw hindex hid ?_
      exact fun declaration hmem => ⟨owner, _, hinside, hokind, hmem⟩
    | _ => cases hbody

theorem yields_constructors :
    ws.Yields (ws.Offers ⟨id, .constructor⟩) ws.constructors := by
  refine yields_flatten ?_
  intro owner hlisted
  obtain ⟨okind, hokind⟩ := Tree.exists_kind_of_lt (hindex owner (.inl hlisted))
  rw [hokind, ok_bind]
  split
  · refine yields_candidates hplain hw hindex hid ?_
    exact fun declaration hmem => ⟨owner, _, hlisted, hokind, hmem⟩
  · rename_i hnot
    refine yields_malformed ?_
    intro hsound
    obtain ⟨_, name, params, constructors, hdataType⟩ := hsound.dataType hlisted
    exact hnot _ _ _ (Tree.kind_inj hokind hdataType)

theorem yields_matchVariables :
    ws.Yields (ws.Offers ⟨id, .matchVariable⟩) (ws.matchVariables id) := by
  obtain ⟨entries, hentries⟩ :=
    hw.exists_enclosing (hw.lt_size_of_inDocument hid) NodeKind.isMatchCase
  rw [matchVariables, hentries, ok_bind]
  refine yields_flatten ?_
  intro ⟨owner, okind⟩ hmem
  obtain ⟨hinside, hokind, hcase⟩ := (hw.mem_enclosing_iff hentries).mp hmem
  cases okind with
  | matchCase pattern outcome =>
    have hpattern : pattern < ws.tree.size := hw.child_lt_size hokind List.mem_cons_self
    simp only [hw.subtree_eq_preorder hpattern, ok_bind]
    refine yields_candidates hplain hw hindex hid ?_
    intro declaration hmem
    obtain ⟨⟨found, fkind⟩, hfound, rfl⟩ := List.mem_map.mp hmem
    obtain ⟨hfound, hbinds⟩ := List.mem_filter.mp hfound
    obtain ⟨hunder, hfkind⟩ := (hw.mem_preorder_iff hpattern).mp hfound
    obtain ⟨variableName, rfl⟩ :
        ∃ variableName, fkind = .expr (.variableDefinition variableName) := by
      unfold NodeKind.isVariableDefinition at hbinds
      split at hbinds
      · exact ⟨_, by assumption⟩
      · cases hbinds
    exact ⟨owner, pattern, outcome, variableName, hinside, hokind, hunder, hfkind⟩
  | _ => cases hcase

end Slots

/-! ## The ports of instances -/

section InstancePorts

variable {ws : Workspace} {links : Links} (hw : ws.tree.WellShaped) (hs : ws.Supports links)
  {root id : NodeId} (hroot : root ∈ ws.tree.files) (hunder : ws.tree.Under id root)
include hw hs hroot hunder

/-- The instance in `a.port` has a source in the same document. -/
theorem exists_source_of_target {inst : NodeId}
    (htarget : links.target id .instanceRef = some inst) :
    ∃ name source origin, ws.tree.kind inst = .ok (.instanceDecl name source) ∧
      ws.tree.Under source root ∧ ws.tree.kind source = .ok (.source origin) := by
  have hid : ws.tree.InDocument id := ⟨root, hroot, hunder⟩
  obtain ⟨hsame, ikind, hikind, haccepts⟩ :=
    of_offers_local hw hid rfl (hs.offers_of_target htarget)
  have hinst := hsame root hroot hunder
  cases ikind with
  | instanceDecl name source =>
    obtain ⟨skind, hskind, hcategory⟩ :=
      hw.fits ⟨root, hroot, hinst⟩ hikind (List.mem_singleton.mpr rfl)
    cases skind <;> cases hcategory
    exact ⟨name, source, _, hikind, hw.under_of_child hinst hikind List.mem_cons_self, hskind⟩
  | _ => cases haccepts

/-- The ports of an instance come from a node type of the index or from the
signature of the node type around it. -/
theorem portOwner_cases :
    ws.portOwner links id = .ok .unknown ∨
      (∃ definition ∈ ws.index.nodeTypes, ws.portOwner links id = .ok (.definition definition)) ∨
      ∃ port, ws.tree.InSignature root port ∧ ws.portOwner links id = .ok (.typeOf port) := by
  unfold portOwner
  cases htarget : links.target id .instanceRef with
  | none => exact .inl rfl
  | some inst =>
    obtain ⟨name, source, origin, hinst, hsource, hskind⟩ :=
      exists_source_of_target hw hs hroot hunder htarget
    simp only [hinst, hskind, ok_bind]
    cases origin with
    | definition nodeDef =>
      cases hnodeDef : links.target source .nodeDef with
      | none => exact .inl rfl
      | some definition =>
        exact .inr (.inl ⟨definition, hs.offers_of_target hnodeDef, rfl⟩)
    | selfPort portName =>
      cases hport : links.target source .sourcePort with
      | none => exact .inl rfl
      | some port =>
        obtain ⟨hsame, pkind, hpkind, haccepts⟩ :=
          of_offers_local hw ⟨root, hroot, hsource⟩ rfl (hs.offers_of_target hport)
        refine .inr (.inr ⟨port, ⟨hsame root hroot hsource, pkind, hpkind, ?_⟩, rfl⟩)
        cases pkind <;> cases haccepts
        rfl

theorem yields_instancePorts (hplain : ws.naming = Naming.plain) (hindex : ws.HasBoundedIndex) :
    ws.Yields (ws.Offers ⟨id, .nodePort⟩) (ws.instancePorts links id) := by
  have hid : ws.tree.InDocument id := ⟨root, hroot, hunder⟩
  obtain hunknown | ⟨definition, hlisted, howner⟩ | ⟨port, hport, howner⟩ :=
    portOwner_cases hw hs hroot hunder
  · rw [instancePorts, hunknown]
    exact yields_nil ws _
  · obtain ⟨kind, hkind⟩ := Tree.exists_kind_of_lt (hindex definition (.inr hlisted))
    rw [instancePorts, howner]
    refine yields_ports hplain hw hindex hid hkind ?_ ?_
    · intro hsound
      obtain ⟨_, found, hfound, hnodeType⟩ := hsound.nodeType hlisted
      cases Tree.kind_inj hkind hfound
      exact hnodeType
    · exact fun declaration hmem => ⟨definition, kind, .inr (.inl hlisted), hkind, hmem⟩
  · have hsize := hw.lt_size_of_under hport.1 (hw.file_lt_size hroot)
    rw [instancePorts, howner]
    simp only [ok_bind]
    cases hinfer : ws.tree.infer links port with
    | ok ty =>
      cases ty with
      | nodeType definition =>
        obtain ⟨hknows, kind, hkind, hnodeType⟩ := hs.knows_of_infer hw hroot hport hinfer
        refine yields_ports hplain hw hindex hid hkind (fun _ => hnodeType) ?_
        exact fun declaration hmem => ⟨definition, kind, hknows, hkind, hmem⟩
      | primitive _ | dataType _ | untyped => exact yields_nil ws _
    | error halt =>
      cases halt with
      | fault fault => exact absurd hinfer (hs.faultFree_infer hw hindex hsize fault)
      | shape error =>
        refine yields_malformed ?_
        intro hsound
        obtain ⟨ty, hty⟩ := hs.exists_infer hw hsound ⟨root, hroot, hport.1⟩
        rw [hinfer] at hty
        cases hty

theorem instancePorts_congr {links' : Links}
    (hagree : ∀ id slot, ws.tree.Under id root → slot ≠ .nodePort →
      links.target id slot = links'.target id slot) :
    ws.instancePorts links id = ws.instancePorts links' id := by
  have howner : ws.portOwner links id = ws.portOwner links' id := by
    unfold portOwner
    rw [← hagree id .instanceRef hunder nofun]
    cases htarget : links.target id .instanceRef with
    | none => rfl
    | some inst =>
      obtain ⟨name, source, origin, hinst, hsource, hskind⟩ :=
        exists_source_of_target hw hs hroot hunder htarget
      simp only [hinst, hskind, ok_bind, hagree source .nodeDef hsource nofun,
        hagree source .sourcePort hsource nofun]
  unfold instancePorts
  rw [← howner]
  obtain hunknown | ⟨definition, _, hdefinition⟩ | ⟨port, hport, htypeOf⟩ :=
    portOwner_cases hw hs hroot hunder
  · rw [hunknown]
    rfl
  · rw [hdefinition]
    rfl
  · rw [htypeOf]
    simp only [ok_bind, hs.infer_congr hw hroot hport hagree]

/-- A scope is the same by two tables that agree on the document, the ports of
instances aside. -/
theorem scope_congr {links' : Links} (slot : Slot)
    (hagree : ∀ id slot, ws.tree.Under id root → slot ≠ .nodePort →
      links.target id slot = links'.target id slot) :
    ws.scope links ⟨id, slot⟩ = ws.scope links' ⟨id, slot⟩ := by
  by_cases hslot : slot = .nodePort
  · subst hslot
    unfold scope
    simp only [instancePorts_congr hw hs hroot hunder hagree]
  · exact scope_eq_of_ne_nodePort hslot links links'

end InstancePorts

/-! ## Every reference -/

/-- The scope of a reference in a document. -/
theorem yields_scope {ws : Workspace} {links : Links} (hplain : ws.naming = Naming.plain)
    (hw : ws.tree.WellShaped) (hindex : ws.HasBoundedIndex) (hs : ws.Supports links)
    {id : NodeId} {kind : NodeKind} {slot : Slot} {name : String} (hid : ws.tree.InDocument id)
    (hkind : ws.tree.kind id = .ok kind) (href : (slot, name) ∈ kind.references) :
    ws.Yields (ws.Offers ⟨id, slot⟩) (ws.scope links ⟨id, slot⟩) := by
  have hslot : kind.hasSlot slot = true :=
    List.any_eq_true.mpr ⟨(slot, name), href, decide_eq_true rfl⟩
  unfold scope
  simp only [hkind, ok_bind, hslot, if_true]
  cases slot with
  | typeParameter => exact yields_typeParameters hplain hw hindex hid hkind href
  | dataType =>
    refine Yields.append ?_ ?_
    · exact yields_candidates hplain hw hindex hid fun _ hmem => .inl hmem
    · exact yields_candidates hplain hw hindex hid fun _ hmem => .inr hmem
  | iface => exact yields_candidates hplain hw hindex hid fun _ hmem => hmem
  | nodeDef => exact yields_candidates hplain hw hindex hid fun _ hmem => hmem
  | sourcePort => exact yields_ownPorts hplain hw hindex hid (.inl rfl) hkind href
  | instanceRef => exact yields_instances hplain hw hindex hid hkind href
  | nodePort =>
    obtain ⟨root, hroot, hunder⟩ := hid
    exact yields_instancePorts hw hs hroot hunder hplain hindex
  | selfPort => exact yields_ownPorts hplain hw hindex hid (.inr rfl) hkind href
  | constructor => exact yields_constructors hplain hw hindex hid
  | matchVariable => exact yields_matchVariables hplain hw hindex hid

end Workspace

end Dataflow
