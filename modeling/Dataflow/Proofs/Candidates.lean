import Dataflow.Proofs.Grammar
import Dataflow.Scope.Visible

/-!
# Dataflow.Proofs.Candidates

Which declarations a site can be bound to, said without the order of the
scope (`Workspace.Offers`), and what they are.

In a grammatical tree the slots that look at their surroundings (`isLocal`)
offer only declarations of the right kind from the same document
(`WellShaped.of_offers_local`).  What the other slots offer comes from the
index and is as good as the index: a table whose every binding is offered
(`Workspace.Supports`) is sound (`Links.Sound`) if the index lists data types
and node types of the documents only (`Workspace.HasSoundIndex`).
-/

namespace Dataflow

namespace Slot

/-- Whether a declaration is of the kind that a slot refers to. -/
def accepts : Slot → NodeKind → Bool
  | typeParameter, .typeParameter _ => true
  | dataType, .dataType _ _ _ => true
  | dataType, .nodeType _ _ _ _ _ => true
  | iface, .nodeType _ _ _ _ _ => true
  | nodeDef, .nodeType _ _ _ _ _ => true
  | sourcePort, .port _ _ _ => true
  | instanceRef, .instanceDecl _ _ => true
  | nodePort, .port _ _ _ => true
  | selfPort, .port _ _ _ => true
  | constructor, .constructor _ _ => true
  | matchVariable, .expr (.variableDefinition _) => true
  | _, _ => false

/-- Whether a slot refers to declarations around it. -/
def isLocal : Slot → Bool
  | typeParameter | sourcePort | instanceRef | selfPort | matchVariable => true
  | dataType | iface | nodeDef | nodePort | constructor => false

theorem accepts_typeParameter {kind : NodeKind} (h : kind.category = .typeParameter) :
    typeParameter.accepts kind = true := by
  cases kind <;> cases h
  rfl

theorem accepts_port {slot : Slot} (hslot : slot = sourcePort ∨ slot = nodePort ∨ slot = selfPort)
    {kind : NodeKind} (h : kind.category = .port) : slot.accepts kind = true := by
  obtain rfl | rfl | rfl := hslot <;> cases kind <;> cases h <;> rfl

theorem accepts_instanceDecl {kind : NodeKind} (h : kind.category = .instanceDecl) :
    instanceRef.accepts kind = true := by
  cases kind <;> cases h
  rfl

theorem accepts_constructor {kind : NodeKind} (h : kind.category = .constructor) :
    constructor.accepts kind = true := by
  cases kind <;> cases h
  rfl

theorem accepts_nodeType {slot : Slot} (hslot : slot = dataType ∨ slot = iface ∨ slot = nodeDef)
    {kind : NodeKind} (h : kind.isNodeType = true) : slot.accepts kind = true := by
  obtain rfl | rfl | rfl := hslot <;> cases kind <;> cases h <;> rfl

end Slot

namespace Workspace

variable {ws : Workspace}

/-! ## What a site can be bound to -/

/-- A definition that the index lists, rightly or not, or that is part of a
document. -/
def Knows (ws : Workspace) (definition : NodeId) : Prop :=
  definition ∈ ws.index.dataTypes ∨ definition ∈ ws.index.nodeTypes ∨
    ws.tree.InDocument definition

/-- A declaration that can be a candidate for a site.  What the ports of an
instance hang on besides is left open. -/
def Offers (ws : Workspace) (site : Site) (declaration : NodeId) : Prop :=
  match site.slot with
  | .typeParameter => ∃ owner kind,
      ws.tree.nearest site.node NodeKind.isGeneric = .ok (some (owner, kind)) ∧
        declaration ∈ kind.params
  | .dataType => declaration ∈ ws.index.dataTypes ∨ declaration ∈ ws.index.nodeTypes
  | .iface | .nodeDef => declaration ∈ ws.index.nodeTypes
  | .sourcePort | .selfPort => ∃ owner kind,
      ws.tree.nearest site.node NodeKind.isNodeType = .ok (some (owner, kind)) ∧
        declaration ∈ kind.ports
  | .instanceRef => ∃ owner kind, ws.tree.Inside site.node owner ∧
      ws.tree.kind owner = .ok kind ∧ declaration ∈ kind.instances
  | .nodePort => ∃ owner kind, ws.Knows owner ∧
      ws.tree.kind owner = .ok kind ∧ declaration ∈ kind.ports
  | .constructor => ∃ owner kind, owner ∈ ws.index.dataTypes ∧
      ws.tree.kind owner = .ok kind ∧ declaration ∈ kind.constructors
  | .matchVariable => ∃ owner pattern outcome name, ws.tree.Inside site.node owner ∧
      ws.tree.kind owner = .ok (.matchCase pattern outcome) ∧
        ws.tree.Under declaration pattern ∧
          ws.tree.kind declaration = .ok (.expr (.variableDefinition name))

/-- Every bound site belongs to a document and is bound to something that it
is offered. -/
def Supports (ws : Workspace) (links : Links) : Prop :=
  ∀ site target, links.get? site = some target →
    ws.tree.InDocument site.node ∧ ws.Offers site target

/-- The index lists nodes of the tree. -/
def HasBoundedIndex (ws : Workspace) : Prop :=
  ∀ definition, definition ∈ ws.index.dataTypes ∨ definition ∈ ws.index.nodeTypes →
    definition < ws.tree.size

/-- The index lists data types and node types of the documents. -/
structure HasSoundIndex (ws : Workspace) : Prop where
  dataType {definition : NodeId} : definition ∈ ws.index.dataTypes →
    ws.tree.InDocument definition ∧
      ∃ name params constructors, ws.tree.kind definition = .ok (.dataType name params constructors)
  nodeType {definition : NodeId} : definition ∈ ws.index.nodeTypes →
    ws.tree.InDocument definition ∧
      ∃ kind, ws.tree.kind definition = .ok kind ∧ kind.isNodeType = true

theorem supports_empty (ws : Workspace) : ws.Supports ∅ := by
  intro site target h
  simp at h

theorem Supports.inDocument_of_target {links : Links} (h : ws.Supports links) {id : NodeId}
    {slot : Slot} {target : NodeId} (htarget : links.target id slot = some target) :
    ws.tree.InDocument id :=
  (h ⟨id, slot⟩ target htarget).1

theorem Supports.offers_of_target {links : Links} (h : ws.Supports links) {id : NodeId}
    {slot : Slot} {target : NodeId} (htarget : links.target id slot = some target) :
    ws.Offers ⟨id, slot⟩ target :=
  (h ⟨id, slot⟩ target htarget).2

/-- Nodes outside of the documents are bound to nothing. -/
theorem Supports.target_of_not_inDocument {links : Links} (h : ws.Supports links) {id : NodeId}
    (hid : ¬ ws.tree.InDocument id) (slot : Slot) : links.target id slot = none := by
  cases htarget : links.target id slot with
  | none => rfl
  | some target => exact absurd (h.inDocument_of_target htarget) hid

/-! ## Declarations around a site -/

section Local

variable (hw : ws.tree.WellShaped)
include hw

/-- A node in a place of an ancestor is of the category of the place, and of
the same document. -/
theorem of_mem_places_of_inside {id owner declaration : NodeId} {kind : NodeKind}
    {category : Category} (hid : ws.tree.InDocument id) (hinside : ws.tree.Inside id owner)
    (hkind : ws.tree.kind owner = .ok kind) (hplace : (declaration, category) ∈ kind.places) :
    (∀ root ∈ ws.tree.files, ws.tree.Under id root → ws.tree.Under declaration root) ∧
      ∃ found, ws.tree.kind declaration = .ok found ∧ found.category = category := by
  refine ⟨?_, hw.fits (hw.inDocument_of_above hid hinside.under) hkind hplace⟩
  intro root hroot hunder
  exact hw.under_of_child (hw.under_file hroot hunder hinside.under) hkind
    (NodeKind.mem_children_of_mem_places hplace)

/-- Slots that look at their surroundings offer declarations of the right
kind, from the same document. -/
theorem of_offers_local {site : Site} {declaration : NodeId}
    (hnode : ws.tree.InDocument site.node) (hlocal : site.slot.isLocal = true)
    (h : ws.Offers site declaration) :
    (∀ root ∈ ws.tree.files, ws.tree.Under site.node root → ws.tree.Under declaration root) ∧
      ∃ kind, ws.tree.kind declaration = .ok kind ∧ site.slot.accepts kind = true := by
  obtain ⟨node, slot⟩ := site
  cases slot with
  | typeParameter =>
    obtain ⟨owner, okind, hnearest, hmem⟩ := h
    obtain ⟨hinside, hokind, _⟩ := hw.of_nearest_eq_some hnearest
    obtain ⟨hsame, kind, hkind, hcategory⟩ :=
      of_mem_places_of_inside hw hnode hinside hokind (NodeKind.mem_places_of_mem_params hmem)
    exact ⟨hsame, kind, hkind, Slot.accepts_typeParameter hcategory⟩
  | sourcePort | selfPort =>
    obtain ⟨owner, okind, hnearest, hmem⟩ := h
    obtain ⟨hinside, hokind, _⟩ := hw.of_nearest_eq_some hnearest
    obtain ⟨hsame, kind, hkind, hcategory⟩ :=
      of_mem_places_of_inside hw hnode hinside hokind (NodeKind.mem_places_of_mem_ports hmem)
    exact ⟨hsame, kind, hkind, Slot.accepts_port (by simp) hcategory⟩
  | instanceRef =>
    obtain ⟨owner, okind, hinside, hokind, hmem⟩ := h
    obtain ⟨hsame, kind, hkind, hcategory⟩ :=
      of_mem_places_of_inside hw hnode hinside hokind (NodeKind.mem_places_of_mem_instances hmem)
    exact ⟨hsame, kind, hkind, Slot.accepts_instanceDecl hcategory⟩
  | matchVariable =>
    obtain ⟨owner, pattern, outcome, name, hinside, hokind, hunder, hkind⟩ := h
    refine ⟨?_, _, hkind, rfl⟩
    intro root hroot hsame
    have howner := hw.under_file hroot hsame hinside.under
    have hpattern : pattern ∈ (NodeKind.matchCase pattern outcome).children := List.mem_cons_self
    exact hunder.trans (hw.under_of_child howner hokind hpattern)
  | dataType | iface | nodeDef | nodePort | constructor => cases hlocal

theorem inDocument_of_offers_local {site : Site} {declaration : NodeId}
    (hnode : ws.tree.InDocument site.node) (hlocal : site.slot.isLocal = true)
    (h : ws.Offers site declaration) : ws.tree.InDocument declaration := by
  obtain ⟨root, hroot, hunder⟩ := hnode
  exact ⟨root, hroot, (of_offers_local hw ⟨root, hroot, hunder⟩ hlocal h).1 root hroot hunder⟩

/-! ## Members of definitions -/

/-- A member of a definition is a child of it; if the definition is part of a
document, so is the member, and it is of the right kind. -/
theorem of_offers_member {site : Site} {declaration : NodeId}
    (hmember : site.slot = .constructor ∨ site.slot = .nodePort)
    (h : ws.Offers site declaration) :
    declaration < ws.tree.size ∧ (ws.tree.InDocument declaration →
      ∃ kind, ws.tree.kind declaration = .ok kind ∧ site.slot.accepts kind = true) := by
  obtain ⟨node, slot⟩ := site
  obtain ⟨owner, okind, category, hokind, hplace, haccepts⟩ : ∃ owner okind category,
      ws.tree.kind owner = .ok okind ∧ (declaration, category) ∈ okind.places ∧
        ∀ kind : NodeKind, kind.category = category → slot.accepts kind = true := by
    obtain rfl | rfl := hmember
    · obtain ⟨owner, okind, _, hokind, hmem⟩ := h
      exact ⟨owner, okind, _, hokind, NodeKind.mem_places_of_mem_constructors hmem,
        fun _ => Slot.accepts_constructor⟩
    · obtain ⟨owner, okind, _, hokind, hmem⟩ := h
      exact ⟨owner, okind, _, hokind, NodeKind.mem_places_of_mem_ports hmem,
        fun _ => Slot.accepts_port (by simp)⟩
  have hchild := NodeKind.mem_children_of_mem_places hplace
  refine ⟨hw.child_lt_size hokind hchild, ?_⟩
  intro hdocument
  have howner := hw.inDocument_of_hasChild hdocument hokind hchild
  obtain ⟨kind, hkind, hcategory⟩ := hw.fits howner hokind hplace
  exact ⟨kind, hkind, haccepts kind hcategory⟩

theorem lt_size_of_offers (hindex : ws.HasBoundedIndex) {site : Site} {declaration : NodeId}
    (hnode : ws.tree.InDocument site.node) (h : ws.Offers site declaration) :
    declaration < ws.tree.size := by
  cases hlocal : site.slot.isLocal with
  | true => exact hw.lt_size_of_inDocument (inDocument_of_offers_local hw hnode hlocal h)
  | false =>
    obtain ⟨node, slot⟩ := site
    cases slot with
    | dataType => exact hindex declaration h
    | iface | nodeDef => exact hindex declaration (.inr h)
    | nodePort => exact (of_offers_member hw (.inr rfl) h).1
    | constructor => exact (of_offers_member hw (.inl rfl) h).1
    | typeParameter | sourcePort | instanceRef | selfPort | matchVariable => cases hlocal

/-! ## Sound tables -/

/-- By a sound index every site is offered declarations of the right kind, all
from documents. -/
theorem HasSoundIndex.of_offers (hindex : ws.HasSoundIndex) {site : Site} {declaration : NodeId}
    (hnode : ws.tree.InDocument site.node) (h : ws.Offers site declaration) :
    ws.tree.InDocument declaration ∧
      ∃ kind, ws.tree.kind declaration = .ok kind ∧ site.slot.accepts kind = true := by
  cases hlocal : site.slot.isLocal with
  | true =>
    exact ⟨inDocument_of_offers_local hw hnode hlocal h, (of_offers_local hw hnode hlocal h).2⟩
  | false =>
    obtain ⟨node, slot⟩ := site
    cases slot with
    | dataType =>
      obtain h | h := h
      · obtain ⟨hdocument, name, params, constructors, hkind⟩ := hindex.dataType h
        exact ⟨hdocument, _, hkind, rfl⟩
      · obtain ⟨hdocument, kind, hkind, hnodeType⟩ := hindex.nodeType h
        exact ⟨hdocument, kind, hkind, Slot.accepts_nodeType (by simp) hnodeType⟩
    | iface | nodeDef =>
      obtain ⟨hdocument, kind, hkind, hnodeType⟩ := hindex.nodeType h
      exact ⟨hdocument, kind, hkind, Slot.accepts_nodeType (by simp) hnodeType⟩
    | nodePort =>
      have hmember := of_offers_member hw (.inr rfl) h
      obtain ⟨owner, okind, hknown, hokind, hmem⟩ := h
      have howner : ws.tree.InDocument owner := by
        obtain hknown | hknown | hknown := hknown
        · exact (hindex.dataType hknown).1
        · exact (hindex.nodeType hknown).1
        · exact hknown
      have hdocument := hw.inDocument_of_child howner hokind
        (NodeKind.mem_children_of_mem_places (NodeKind.mem_places_of_mem_ports hmem))
      exact ⟨hdocument, hmember.2 hdocument⟩
    | constructor =>
      have hmember := of_offers_member hw (.inl rfl) h
      obtain ⟨owner, okind, hlisted, hokind, hmem⟩ := h
      have hdocument := hw.inDocument_of_child (hindex.dataType hlisted).1 hokind
        (NodeKind.mem_children_of_mem_places (NodeKind.mem_places_of_mem_constructors hmem))
      exact ⟨hdocument, hmember.2 hdocument⟩
    | typeParameter | sourcePort | instanceRef | selfPort | matchVariable => cases hlocal

omit hw in
theorem HasSoundIndex.hasBoundedIndex (hf : ws.tree.IsFinished) (hindex : ws.HasSoundIndex) :
    ws.HasBoundedIndex := by
  intro definition h
  obtain h | h := h
  · exact hf.lt_size_of_inDocument (hindex.dataType h).1
  · exact hf.lt_size_of_inDocument (hindex.nodeType h).1

end Local

end Workspace

/-- Every bound site belongs to a document and is bound to a declaration of
the right kind in a document. -/
def Links.Sound (tree : Tree) (links : Links) : Prop :=
  ∀ site target, links.get? site = some target →
    tree.InDocument site.node ∧ tree.InDocument target ∧
      ∃ kind, tree.kind target = .ok kind ∧ site.slot.accepts kind = true

theorem Workspace.Supports.sound {ws : Workspace} {links : Links} (hw : ws.tree.WellShaped)
    (hindex : ws.HasSoundIndex) (h : ws.Supports links) : links.Sound ws.tree := by
  intro site target htarget
  obtain ⟨hnode, hoffers⟩ := h site target htarget
  exact ⟨hnode, hindex.of_offers hw hnode hoffers⟩

end Dataflow
