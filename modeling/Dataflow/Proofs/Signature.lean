import Dataflow.Proofs.Untyped

/-!
# Dataflow.Proofs.Signature

The types of ports.  A chain from a port stays in the signature of its node
type: it passes type expressions and type parameters of the same document
(`Workspace.Supports.inSignature_of_passesTo`).  So it does not look at the
ports of instances (`Workspace.Supports.infer_congr`), and a node type that it
ends in is known to the workspace (`Workspace.Supports.knows_of_infer`).
-/

namespace Dataflow

namespace NodeKind

/-- Whether a node is part of what a definition declares of its ports. -/
def isSignature : NodeKind → Bool
  | port _ _ _ | type _ | typeParameter _ => true
  | _ => false

theorem mem_places_of_isSignature {kind : NodeKind} {child : NodeId}
    (hsignature : kind.isSignature = true) (h : kind.typedAs? = some child) :
    (child, .type) ∈ kind.places := by
  unfold typedAs? at h
  split at h <;> cases h <;> simp_all [isSignature, places, TypeExpr.children]

theorem slot_of_isSignature {kind : NodeKind} {slot : Slot}
    (hsignature : kind.isSignature = true) (h : kind.typedSlot? = some slot) :
    slot = .typeParameter := by
  unfold typedSlot? at h
  split at h <;> cases h <;> simp_all [isSignature]

theorem ownType?_ne_nodeType {kind : NodeKind} (hsignature : kind.isSignature = true)
    (id definition : NodeId) : kind.ownType? id ≠ some (.nodeType definition) := by
  intro hown
  cases kind with
  | type type => cases type <;> cases hown
  | _ => cases hsignature <;> cases hown

end NodeKind

namespace Tree

variable {tree : Tree} {links : Links}

/-- A node of a document that is part of a signature. -/
def InSignature (tree : Tree) (root id : NodeId) : Prop :=
  tree.Under id root ∧ ∃ kind, tree.kind id = .ok kind ∧ kind.isSignature = true

/-- A signature does not look at the ports of instances. -/
theorem typeStep_congr_of_isSignature {links' : Links} {id : NodeId} {kind : NodeKind}
    (hkind : tree.kind id = .ok kind) (hsignature : kind.isSignature = true)
    (hagree : ∀ slot, slot ≠ .nodePort → links.target id slot = links'.target id slot) :
    tree.typeStep links id = tree.typeStep links' id := by
  unfold typeStep
  rw [hkind, ok_bind, ok_bind]
  cases kind with
  | port _ _ _ | typeParameter _ => rfl
  | type t =>
    cases t with
    | apply _ _ => simp [typeExprStep, hagree]
    | parameter _ => simp [typeExprStep, hagree]
    | integer | boolean | string | float | parens _ => rfl
  | _ => cases hsignature

theorem eq_of_instanceType_eq_nodeType {found definition : NodeId}
    (h : tree.instanceType found = .ok (.nodeType definition)) :
    found = definition ∧ ∃ kind, tree.kind found = .ok kind ∧ kind.isNodeType = true := by
  obtain ⟨kind, hkind, h⟩ := bind_eq_ok_iff.mp h
  split at h <;> cases h
  exact ⟨rfl, _, hkind, rfl⟩

end Tree

namespace Workspace.Supports

variable {ws : Workspace} {links : Links} (hw : ws.tree.WellShaped) (hs : ws.Supports links)
include hw hs

/-- A chain from a signature stays in signatures of the document. -/
theorem inSignature_of_passesTo {root id next : NodeId} (hroot : root ∈ ws.tree.files)
    (hid : ws.tree.InSignature root id) (h : ws.tree.PassesTo links id next) :
    ws.tree.InSignature root next := by
  obtain ⟨hunder, kind, hkind, hsignature⟩ := hid
  have hdocument : ws.tree.InDocument id := ⟨root, hroot, hunder⟩
  cases h with
  | child hkind' hchild =>
    cases Tree.kind_inj hkind hkind'
    have hplace := NodeKind.mem_places_of_isSignature hsignature hchild
    obtain ⟨found, hfound, hcategory⟩ := hw.fits hdocument hkind hplace
    refine ⟨hw.under_of_child hunder hkind (NodeKind.mem_children_of_mem_places hplace),
      found, hfound, ?_⟩
    cases found <;> cases hcategory
    rfl
  | target hkind' hslot htarget =>
    cases Tree.kind_inj hkind hkind'
    cases NodeKind.slot_of_isSignature hsignature hslot
    obtain ⟨hsame, found, hfound, haccepts⟩ :=
      of_offers_local hw hdocument rfl (hs.offers_of_target htarget)
    refine ⟨hsame root hroot hunder, found, hfound, ?_⟩
    cases found <;> cases haccepts
    rfl
  | argument hkind' =>
    cases Tree.kind_inj hkind hkind'
    cases hsignature

/-- Inference on a signature looks only at the document, and there not at the
ports of instances. -/
theorem infer_congr {links' : Links} {root id : NodeId} (hroot : root ∈ ws.tree.files)
    (hid : ws.tree.InSignature root id)
    (hagree : ∀ id slot, ws.tree.Under id root → slot ≠ .nodePort →
      links.target id slot = links'.target id slot) :
    ws.tree.infer links id = ws.tree.infer links' id := by
  refine Tree.infer_congr (P := ws.tree.InSignature root) ?_ ?_ hid
  · intro id ⟨hunder, kind, hkind, hsignature⟩
    exact Tree.typeStep_congr_of_isSignature hkind hsignature fun slot => hagree id slot hunder
  · intro id next hid hnext
    exact hs.inSignature_of_passesTo hw hroot hid (hw.typeStep_eq_sameAs_iff.mp hnext)

/-- The node type that a signature settles on is known. -/
theorem knows_of_typeStep {root id definition : NodeId} (hroot : root ∈ ws.tree.files)
    (hid : ws.tree.InSignature root id)
    (h : ws.tree.typeStep links id = .ok (.settled (.nodeType definition))) :
    ws.Knows definition ∧
      ∃ kind, ws.tree.kind definition = .ok kind ∧ kind.isNodeType = true := by
  obtain ⟨hunder, kind, hkind, hsignature⟩ := hid
  have hsays : ws.tree.Says links id kind (ws.tree.typeStep links id) := Tree.says_typeStep hkind
  generalize ws.tree.typeStep links id = said at h hsays
  cases hsays with
  | own hown =>
    cases h
    exact absurd hown (NodeKind.ownType?_ne_nodeType hsignature _ _)
  | child _ => cases h
  | target _ =>
    have hnone := Except.ok.inj h
    unfold TypeStep.ofTarget at hnone
    split at hnone <;> cases hnone
  | definition hslot =>
    obtain ⟨ty, hty, hsettled⟩ := map_eq_ok_iff.mp h
    cases hsettled
    unfold NodeKind.definitionSlot? at hslot
    split at hslot <;> cases hslot
    · cases hsignature
    · cases htarget : links.target id .dataType with
      | none =>
        rw [htarget] at hty
        cases hty
      | some found =>
        rw [htarget] at hty
        obtain ⟨rfl, hfound⟩ := Tree.eq_of_instanceType_eq_nodeType hty
        refine ⟨?_, hfound⟩
        obtain hlisted | hlisted := hs.offers_of_target htarget
        · exact .inl hlisted
        · exact .inr (.inl hlisted)
  | constructor _ _ => cases hsignature
  | typeParameter _ =>
    obtain ⟨ty, hty, hsettled⟩ := map_eq_ok_iff.mp h
    cases hsettled
    obtain ⟨parent, hparent, hty⟩ := bind_eq_ok_iff.mp hty
    cases parent with
    | none => cases hty
    | some owner =>
      obtain ⟨rfl, hfound⟩ := Tree.eq_of_instanceType_eq_nodeType hty
      have howner := hw.under_file hroot hunder (Tree.Under.head hparent (.refl _))
      exact ⟨.inr (.inr ⟨root, hroot, howner⟩), hfound⟩
  | matchVariable _ => cases hsignature

theorem knows_of_infer {root id definition : NodeId} (hroot : root ∈ ws.tree.files)
    (hid : ws.tree.InSignature root id)
    (h : ws.tree.infer links id = .ok (.nodeType definition)) :
    ws.Knows definition ∧
      ∃ kind, ws.tree.kind definition = .ok kind ∧ kind.isNodeType = true := by
  have hty := Tree.infer_eq_ok_iff.mp h
  clear h
  generalize hnodeType : Ty.nodeType definition = ty at hty
  induction hty with
  | settled hstep =>
    subst hnodeType
    exact hs.knows_of_typeStep hw hroot hid hstep
  | sameAs hstep _ ih =>
    have hnext := hw.typeStep_eq_sameAs_iff.mp hstep
    exact ih (hs.inSignature_of_passesTo hw hroot hid hnext) hnodeType

end Workspace.Supports

end Dataflow
