import Dataflow.Proofs.Candidates
import Dataflow.Proofs.Inference

/-!
# Dataflow.Proofs.Typing

Inference in grammatical trees.  Kinds have a rank (`NodeKind.typeRank`) that
falls along every reference which a chain follows: an expression leads to a
match variable or to a port, these lead to a type expression, and that leads
to a type parameter.  Among nodes of one rank a chain goes down in the tree.
So every chain ends, by any table whose sites are bound to declarations that
they are offered (`Workspace.Supports.exists_endsIn`).

If the targets are nodes of the tree, nothing on the way faults
(`Workspace.Supports.faultFree_infer`); a node of the wrong kind is a shape
error.
-/

namespace Dataflow

namespace NodeKind

/-! ## Ranks -/

/-- How far the nodes of a kind are from the end of a chain. -/
def typeRank : NodeKind → Nat
  | type _ => 1
  | port _ _ _ | expr (.variableDefinition _) => 2
  | source _ | expr _ => 3
  | instanceDecl _ _ => 4
  | _ => 0

theorem typeRank_of_category_type {kind : NodeKind} (h : kind.category = .type) :
    kind.typeRank = 1 := by
  cases kind <;> cases h
  rfl

theorem typeRank_of_category_source {kind : NodeKind} (h : kind.category = .source) :
    kind.typeRank = 3 := by
  cases kind <;> cases h
  rfl

theorem typeRank_le_of_category_expr {kind : NodeKind} (h : kind.category = .expr) :
    kind.typeRank ≤ 3 := by
  cases kind <;> cases h
  rename_i e
  cases e <;> simp [typeRank]

/-- A child whose type a node has stands in a place for nodes of at most the
same rank. -/
theorem exists_place_of_typedAs? {kind : NodeKind} {child : NodeId}
    (h : kind.typedAs? = some child) :
    ∃ category, (child, category) ∈ kind.places ∧
      ∀ found : NodeKind, found.category = category → found.typeRank ≤ kind.typeRank := by
  unfold typedAs? at h
  split at h <;> cases h
  · refine ⟨.type, by simp [places], fun found hfound => ?_⟩
    rw [typeRank_of_category_type hfound]
    simp [typeRank]
  · refine ⟨.source, by simp [places], fun found hfound => ?_⟩
    rw [typeRank_of_category_source hfound]
    simp [typeRank]
  · exact ⟨.expr, by simp [places, Expr.children], fun _ => typeRank_le_of_category_expr⟩
  · exact ⟨.expr, by simp [places, Expr.children], fun _ => typeRank_le_of_category_expr⟩
  · refine ⟨.type, by simp [places, TypeExpr.children], fun found hfound => ?_⟩
    rw [typeRank_of_category_type hfound]
    simp [typeRank]

/-- The declarations that a reference accepts have a rank below that of the
node that has their type. -/
theorem typeRank_lt_of_accepts {kind found : NodeKind} {slot : Slot}
    (hslot : kind.typedSlot? = some slot) (haccepts : slot.accepts found = true) :
    found.typeRank < kind.typeRank := by
  unfold typedSlot? at hslot
  split at hslot <;> cases hslot <;> unfold Slot.accepts at haccepts <;>
    split at haccepts <;> simp_all [typeRank]

theorem isLocal_or_member_of_typedSlot? {kind : NodeKind} {slot : Slot}
    (h : kind.typedSlot? = some slot) :
    slot.isLocal = true ∨ slot = .constructor ∨ slot = .nodePort := by
  unfold typedSlot? at h
  split at h <;> cases h <;> simp [Slot.isLocal]

end NodeKind

/-! ## Chains end -/

namespace Tree

/-- The chain from a node ends if it ends from wherever the node passes it
on to. -/
theorem IsForest.exists_endsIn_of_next {tree : Tree} {links : Links} (hf : tree.IsForest)
    {id : NodeId} (h : ∀ next, tree.PassesTo links id next →
      ∃ length, tree.EndsIn links length next) : ∃ length, tree.EndsIn links length id := by
  by_cases hstep : ∃ next, tree.typeStep links id = .ok (.sameAs next)
  · obtain ⟨next, hnext⟩ := hstep
    obtain ⟨length, hends⟩ := h next (hf.typeStep_eq_sameAs_iff.mp hnext)
    exact ⟨length + 1, .step hnext hends⟩
  · exact ⟨0, .stop fun next hnext => hstep ⟨next, hnext⟩⟩

end Tree

namespace Workspace.Supports

variable {ws : Workspace} {links : Links} (hw : ws.tree.WellShaped) (hs : ws.Supports links)
include hw hs

/-- Outside of the documents nothing is bound, and a chain only goes down. -/
theorem exists_endsIn_of_not_inDocument {id : NodeId} (hid : ¬ ws.tree.InDocument id) :
    ∃ length, ws.tree.EndsIn links length id := by
  induction id using Nat.strongRecOn with
  | ind id ih =>
    refine hw.exists_endsIn_of_next ?_
    intro next hnext
    cases hnext with
    | child hkind hchild =>
      have hmem := NodeKind.mem_children_of_typedAs? hchild
      refine ih next (hw.child_lt hkind hmem) ?_
      intro hnext
      exact hid (hw.inDocument_of_hasChild hnext hkind hmem)
    | target _ _ htarget =>
      rw [hs.target_of_not_inDocument hid] at htarget
      cases htarget
    | argument _ hparent _ _ htarget =>
      have happlication := hs.inDocument_of_target htarget
      exact absurd (happlication.of_under (Tree.Under.head hparent (.refl _))) hid

/-- A step of a chain within the documents goes down in rank or down in the
tree. -/
theorem typeRank_of_passesTo {id next : NodeId} {kind : NodeKind} (hid : ws.tree.InDocument id)
    (hkind : ws.tree.kind id = .ok kind) (h : ws.tree.PassesTo links id next)
    (hnext : ws.tree.InDocument next) :
    ∃ found, ws.tree.kind next = .ok found ∧
      (found.typeRank < kind.typeRank ∨ found.typeRank ≤ kind.typeRank ∧ next < id) := by
  cases h with
  | child hkind' hchild =>
    cases Tree.kind_inj hkind hkind'
    obtain ⟨category, hplace, hrank⟩ := NodeKind.exists_place_of_typedAs? hchild
    obtain ⟨found, hfound, hcategory⟩ := hw.fits hid hkind hplace
    exact ⟨found, hfound, .inr ⟨hrank found hcategory,
      hw.child_lt hkind (NodeKind.mem_children_of_mem_places hplace)⟩⟩
  | target hkind' hslot htarget =>
    cases Tree.kind_inj hkind hkind'
    have hoffers := hs.offers_of_target htarget
    obtain ⟨found, hfound, haccepts⟩ : ∃ found, ws.tree.kind next = .ok found ∧
        Slot.accepts _ found = true := by
      obtain hlocal | hmember := NodeKind.isLocal_or_member_of_typedSlot? hslot
      · exact (of_offers_local hw hid hlocal hoffers).2
      · exact (of_offers_member hw hmember hoffers).2 hnext
    exact ⟨found, hfound, .inl (NodeKind.typeRank_lt_of_accepts hslot haccepts)⟩
  | argument hkind' _ _ _ htarget hconstructor hdeclared =>
    cases Tree.kind_inj hkind hkind'
    have hmem := List.mem_of_getElem? hdeclared
    have hdocument := hw.inDocument_of_hasChild hnext hconstructor hmem
    obtain ⟨found, hfound, hcategory⟩ :=
      hw.fits hdocument hconstructor (List.mem_map_of_mem hmem)
    refine ⟨found, hfound, .inl ?_⟩
    rw [NodeKind.typeRank_of_category_type hcategory]
    simp [NodeKind.typeRank]

theorem exists_endsIn_of_inDocument {id : NodeId} {kind : NodeKind}
    (hid : ws.tree.InDocument id) (hkind : ws.tree.kind id = .ok kind) :
    ∃ length, ws.tree.EndsIn links length id := by
  refine hw.exists_endsIn_of_next ?_
  intro next hnext
  by_cases hdocument : ws.tree.InDocument next
  · obtain ⟨found, hfound, hlower⟩ := hs.typeRank_of_passesTo hw hid hkind hnext hdocument
    exact exists_endsIn_of_inDocument hdocument hfound
  · exact hs.exists_endsIn_of_not_inDocument hw hdocument
termination_by (kind.typeRank, id)
decreasing_by
  obtain hlt | ⟨hle, hlt⟩ := hlower
  · exact Prod.Lex.left _ _ hlt
  · obtain heq | hlt' := Nat.eq_or_lt_of_le hle
    · rw [heq]
      exact Prod.Lex.right _ hlt
    · exact Prod.Lex.left _ _ hlt'

/-- Every chain ends. -/
theorem exists_endsIn (id : NodeId) : ∃ length, ws.tree.EndsIn links length id := by
  by_cases hid : ws.tree.InDocument id
  · obtain ⟨kind, hkind⟩ := Tree.exists_kind_of_lt (hw.lt_size_of_inDocument hid)
    exact hs.exists_endsIn_of_inDocument hw hid hkind
  · exact hs.exists_endsIn_of_not_inDocument hw hid

end Workspace.Supports

/-! ## No faults on the way -/

/-- Every target is a node of the tree. -/
def Links.Within (links : Links) (tree : Tree) : Prop :=
  ∀ id slot target, links.target id slot = some target → target < tree.size

namespace Tree

variable {tree : Tree} {links : Links}

theorem faultFree_instanceType {definition : NodeId} (h : definition < tree.size) :
    FaultFree (tree.instanceType definition) := by
  obtain ⟨kind, hkind⟩ := exists_kind_of_lt h
  rw [instanceType, hkind, ok_bind]
  split
  · exact faultFree_ok _
  · exact faultFree_ok _
  · exact faultFree_malformed _

namespace IsForest

variable (hf : tree.IsForest)
include hf

theorem faultFree_constructorType {id : NodeId} (h : id < tree.size) :
    FaultFree (tree.constructorType id) := by
  obtain ⟨parent, hparent⟩ := exists_parent_of_lt h
  rw [constructorType, hparent, ok_bind]
  cases parent with
  | none => exact faultFree_malformed _
  | some owner =>
    obtain ⟨kind, hkind⟩ := exists_kind_of_lt (hf.parent_lt_size hparent)
    simp only [hkind, ok_bind]
    split
    · exact faultFree_ok _
    · exact faultFree_malformed _

theorem faultFree_typeParameterType {id : NodeId} (h : id < tree.size) :
    FaultFree (tree.typeParameterType id) := by
  obtain ⟨parent, hparent⟩ := exists_parent_of_lt h
  rw [typeParameterType, hparent, ok_bind]
  cases parent with
  | none => exact faultFree_malformed _
  | some owner => exact faultFree_instanceType (hf.parent_lt_size hparent)

theorem faultFree_variableStep (hlinks : links.Within tree) {id : NodeId} (h : id < tree.size) :
    FaultFree (tree.variableStep links id) := by
  obtain ⟨application, _, _, place, _, _, _, hstep⟩ | ⟨_, hstep⟩ := hf.variableStep_cases links h
  · rw [hstep]
    cases htarget : links.target application .constructor with
    | none => exact faultFree_ok _
    | some constructor =>
      obtain ⟨kind, hkind⟩ := exists_kind_of_lt (hlinks _ _ _ htarget)
      rw [argumentStep, hkind, ok_bind]
      split
      · exact faultFree_ok _
      · exact faultFree_malformed _
  · rw [hstep]
    exact faultFree_ok _

theorem faultFree_typeStep (hlinks : links.Within tree) {id : NodeId} (h : id < tree.size) :
    FaultFree (tree.typeStep links id) := by
  obtain ⟨kind, hkind⟩ := exists_kind_of_lt h
  have hsays : tree.Says links id kind (tree.typeStep links id) := says_typeStep hkind
  generalize tree.typeStep links id = said at hsays
  cases hsays with
  | own _ | child _ | target _ => exact faultFree_ok _
  | definition _ =>
    refine FaultFree.map ?_ _
    unfold instanceTypeOf
    split
    · exact faultFree_instanceType (hlinks _ _ _ (by assumption))
    · exact faultFree_ok _
  | constructor _ _ => exact (hf.faultFree_constructorType h).map _
  | typeParameter _ => exact (hf.faultFree_typeParameterType h).map _
  | matchVariable _ => exact hf.faultFree_variableStep hlinks h

/-- A chain does not leave the tree. -/
theorem lt_size_of_passesTo (hlinks : links.Within tree) {id next : NodeId}
    (h : tree.PassesTo links id next) : next < tree.size := by
  cases h with
  | child hkind hchild => exact hf.child_lt_size hkind (NodeKind.mem_children_of_typedAs? hchild)
  | target _ _ htarget => exact hlinks _ _ _ htarget
  | argument _ _ _ _ _ hconstructor hnext =>
    exact hf.child_lt_size hconstructor (List.mem_of_getElem? hnext)

end IsForest

end Tree

namespace Workspace.Supports

variable {ws : Workspace} {links : Links}

theorem within (hw : ws.tree.WellShaped) (hindex : ws.HasBoundedIndex) (hs : ws.Supports links) :
    links.Within ws.tree := by
  intro id slot target htarget
  exact lt_size_of_offers hw hindex (hs.inDocument_of_target htarget) (hs.offers_of_target htarget)

theorem faultFree_infer (hw : ws.tree.WellShaped) (hindex : ws.HasBoundedIndex)
    (hs : ws.Supports links) {id : NodeId} (hid : id < ws.tree.size) :
    FaultFree (ws.tree.infer links id) := by
  have hlinks := hs.within hw hindex
  obtain ⟨length, hends⟩ := hs.exists_endsIn hw id
  refine hends.faultFree_infer (P := fun id => id < ws.tree.size) ?_ ?_ hid
  · intro id hid
    exact hw.faultFree_typeStep hlinks hid
  · intro id next _ hnext
    exact hw.lt_size_of_passesTo hlinks (hw.typeStep_eq_sameAs_iff.mp hnext)

end Workspace.Supports

end Dataflow
