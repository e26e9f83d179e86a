import Dataflow.Proofs.Typing

/-!
# Dataflow.Proofs.Untyped

Types by a sound table.  Every node of a document has a type, be it none
(`Links.Sound.exists_typeStep`, `Workspace.Supports.exists_infer`), and an
expression or a type expression has none exactly if its chain ends at a node
that lacks what it needs (`Tree.LacksType`): a reference that is not bound, or
a match variable without a place in a bound constructor
(`Links.Sound.hasType_untyped_iff`).
-/

namespace Dataflow

namespace NodeKind

/-- Whether a node is an expression or a type expression, or something that
these have their types from. -/
def isTerm : NodeKind → Bool
  | expr _ | type _ | port _ _ _ | constructor _ _ | typeParameter _ => true
  | _ => false

theorem ownType?_ne_untyped {kind : NodeKind} (h : kind.isTerm = true) (id : NodeId) :
    kind.ownType? id ≠ some .untyped := by
  intro hown
  cases kind with
  | expr expr => cases expr <;> cases hown
  | type type => cases type <;> cases hown
  | _ => cases h <;> cases hown

theorem isTerm_of_category {kind : NodeKind}
    (h : kind.category = .type ∨ kind.category = .expr) : kind.isTerm = true := by
  cases kind <;> simp_all [category, isTerm]

theorem isTerm_of_typedAs? {kind found : NodeKind} {child : NodeId} {category : Category}
    (hterm : kind.isTerm = true) (h : kind.typedAs? = some child)
    (hplace : (child, category) ∈ kind.places) (hfound : found.category = category) :
    found.isTerm = true := by
  refine isTerm_of_category ?_
  unfold typedAs? at h
  split at h <;> cases h <;> grind [places, Expr.children, TypeExpr.children, isTerm]

theorem isTerm_of_accepts {kind found : NodeKind} {slot : Slot}
    (hslot : kind.typedSlot? = some slot) (haccepts : slot.accepts found = true) :
    found.isTerm = true := by
  unfold typedSlot? at hslot
  split at hslot <;> cases hslot <;> unfold Slot.accepts at haccepts <;>
    split at haccepts <;> simp_all [isTerm]

theorem isGeneric_of_accepts {kind found : NodeKind} {slot : Slot}
    (hslot : kind.definitionSlot? = some slot) (haccepts : slot.accepts found = true) :
    found.isGeneric = true := by
  unfold definitionSlot? at hslot
  split at hslot <;> cases hslot <;> unfold Slot.accepts at haccepts <;>
    split at haccepts <;> simp_all [isGeneric]

end NodeKind

/-! ## Settled types -/

namespace Tree

variable {tree : Tree} {links : Links}

theorem exists_instanceType {definition : NodeId} {kind : NodeKind}
    (hkind : tree.kind definition = .ok kind) (hgeneric : kind.isGeneric = true) :
    ∃ ty, tree.instanceType definition = .ok ty ∧ ty ≠ .untyped := by
  rw [instanceType, hkind, ok_bind]
  cases kind with
  | dataType _ _ _ => exact ⟨_, rfl, Ty.noConfusion⟩
  | nodeType _ _ _ _ _ => exact ⟨_, rfl, Ty.noConfusion⟩
  | _ => cases hgeneric

theorem exists_settled {computed : Result Ty} (h : ∃ ty, computed = .ok ty ∧ ty ≠ .untyped) :
    ∃ step, (.settled <$> computed) = Except.ok step ∧ step ≠ TypeStep.settled .untyped := by
  obtain ⟨ty, rfl, hne⟩ := h
  exact ⟨.settled ty, rfl, fun h => hne (TypeStep.settled.inj h)⟩

/-- A node that should have its type from elsewhere and has not. -/
inductive LacksType (tree : Tree) (links : Links) (id : NodeId) : Prop where
  /-- The reference that it has its type from is not bound. -/
  | unbound {kind : NodeKind} {slot : Slot} (hkind : tree.kind id = .ok kind)
    (hslot : kind.typedSlot? = some slot ∨ kind.definitionSlot? = some slot)
    (hnone : links.target id slot = none)
  /-- It is a match variable, and not an argument of an application. -/
  | unplaced {name : String} (hkind : tree.kind id = .ok (.expr (.variableDefinition name)))
    (hnot : ∀ application applied args, tree.parent id = .ok (some application) →
      tree.kind application ≠ .ok (.expr (.apply applied args)))
  /-- It is an argument of an application that is not bound. -/
  | unmatched {name applied : String} {args : List NodeId} {application : NodeId} {place : Nat}
    (hkind : tree.kind id = .ok (.expr (.variableDefinition name)))
    (happlication : tree.kind application = .ok (.expr (.apply applied args)))
    (hplace : args[place]? = some id) (hnone : links.target application .constructor = none)
  /-- It is an argument beyond those that the constructor declares. -/
  | surplus {name applied constructorName : String} {args declared : List NodeId}
    {application constructor : NodeId} {place : Nat}
    (hkind : tree.kind id = .ok (.expr (.variableDefinition name)))
    (happlication : tree.kind application = .ok (.expr (.apply applied args)))
    (hplace : args[place]? = some id)
    (htarget : links.target application .constructor = some constructor)
    (hconstructor : tree.kind constructor = .ok (.constructor constructorName declared))
    (hle : declared.length ≤ place)

/-- A node that lacks what it needs has no type. -/
theorem IsForest.typeStep_of_lacksType (hf : tree.IsForest) {id : NodeId}
    (h : tree.LacksType links id) : tree.typeStep links id = .ok (.settled .untyped) := by
  cases h with
  | unbound hkind hslot hnone =>
    unfold typeStep
    rw [hkind, ok_bind]
    unfold NodeKind.typedSlot? NodeKind.definitionSlot? at hslot
    obtain hslot | hslot := hslot
    · split at hslot <;> cases hslot <;> simp [exprStep, typeExprStep, hnone, TypeStep.ofTarget]
    · split at hslot <;> cases hslot <;> simp [typeExprStep, hnone, instanceTypeOf]
  | unplaced hkind hnot =>
    rw [typeStep_of_variableDefinition hkind]
    exact hf.variableStep_of_not_application (lt_size_of_kind hkind) hnot
  | unmatched hkind happlication hplace hnone =>
    rw [typeStep_of_variableDefinition hkind, hf.variableStep_of_argument happlication hplace,
      hnone]
    rfl
  | surplus hkind happlication hplace htarget hconstructor hle =>
    rw [typeStep_of_variableDefinition hkind, hf.variableStep_of_argument happlication hplace,
      htarget, argumentStep_of_constructor hconstructor, List.getElem?_eq_none hle]
    rfl

namespace WellShaped

variable (hw : tree.WellShaped)
include hw

theorem exists_constructorType {id : NodeId} {name : String} {args : List NodeId}
    (hid : tree.InDocument id) (hkind : tree.kind id = .ok (.constructor name args)) :
    ∃ ty, tree.constructorType id = .ok ty ∧ ty ≠ .untyped := by
  obtain ⟨_, hfile⟩ | ⟨owner, okind, hparent, _, hokind, hplace⟩ := hw.place hid hkind
  · cases hfile
  · obtain ⟨_, _, _, rfl⟩ := NodeKind.exists_dataType_of_mem_places hplace
    refine ⟨.dataType owner, ?_, nofun⟩
    rw [constructorType, hparent]
    simp only [ok_bind, hokind]
    rfl

theorem exists_typeParameterType {id : NodeId} {name : String}
    (hid : tree.InDocument id) (hkind : tree.kind id = .ok (.typeParameter name)) :
    ∃ ty, tree.typeParameterType id = .ok ty ∧ ty ≠ .untyped := by
  obtain ⟨_, hfile⟩ | ⟨owner, okind, hparent, _, hokind, hplace⟩ := hw.place hid hkind
  · cases hfile
  · rw [typeParameterType, hparent]
    exact exists_instanceType hokind (NodeKind.isGeneric_of_mem_places hplace)

end WellShaped

end Tree

/-! ## Every node of a document says something -/

namespace Links.Sound

variable {tree : Tree} {links : Links} (hw : tree.WellShaped) (hl : links.Sound tree)
include hw hl

/-- A match variable has a place in a bound constructor or lacks one. -/
theorem of_variableStep {id : NodeId} {name : String}
    (hkind : tree.kind id = .ok (.expr (.variableDefinition name))) :
    ∃ step, tree.variableStep links id = .ok step ∧
      (step = .settled .untyped → tree.LacksType links id) := by
  obtain ⟨application, _, _, place, _, happlication, hplace, hstep⟩ | ⟨hnot, hstep⟩ :=
    hw.variableStep_cases links (Tree.lt_size_of_kind hkind)
  · rw [hstep]
    cases htarget : links.target application .constructor with
    | none => exact ⟨_, rfl, fun _ => .unmatched hkind happlication hplace htarget⟩
    | some constructor =>
      obtain ⟨_, _, ckind, hckind, haccepts⟩ := hl _ _ htarget
      cases ckind with
      | constructor _ declared =>
        refine ⟨_, Tree.argumentStep_of_constructor hckind place, ?_⟩
        intro huntyped
        refine .surplus hkind happlication hplace htarget hckind ?_
        cases hdeclared : declared[place]? with
        | none => exact List.getElem?_eq_none_iff.mp hdeclared
        | some type =>
          rw [hdeclared] at huntyped
          cases huntyped
      | _ => cases haccepts
  · exact ⟨_, hstep, fun _ => .unplaced hkind hnot⟩

/-- Every node of a document says something about its type.  If it is that
there is none, the node lacks something or is of a kind without types. -/
theorem exists_typeStep {id : NodeId} {kind : NodeKind} (hid : tree.InDocument id)
    (hkind : tree.kind id = .ok kind) :
    ∃ step, tree.typeStep links id = .ok step ∧
      (step = .settled .untyped → tree.LacksType links id ∨ kind.ownType? id = some .untyped) := by
  have hsays : tree.Says links id kind (tree.typeStep links id) := Tree.says_typeStep hkind
  generalize tree.typeStep links id = said at hsays
  cases hsays with
  | own hown =>
    refine ⟨_, rfl, ?_⟩
    intro huntyped
    cases huntyped
    exact .inr hown
  | child _ => exact ⟨_, rfl, nofun⟩
  | @target _ slot hslot =>
    refine ⟨_, rfl, ?_⟩
    cases htarget : links.target id slot with
    | none => exact fun _ => .inl (.unbound hkind (.inl hslot) htarget)
    | some target => exact nofun
  | @definition _ slot hslot =>
    cases htarget : links.target id slot with
    | none => exact ⟨_, rfl, fun _ => .inl (.unbound hkind (.inr hslot) htarget)⟩
    | some definition =>
      obtain ⟨_, _, found, hfound, haccepts⟩ := hl _ _ htarget
      obtain ⟨step, hstep, hne⟩ := Tree.exists_settled
        (Tree.exists_instanceType hfound (NodeKind.isGeneric_of_accepts hslot haccepts))
      exact ⟨step, hstep, fun huntyped => absurd huntyped hne⟩
  | constructor _ _ =>
    obtain ⟨step, hstep, hne⟩ := Tree.exists_settled (hw.exists_constructorType hid hkind)
    exact ⟨step, hstep, fun huntyped => absurd huntyped hne⟩
  | typeParameter _ =>
    obtain ⟨step, hstep, hne⟩ := Tree.exists_settled (hw.exists_typeParameterType hid hkind)
    exact ⟨step, hstep, fun huntyped => absurd huntyped hne⟩
  | matchVariable _ =>
    obtain ⟨step, hstep, hlacks⟩ := hl.of_variableStep hw hkind
    exact ⟨step, hstep, fun huntyped => .inl (hlacks huntyped)⟩

/-! ## Following chains -/

/-- A chain stays within the documents. -/
theorem inDocument_of_passesTo {id next : NodeId} (hid : tree.InDocument id)
    (h : tree.PassesTo links id next) : tree.InDocument next := by
  cases h with
  | child hkind hchild =>
    exact hw.inDocument_of_child hid hkind (NodeKind.mem_children_of_typedAs? hchild)
  | target _ _ htarget => exact (hl _ _ htarget).2.1
  | argument _ _ _ _ htarget hconstructor hnext =>
    exact hw.inDocument_of_child (hl _ _ htarget).2.1 hconstructor (List.mem_of_getElem? hnext)

/-- A chain that begins with a term stays among terms. -/
theorem isTerm_of_passesTo {id next : NodeId} {kind : NodeKind} (hid : tree.InDocument id)
    (hkind : tree.kind id = .ok kind) (hterm : kind.isTerm = true)
    (h : tree.PassesTo links id next) :
    ∃ found, tree.kind next = .ok found ∧ found.isTerm = true := by
  cases h with
  | child hkind' hchild =>
    cases Tree.kind_inj hkind hkind'
    obtain ⟨category, hplace⟩ :=
      NodeKind.exists_mem_places (NodeKind.mem_children_of_typedAs? hchild)
    obtain ⟨found, hfound, hcategory⟩ := hw.fits hid hkind hplace
    exact ⟨found, hfound, NodeKind.isTerm_of_typedAs? hterm hchild hplace hcategory⟩
  | target _ hslot htarget =>
    obtain ⟨_, _, found, hfound, haccepts⟩ := hl _ _ htarget
    exact ⟨found, hfound, NodeKind.isTerm_of_accepts hslot haccepts⟩
  | argument _ _ _ _ htarget hconstructor hnext =>
    obtain ⟨found, hfound, hcategory⟩ := hw.fits (hl _ _ htarget).2.1 hconstructor
      (List.mem_map_of_mem (List.mem_of_getElem? hnext))
    exact ⟨found, hfound, NodeKind.isTerm_of_category (.inl hcategory)⟩

theorem inDocument_of_path {id last : NodeId} (hid : tree.InDocument id)
    (h : Relation.ReflTransGen (tree.PassesTo links) id last) : tree.InDocument last := by
  induction h with
  | refl => exact hid
  | tail _ hnext ih => exact hl.inDocument_of_passesTo hw ih hnext

/-- A term has no type exactly if its chain leads to a node that lacks what it
needs. -/
theorem hasType_untyped_iff {id : NodeId} {kind : NodeKind} (hid : tree.InDocument id)
    (hkind : tree.kind id = .ok kind) (hterm : kind.isTerm = true) :
    tree.HasType links id .untyped ↔
      ∃ last, Relation.ReflTransGen (tree.PassesTo links) id last ∧ tree.LacksType links last := by
  constructor
  · intro h
    generalize hty : Ty.untyped = ty at h
    induction h generalizing kind with
    | settled hstep =>
      subst hty
      obtain ⟨step, hstep', hlacks⟩ := hl.exists_typeStep hw hid hkind
      rw [hstep] at hstep'
      cases hstep'
      obtain hlacks | hown := hlacks rfl
      · exact ⟨_, .refl, hlacks⟩
      · exact absurd hown (NodeKind.ownType?_ne_untyped hterm _)
    | sameAs hstep _ ih =>
      have hnext := hw.typeStep_eq_sameAs_iff.mp hstep
      obtain ⟨found, hfound, hterm⟩ := hl.isTerm_of_passesTo hw hid hkind hterm hnext
      obtain ⟨last, hpath, hlacks⟩ :=
        ih (hl.inDocument_of_passesTo hw hid hnext) hfound hterm hty
      exact ⟨last, .head hnext hpath, hlacks⟩
  · intro ⟨last, hpath, hlacks⟩
    clear hid hkind
    induction hpath using Relation.ReflTransGen.head_induction_on with
    | refl => exact .settled (hw.typeStep_of_lacksType hlacks)
    | head hnext _ ih => exact .sameAs (hw.typeStep_eq_sameAs_iff.mpr hnext) ih

end Links.Sound

namespace Workspace.Supports

variable {ws : Workspace} {links : Links} (hw : ws.tree.WellShaped) (hindex : ws.HasSoundIndex)
  (hs : ws.Supports links)
include hw hindex hs

/-- By a sound index inference has an answer at every node of a document. -/
theorem exists_infer {id : NodeId} (hid : ws.tree.InDocument id) :
    ∃ ty, ws.tree.infer links id = .ok ty := by
  have hl := hs.sound hw hindex
  have hstep : ∀ id, ws.tree.InDocument id → ∃ step, ws.tree.typeStep links id = .ok step := by
    intro id hid
    obtain ⟨kind, hkind⟩ := Tree.exists_kind_of_lt (hw.lt_size_of_inDocument hid)
    obtain ⟨step, hstep, _⟩ := hl.exists_typeStep hw hid hkind
    exact ⟨step, hstep⟩
  have hnext : ∀ id next, ws.tree.InDocument id →
      ws.tree.typeStep links id = .ok (.sameAs next) → ws.tree.InDocument next := by
    intro id next hid hnext
    exact hl.inDocument_of_passesTo hw hid (hw.typeStep_eq_sameAs_iff.mp hnext)
  obtain ⟨length, hends⟩ := hs.exists_endsIn hw id
  obtain ⟨ty, hty⟩ := hends.exists_hasType hstep hnext hid
  exact ⟨ty, Tree.infer_eq_ok_iff.mpr hty⟩

end Workspace.Supports

end Dataflow
