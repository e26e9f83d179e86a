import Dataflow.Proofs.Walk
import Dataflow.Typing.Infer

/-!
# Dataflow.Proofs.Inference

Inference without a bound.  `Tree.HasType` says what type a node has by
following its chain to the end, however long it is; the bounded `Tree.infer`
finds exactly these types (`infer_eq_ok_iff`), because a chain that ends
passes no node twice (`EndsIn.le_size`).

What inference finds depends only on what the nodes of the chain say
(`infer_congr`).  In a forest a node passes its chain on to a child, to the
target of a reference or, if it is a match variable, to the type of the
argument in whose place it stands (`IsForest.typeStep_eq_sameAs_iff`).
-/

namespace Dataflow

theorem TypeStep.ofTarget_eq_sameAs_iff {target : Option NodeId} {next : NodeId} :
    TypeStep.ofTarget target = .sameAs next ↔ target = some next := by
  cases target <;> simp [TypeStep.ofTarget]

namespace NodeKind

/-- The child whose type a node has. -/
def typedAs? : NodeKind → Option NodeId
  | port _ _ portType => some portType
  | instanceDecl _ origin => some origin
  | expr (.binary left _ _) => some left
  | expr (.parens inner) => some inner
  | type (.parens inner) => some inner
  | _ => none

/-- The slot whose target has the type of a node. -/
def typedSlot? : NodeKind → Option Slot
  | source (.selfPort _) => some .sourcePort
  | expr (.apply _ _) => some .constructor
  | expr (.variableUsage _) => some .matchVariable
  | expr (.nodePort _ _) => some .nodePort
  | expr (.selfPort _) => some .selfPort
  | type (.parameter _) => some .typeParameter
  | _ => none

/-- The slot whose target is the definition that a node has an instance of. -/
def definitionSlot? : NodeKind → Option Slot
  | source (.definition _) => some .nodeDef
  | type (.apply _ _) => some .dataType
  | _ => none

/-- The type of a node that has it from nowhere else. -/
def ownType? (id : NodeId) : NodeKind → Option Ty
  | dataType _ _ _ => some (.dataType id)
  | nodeType _ _ _ _ _ => some (.nodeType id)
  | expr (.number _) => some (.primitive .float)
  | expr (.string _) => some (.primitive .string)
  | type .integer => some (.primitive .integer)
  | type .boolean => some (.primitive .boolean)
  | type .string => some (.primitive .string)
  | type .float => some (.primitive .float)
  | file _ | body _ _ _ | link _ _ | matching _ _ | matchCase _ _ => some .untyped
  | _ => none

/-- A node gives a name in the slot that it has its type from. -/
theorem exists_reference_of_slot {kind : NodeKind} {slot : Slot}
    (h : kind.typedSlot? = some slot ∨ kind.definitionSlot? = some slot) :
    ∃ name, (slot, name) ∈ kind.references := by
  unfold typedSlot? definitionSlot? at h
  obtain h | h := h <;> split at h <;> cases h <;>
    simp [references, InstanceSource.references, Expr.references, TypeExpr.references]

theorem mem_children_of_typedAs? {kind : NodeKind} {child : NodeId}
    (h : kind.typedAs? = some child) : child ∈ kind.children := by
  unfold typedAs? at h
  split at h <;> cases h <;> simp [children, Expr.children, TypeExpr.children]

end NodeKind

namespace Tree

variable {tree : Tree} {links : Links}

/-! ## Chains -/

/-- A node has the type that the last node of its chain settles. -/
inductive HasType (tree : Tree) (links : Links) : NodeId → Ty → Prop where
  | settled {id : NodeId} {ty : Ty} :
    tree.typeStep links id = .ok (.settled ty) → HasType tree links id ty
  | sameAs {id next : NodeId} {ty : Ty} :
    tree.typeStep links id = .ok (.sameAs next) → HasType tree links next ty →
      HasType tree links id ty

/-- The chain from a node ends after so many steps, in a type or not. -/
inductive EndsIn (tree : Tree) (links : Links) : Nat → NodeId → Prop where
  | stop {id : NodeId} :
    (∀ next, tree.typeStep links id ≠ .ok (.sameAs next)) → EndsIn tree links 0 id
  | step {length : Nat} {id next : NodeId} :
    tree.typeStep links id = .ok (.sameAs next) → EndsIn tree links length next →
      EndsIn tree links (length + 1) id

theorem HasType.exists_endsIn {id : NodeId} {ty : Ty} (h : tree.HasType links id ty) :
    ∃ length, tree.EndsIn links length id := by
  induction h with
  | settled hstep =>
    refine ⟨0, .stop ?_⟩
    intro next hnext
    rw [hstep] at hnext
    cases hnext
  | sameAs hstep _ ih =>
    obtain ⟨length, hends⟩ := ih
    exact ⟨length + 1, .step hstep hends⟩

theorem lt_size_of_typeStep {id : NodeId} {step : TypeStep}
    (h : tree.typeStep links id = .ok step) : id < tree.size := by
  obtain ⟨kind, hkind, _⟩ := bind_eq_ok_iff.mp h
  exact lt_size_of_kind hkind

theorem EndsIn.unique {length length' : Nat} {id : NodeId} (h : tree.EndsIn links length id)
    (h' : tree.EndsIn links length' id) : length = length' := by
  induction h generalizing length' with
  | stop hstop =>
    cases h' with
    | stop _ => rfl
    | step hstep _ => exact absurd hstep (hstop _)
  | step hstep _ ih =>
    cases h' with
    | stop hstop => exact absurd hstep (hstop _)
    | step hstep' hends =>
      rw [hstep] at hstep'
      cases hstep'
      rw [ih hends]

/-- The nodes of a chain before its last one are different nodes of the tree:
from each the chain has another length. -/
theorem EndsIn.exists_nodes {length : Nat} {id : NodeId} (h : tree.EndsIn links length id) :
    ∃ passed : List NodeId, passed.length = length ∧ passed.Nodup ∧
      ∀ node ∈ passed, node < tree.size ∧ ∃ rest ≤ length, tree.EndsIn links rest node := by
  induction h with
  | stop _ => exact ⟨[], rfl, List.nodup_nil, by simp⟩
  | @step length id next hstep hends ih =>
    obtain ⟨passed, hlength, hnodup, hpassed⟩ := ih
    refine ⟨id :: passed, by rw [List.length_cons, hlength], List.nodup_cons.mpr ⟨?_, hnodup⟩, ?_⟩
    · intro hmem
      obtain ⟨_, rest, hrest, hends'⟩ := hpassed id hmem
      have heq := hends'.unique (.step hstep hends)
      lia
    · intro node hmem
      obtain rfl | hmem := List.mem_cons.mp hmem
      · exact ⟨lt_size_of_typeStep hstep, length + 1, Nat.le_refl _, .step hstep hends⟩
      · obtain ⟨hlt, rest, hrest, hends'⟩ := hpassed node hmem
        exact ⟨hlt, rest, Nat.le_succ_of_le hrest, hends'⟩

/-- A chain that ends has at most as many steps as there are nodes. -/
theorem EndsIn.le_size {length : Nat} {id : NodeId} (h : tree.EndsIn links length id) :
    length ≤ tree.size := by
  obtain ⟨passed, hlength, hnodup, hpassed⟩ := h.exists_nodes
  have hsubset : passed ⊆ List.range tree.size :=
    fun node hmem => List.mem_range.mpr (hpassed node hmem).1
  have hle := hnodup.length_le_of_subset hsubset
  rwa [hlength, List.length_range] at hle

/-! ## The bound is no bound -/

theorem HasType.inferWithin {length bound : Nat} {id : NodeId} {ty : Ty}
    (h : tree.HasType links id ty) (hends : tree.EndsIn links length id) (hlt : length < bound) :
    tree.inferWithin links bound id = .ok ty := by
  induction h generalizing length bound with
  | settled hstep =>
    obtain ⟨bound, rfl⟩ := Nat.exists_eq_add_of_lt (Nat.zero_lt_of_lt hlt)
    rw [Nat.zero_add, Tree.inferWithin, hstep]
    rfl
  | sameAs hstep _ ih =>
    obtain ⟨bound, rfl⟩ := Nat.exists_eq_add_of_lt (Nat.zero_lt_of_lt hlt)
    rw [Nat.zero_add] at hlt ⊢
    rw [Tree.inferWithin, hstep]
    cases hends with
    | stop hstop => exact absurd hstep (hstop _)
    | step hstep' hends =>
      rw [hstep] at hstep'
      cases hstep'
      exact ih hends (Nat.lt_of_succ_lt_succ hlt)

theorem hasType_of_inferWithin {bound : Nat} {id : NodeId} {ty : Ty}
    (h : tree.inferWithin links bound id = .ok ty) : tree.HasType links id ty := by
  induction bound generalizing id with
  | zero => cases h
  | succ bound ih =>
    rw [inferWithin] at h
    obtain ⟨step, hstep, h⟩ := bind_eq_ok_iff.mp h
    cases step with
    | settled found =>
      cases h
      exact .settled hstep
    | sameAs next => exact .sameAs hstep (ih h)

/-- Inference finds the type at the end of the chain. -/
theorem infer_eq_ok_iff {id : NodeId} {ty : Ty} :
    tree.infer links id = .ok ty ↔ tree.HasType links id ty := by
  constructor
  · exact hasType_of_inferWithin
  · intro h
    obtain ⟨length, hends⟩ := h.exists_endsIn
    exact h.inferWithin hends (Nat.lt_succ_of_le hends.le_size)

/-- Along a chain that ends and whose nodes cause no fault, inference causes
none. -/
theorem EndsIn.faultFree_inferWithin {P : NodeId → Prop}
    (hsafe : ∀ id, P id → FaultFree (tree.typeStep links id))
    (hnext : ∀ id next, P id → tree.typeStep links id = .ok (.sameAs next) → P next)
    {length bound : Nat} {id : NodeId} (h : tree.EndsIn links length id) (hid : P id)
    (hlt : length < bound) : FaultFree (tree.inferWithin links bound id) := by
  induction h generalizing bound with
  | stop hstop =>
    obtain ⟨bound, rfl⟩ := Nat.exists_eq_add_of_lt (Nat.zero_lt_of_lt hlt)
    rw [Nat.zero_add, inferWithin]
    refine (hsafe _ hid).bind ?_
    intro step hstep
    cases step with
    | settled ty => exact faultFree_ok ty
    | sameAs next => exact absurd hstep (hstop next)
  | step hstep _ ih =>
    obtain ⟨bound, rfl⟩ := Nat.exists_eq_add_of_lt (Nat.zero_lt_of_lt hlt)
    rw [Nat.zero_add] at hlt ⊢
    rw [inferWithin, hstep]
    exact ih (hnext _ _ hid hstep) (Nat.lt_of_succ_lt_succ hlt)

theorem EndsIn.faultFree_infer {P : NodeId → Prop}
    (hsafe : ∀ id, P id → FaultFree (tree.typeStep links id))
    (hnext : ∀ id next, P id → tree.typeStep links id = .ok (.sameAs next) → P next)
    {length : Nat} {id : NodeId} (h : tree.EndsIn links length id) (hid : P id) :
    FaultFree (tree.infer links id) :=
  h.faultFree_inferWithin hsafe hnext hid (Nat.lt_succ_of_le h.le_size)

/-- A node whose chain ends and stays among nodes that all say something has
a type. -/
theorem EndsIn.exists_hasType {P : NodeId → Prop}
    (hok : ∀ id, P id → ∃ step, tree.typeStep links id = .ok step)
    (hnext : ∀ id next, P id → tree.typeStep links id = .ok (.sameAs next) → P next)
    {length : Nat} {id : NodeId} (h : tree.EndsIn links length id) (hid : P id) :
    ∃ ty, tree.HasType links id ty := by
  induction h with
  | @stop id hstop =>
    obtain ⟨step, hstep⟩ := hok id hid
    cases step with
    | settled ty => exact ⟨ty, .settled hstep⟩
    | sameAs next => exact absurd hstep (hstop next)
  | step hstep _ ih =>
    obtain ⟨ty, hty⟩ := ih (hnext _ _ hid hstep)
    exact ⟨ty, .sameAs hstep hty⟩

/-- Inference is the same by two tables if the nodes of the chain say the
same by both. -/
theorem infer_congr {links' : Links} {P : NodeId → Prop}
    (hagree : ∀ id, P id → tree.typeStep links id = tree.typeStep links' id)
    (hnext : ∀ id next, P id → tree.typeStep links id = .ok (.sameAs next) → P next)
    {id : NodeId} (hid : P id) : tree.infer links id = tree.infer links' id := by
  unfold infer
  generalize tree.size + 1 = bound
  induction bound generalizing id with
  | zero => rfl
  | succ bound ih =>
    rw [inferWithin, inferWithin, ← hagree id hid]
    cases hstep : tree.typeStep links id with
    | error halt => rfl
    | ok step =>
      cases step with
      | settled ty => rfl
      | sameAs next => exact ih (hnext id next hid hstep)

/-! ## Match variables -/

/-- What the argument at a place of an application says about its type, given
what the application refers to. -/
def argumentStep (tree : Tree) (place : Nat) : Option NodeId → Result TypeStep
  | none => .ok (.settled .untyped)
  | some constructor => do
    match ← tree.kind constructor with
    | .constructor _ declared => return .ofTarget declared[place]?
    | _ => malformed (.unexpectedNode constructor .constructor)

theorem argumentStep_of_constructor {constructor : NodeId} {name : String}
    {declared : List NodeId} (h : tree.kind constructor = .ok (.constructor name declared))
    (place : Nat) :
    tree.argumentStep place (some constructor) = .ok (.ofTarget declared[place]?) := by
  rw [argumentStep, h]
  rfl

namespace IsForest

variable (hf : tree.IsForest)
include hf

/-- A child of an application has a place among its arguments. -/
theorem exists_place {id application : NodeId} {applied : String} {args : List NodeId}
    (hparent : tree.parent id = .ok (some application))
    (hkind : tree.kind application = .ok (.expr (.apply applied args))) :
    ∃ place : Nat, args[place]? = some id := by
  obtain ⟨found, hfound, hmem⟩ := hf.child_of_parent hparent
  cases kind_inj hkind hfound
  exact List.mem_iff_getElem?.mp hmem

/-- A variable that is an argument looks for its place in the constructor
that the application refers to. -/
theorem variableStep_of_argument {id application : NodeId} {applied : String}
    {args : List NodeId} {place : Nat}
    (hkind : tree.kind application = .ok (.expr (.apply applied args)))
    (hplace : args[place]? = some id) :
    tree.variableStep links id =
      tree.argumentStep place (links.target application .constructor) := by
  have hparent := hf.parent_of_child hkind (List.mem_of_getElem? hplace)
  obtain ⟨above, habove⟩ := hf.exists_lineage (hf.parent_lt_size hparent)
  -- The arguments are distinct, so the place is found by a search.
  have hfound : args.idxOf? id = some place := by
    obtain ⟨hlt, heq⟩ := List.getElem?_eq_some_iff.mp hplace
    refine List.idxOf?_eq_some_iff.mpr ⟨hlt, heq, ?_⟩
    intro earlier hearlier hsame
    have hnodup : args.Nodup := hf.nodup_children hkind
    have hearlier' : args[earlier]? = some id :=
      List.getElem?_eq_some_iff.mpr ⟨Nat.lt_trans hearlier hlt, hsame⟩
    have heq' := (List.getElem?_inj hlt hnodup).mp (hplace.trans hearlier'.symm)
    exact absurd hearlier (heq' ▸ Nat.lt_irrefl _)
  unfold variableStep
  rw [hf.lineage_of_parent hparent hkind, habove, map_ok, ok_bind]
  rw [List.dropWhile_cons_of_neg (by simp [NodeKind.isParens])]
  simp only [hfound]
  cases links.target application .constructor <;> rfl

/-- A variable that is not an argument itself, be it in parentheses below an
application, has no type. -/
theorem variableStep_of_not_application {id : NodeId} (hid : id < tree.size)
    (hnot : ∀ application name args, tree.parent id = .ok (some application) →
      tree.kind application ≠ .ok (.expr (.apply name args))) :
    tree.variableStep links id = .ok (.settled .untyped) := by
  obtain ⟨entries, hentries⟩ := hf.exists_lineage hid
  unfold variableStep
  rw [hentries, ok_bind]
  split
  · rename_i application name args rest hdrop
    have hmem : (application, NodeKind.expr (.apply name args)) ∈ entries :=
      (List.dropWhile_sublist _).subset (hdrop ▸ List.mem_cons_self)
    have hkind := ((hf.mem_lineage_iff hentries).mp hmem).2
    -- An application that lists the variable is its parent.
    have hnotMem : id ∉ args := by
      intro harg
      exact hnot application name args (hf.parent_of_child hkind harg) hkind
    have hplace : args.idxOf? id = none := by simpa using hnotMem
    simp only [hplace]
    rfl
  · rfl

/-- A variable is an argument or has no type. -/
theorem variableStep_cases (links : Links) {id : NodeId} (hid : id < tree.size) :
    (∃ application applied args place, tree.parent id = .ok (some application) ∧
        tree.kind application = .ok (.expr (.apply applied args)) ∧ args[place]? = some id ∧
          tree.variableStep links id =
            tree.argumentStep place (links.target application .constructor)) ∨
      ((∀ application applied args, tree.parent id = .ok (some application) →
          tree.kind application ≠ .ok (.expr (.apply applied args))) ∧
        tree.variableStep links id = .ok (.settled .untyped)) := by
  by_cases happlication : ∃ application applied args, tree.parent id = .ok (some application) ∧
      tree.kind application = .ok (.expr (.apply applied args))
  · obtain ⟨application, applied, args, hparent, happlication⟩ := happlication
    obtain ⟨place, hplace⟩ := hf.exists_place hparent happlication
    exact .inl ⟨application, applied, args, place, hparent, happlication, hplace,
      hf.variableStep_of_argument happlication hplace⟩
  · have hnot : ∀ application applied args, tree.parent id = .ok (some application) →
        tree.kind application ≠ .ok (.expr (.apply applied args)) := by
      intro application applied args hparent hkind
      exact happlication ⟨application, applied, args, hparent, hkind⟩
    exact .inr ⟨hnot, hf.variableStep_of_not_application hid hnot⟩

end IsForest

/-! ## Where a chain goes -/

/-- A node has the type of another one. -/
inductive PassesTo (tree : Tree) (links : Links) (id next : NodeId) : Prop where
  | child {kind : NodeKind} (hkind : tree.kind id = .ok kind) (hchild : kind.typedAs? = some next)
  | target {kind : NodeKind} {slot : Slot} (hkind : tree.kind id = .ok kind)
    (hslot : kind.typedSlot? = some slot) (htarget : links.target id slot = some next)
  | argument {name applied constructorName : String} {args declared : List NodeId}
    {application constructor : NodeId} {place : Nat}
    (hkind : tree.kind id = .ok (.expr (.variableDefinition name)))
    (hparent : tree.parent id = .ok (some application))
    (happlication : tree.kind application = .ok (.expr (.apply applied args)))
    (hplace : args[place]? = some id)
    (htarget : links.target application .constructor = some constructor)
    (hconstructor : tree.kind constructor = .ok (.constructor constructorName declared))
    (hnext : declared[place]? = some next)

/-- The ways in which a node of some kind says what type it has. -/
inductive Says (tree : Tree) (links : Links) (id : NodeId) : NodeKind → Result TypeStep → Prop where
  | own {kind : NodeKind} {ty : Ty} (h : kind.ownType? id = some ty) :
    Says tree links id kind (.ok (.settled ty))
  | child {kind : NodeKind} {child : NodeId} (h : kind.typedAs? = some child) :
    Says tree links id kind (.ok (.sameAs child))
  | target {kind : NodeKind} {slot : Slot} (h : kind.typedSlot? = some slot) :
    Says tree links id kind (.ok (.ofTarget (links.target id slot)))
  | definition {kind : NodeKind} {slot : Slot} (h : kind.definitionSlot? = some slot) :
    Says tree links id kind (.settled <$> tree.instanceTypeOf (links.target id slot))
  | constructor (name : String) (args : List NodeId) :
    Says tree links id (.constructor name args) (.settled <$> tree.constructorType id)
  | typeParameter (name : String) :
    Says tree links id (.typeParameter name) (.settled <$> tree.typeParameterType id)
  | matchVariable (name : String) :
    Says tree links id (.expr (.variableDefinition name)) (tree.variableStep links id)

theorem says_typeStep {id : NodeId} {kind : NodeKind} (hkind : tree.kind id = .ok kind) :
    tree.Says links id kind (tree.typeStep links id) := by
  unfold typeStep
  rw [hkind, ok_bind]
  cases kind with
  | file _ | body _ _ _ | link _ _ | matching _ _ | matchCase _ _ => exact .own rfl
  | dataType _ _ _ | nodeType _ _ _ _ _ => exact .own rfl
  | constructor name args => exact .constructor name args
  | typeParameter name => exact .typeParameter name
  | port _ _ _ | instanceDecl _ _ => exact .child rfl
  | source origin =>
    cases origin with
    | selfPort port => exact .target rfl
    | definition nodeDef => exact .definition rfl
  | expr e =>
    cases e with
    | binary _ _ _ | parens _ => exact .child rfl
    | apply _ _ | variableUsage _ | nodePort _ _ | selfPort _ => exact .target rfl
    | variableDefinition name => exact .matchVariable name
    | number _ | string _ => exact .own rfl
  | type t =>
    cases t with
    | integer | boolean | string | float => exact .own rfl
    | apply _ _ => exact .definition rfl
    | parameter _ => exact .target rfl
    | parens _ => exact .child rfl

theorem typeStep_of_variableDefinition {id : NodeId} {name : String}
    (hkind : tree.kind id = .ok (.expr (.variableDefinition name))) :
    tree.typeStep links id = tree.variableStep links id := by
  unfold typeStep
  rw [hkind]
  rfl

/-- A match variable passes its chain on only as an argument. -/
theorem IsForest.passesTo_of_variableStep (hf : tree.IsForest) {id next : NodeId}
    {name : String} (hkind : tree.kind id = .ok (.expr (.variableDefinition name)))
    (h : tree.variableStep links id = .ok (.sameAs next)) : tree.PassesTo links id next := by
  obtain ⟨application, applied, args, place, hparent, happlication, hplace, hstep⟩ | ⟨_, hstep⟩ :=
    hf.variableStep_cases links (lt_size_of_kind hkind)
  · rw [hstep] at h
    cases htarget : links.target application .constructor with
    | none =>
      rw [htarget] at h
      cases h
    | some constructor =>
      rw [htarget, argumentStep] at h
      obtain ⟨ckind, hckind, h⟩ := bind_eq_ok_iff.mp h
      cases ckind with
      | constructor constructorName declared =>
        have hnext := TypeStep.ofTarget_eq_sameAs_iff.mp (Except.ok.inj h)
        exact .argument hkind hparent happlication hplace htarget hckind hnext
      | _ => cases h
  · rw [hstep] at h
    cases h

/-- The three ways in which a chain goes on. -/
theorem IsForest.typeStep_eq_sameAs_iff (hf : tree.IsForest) {id next : NodeId} :
    tree.typeStep links id = .ok (.sameAs next) ↔ tree.PassesTo links id next := by
  constructor
  · intro h
    obtain ⟨kind, hkind⟩ := exists_kind_of_lt (lt_size_of_typeStep h)
    have hsays : tree.Says links id kind (tree.typeStep links id) := says_typeStep hkind
    generalize tree.typeStep links id = said at h hsays
    cases hsays with
    | own _ => cases h
    | child hchild =>
      cases h
      exact .child hkind hchild
    | target hslot =>
      exact .target hkind hslot (TypeStep.ofTarget_eq_sameAs_iff.mp (Except.ok.inj h))
    | definition _ | constructor _ _ | typeParameter _ =>
      obtain ⟨ty, _, h⟩ := map_eq_ok_iff.mp h
      cases h
    | matchVariable name => exact hf.passesTo_of_variableStep hkind h
  · intro h
    cases h with
    | child hkind hchild =>
      unfold NodeKind.typedAs? at hchild
      unfold typeStep
      rw [hkind, ok_bind]
      split at hchild <;> cases hchild <;> rfl
    | target hkind hslot htarget =>
      unfold NodeKind.typedSlot? at hslot
      unfold typeStep
      rw [hkind, ok_bind]
      split at hslot <;> cases hslot <;> simp [exprStep, typeExprStep, htarget, TypeStep.ofTarget]
    | argument hkind hparent happlication hplace htarget hconstructor hnext =>
      rw [typeStep_of_variableDefinition hkind, hf.variableStep_of_argument happlication hplace,
        htarget, argumentStep_of_constructor hconstructor, hnext]
      rfl

/-! ## Types of declarations and of what refers to them -/

theorem infer_typeParameter {id owner : NodeId} {name : String} {ty : Ty}
    (hkind : tree.kind id = .ok (.typeParameter name))
    (hparent : tree.parent id = .ok (some owner)) (h : tree.instanceType owner = .ok ty) :
    tree.infer links id = .ok ty := by
  refine infer_eq_ok_iff.mpr (.settled ?_)
  rw [typeStep, hkind, ok_bind, typeParameterType, hparent]
  simp only [ok_bind, h]
  rfl

theorem infer_constructor {id owner : NodeId} {name ownerName : String}
    {args params constructors : List NodeId} (hkind : tree.kind id = .ok (.constructor name args))
    (hparent : tree.parent id = .ok (some owner))
    (howner : tree.kind owner = .ok (.dataType ownerName params constructors)) :
    tree.infer links id = .ok (.dataType owner) := by
  refine infer_eq_ok_iff.mpr (.settled ?_)
  rw [typeStep, hkind, ok_bind, constructorType, hparent]
  simp only [ok_bind, howner]
  rfl

/-- A node that passes its chain on has the type of the next one. -/
theorem IsForest.infer_of_passesTo (hf : tree.IsForest) {id next : NodeId} {ty : Ty}
    (h : tree.PassesTo links id next) (hty : tree.infer links next = .ok ty) :
    tree.infer links id = .ok ty :=
  infer_eq_ok_iff.mpr (.sameAs (hf.typeStep_eq_sameAs_iff.mpr h) (infer_eq_ok_iff.mp hty))

theorem infer_definition {id definition : NodeId} {nodeDef : String} {ty : Ty}
    (hkind : tree.kind id = .ok (.source (.definition nodeDef)))
    (htarget : links.target id .nodeDef = some definition)
    (h : tree.instanceType definition = .ok ty) : tree.infer links id = .ok ty := by
  refine infer_eq_ok_iff.mpr (.settled ?_)
  rw [typeStep, hkind, ok_bind]
  simp only [htarget, instanceTypeOf, h]
  rfl

end Tree

end Dataflow
