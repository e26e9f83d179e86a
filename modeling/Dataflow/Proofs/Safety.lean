import Dataflow.Log
import Dataflow.Proofs.Binding
import Dataflow.Proofs.Checking
import Dataflow.Proofs.InstanceTypes

/-!
# Dataflow.Proofs.Safety

Checks of trees of any shape.  No look at a node misses the tree: the index
lists nodes of the tree, scopes hold nodes of the tree, so references are bound
to nodes of the tree, and from node to node inference stays in the tree, however
far it goes.  Nothing but an inference that comes to no end keeps a check from
its answer.

For each part of a check there is a lemma that it is safe (`Safe`), given that
the table leads to nodes of the tree only (`Links.Within`); linking preserves
this (`Workspace.IsPlain.safe_bindAll`, `Workspace.IsPlain.safe_linkAll`).
-/

namespace Dataflow

/-! ## Inference -/

/-- The definition that a type names is a node of the tree. -/
def Ty.Within (tree : Tree) : Ty → Prop
  | dataType definition | nodeType definition => definition < tree.size
  | primitive _ | untyped => True

/-- A node says something about nodes of the tree. -/
def TypeStep.Within (tree : Tree) : TypeStep → Prop
  | settled ty => ty.Within tree
  | sameAs next => next < tree.size

namespace Tree

variable {tree : Tree} {links : Links} {id : NodeId}

/-- Inference from a node comes to no end. -/
def NeverEnds (tree : Tree) (links : Links) (id : NodeId) : Prop :=
  ∀ bound, tree.inferWithin links bound id = abort .endless

/-- What inference comes to does not hang on the bound once the chain is at its
end. -/
theorem EndsIn.inferWithin_eq {length bound bound' : Nat} (h : tree.EndsIn links length id)
    (hlt : length < bound) (hlt' : length < bound') :
    tree.inferWithin links bound id = tree.inferWithin links bound' id := by
  induction h generalizing bound bound' with
  | stop hstop =>
    obtain ⟨bound, rfl⟩ := Nat.exists_eq_add_of_lt hlt
    obtain ⟨bound', rfl⟩ := Nat.exists_eq_add_of_lt hlt'
    rw [inferWithin, inferWithin]
    cases hstep : tree.typeStep links _ with
    | error halt => rfl
    | ok step =>
      cases step with
      | settled ty => rfl
      | sameAs next => exact absurd hstep (hstop next)
  | @step length id next hstep _ ih =>
    obtain ⟨bound, rfl⟩ := Nat.exists_eq_add_of_lt hlt
    obtain ⟨bound', rfl⟩ := Nat.exists_eq_add_of_lt hlt'
    rw [inferWithin, inferWithin, hstep]
    exact ih (by lia) (by lia)

theorem exists_endsIn_of_inferWithin {bound : Nat}
    (h : tree.inferWithin links bound id ≠ abort .endless) :
    ∃ length < bound, tree.EndsIn links length id := by
  induction bound generalizing id with
  | zero => exact absurd rfl h
  | succ bound ih =>
    rw [inferWithin] at h
    cases hstep : tree.typeStep links id with
    | error halt =>
      refine ⟨0, Nat.succ_pos bound, .stop ?_⟩
      intro next hnext
      rw [hstep] at hnext
      cases hnext
    | ok step =>
      rw [hstep, ok_bind] at h
      cases step with
      | settled ty =>
        refine ⟨0, Nat.succ_pos bound, .stop ?_⟩
        intro next hnext
        rw [hstep] at hnext
        cases hnext
      | sameAs next =>
        obtain ⟨length, hlt, hends⟩ := ih h
        exact ⟨length + 1, Nat.succ_lt_succ hlt, .step hstep hends⟩

/-- Inference that is not at its end after as many steps as there are nodes never
is. -/
theorem neverEnds_of_infer (h : tree.infer links id = abort .endless) :
    tree.NeverEnds links id := by
  intro bound
  by_contra hends
  obtain ⟨length, hlt, hends'⟩ := exists_endsIn_of_inferWithin hends
  rw [hends'.inferWithin_eq hlt (Nat.lt_succ_of_le hends'.le_size)] at hends
  exact hends h

theorem within_of_namesDefinition {ty : Ty} (h : ty.NamesDefinition tree) : ty.Within tree := by
  cases ty with
  | primitive _ | untyped => trivial
  | dataType definition =>
    obtain ⟨_, _, _, hkind⟩ := h
    exact lt_size_of_kind hkind
  | nodeType definition =>
    obtain ⟨_, _, _, _, _, hkind⟩ := h
    exact lt_size_of_kind hkind

namespace IsForest

variable (hf : tree.IsForest) (hlinks : links.Within tree)
include hf hlinks

/-- A node of the tree says something about nodes of the tree, or its place
breaks the grammar. -/
theorem safe_typeStep {E : Prop} (hid : id < tree.size) :
    Safe True E (TypeStep.Within tree) (tree.typeStep links id) := by
  refine (hf.faultFree_typeStep hlinks hid).safe.imp ?_
  intro step h _
  cases step with
  | settled ty => exact within_of_namesDefinition ((hf.ensures_typeStep links id).of_ok h)
  | sameAs next => exact hf.lt_size_of_passesTo hlinks (hf.typeStep_eq_sameAs_iff.mp h)

/-- Inference stays in the tree, however far it goes. -/
theorem safe_inferWithin (bound : Nat) (hid : id < tree.size) :
    Safe True True (Ty.Within tree) (tree.inferWithin links bound id) := by
  induction bound generalizing id with
  | zero => exact ⟨rfl, trivial⟩
  | succ bound ih =>
    rw [inferWithin]
    refine (hf.safe_typeStep hlinks hid).bind ?_
    intro step hstep
    cases step with
    | settled ty => exact hstep
    | sameAs next => exact ih hstep

theorem lt_size_of_mem_trailWithin {bound : Nat} (hid : id < tree.size) :
    ∀ passed ∈ tree.trailWithin links bound id, passed < tree.size := by
  induction bound generalizing id with
  | zero => exact List.forall_mem_nil _
  | succ bound ih =>
    rw [trailWithin]
    refine List.forall_mem_cons.mpr ⟨hid, ?_⟩
    split
    · rename_i next hnext
      exact ih (hf.lt_size_of_passesTo hlinks (hf.typeStep_eq_sameAs_iff.mp hnext))
    · exact List.forall_mem_nil _

theorem safe_infer {E : Prop} (hE : tree.NeverEnds links id → E) (hid : id < tree.size) :
    Safe True E (Ty.Within tree) (tree.infer links id) := by
  have hsafe := hf.safe_inferWithin hlinks (tree.size + 1) hid
  rw [← infer] at hsafe
  cases hinfer : tree.infer links id with
  | ok ty =>
    rw [hinfer] at hsafe
    exact hsafe
  | error halt =>
    cases halt with
    | shape error => trivial
    | fault fault =>
      rw [hinfer] at hsafe
      obtain ⟨rfl, _⟩ := hsafe
      exact ⟨rfl, hE (neverEnds_of_infer hinfer)⟩

end IsForest

end Tree

/-- A type within the tree can be put in words. -/
theorem Ty.safe_render {tree : Tree} {E : Prop} {ty : Ty} (h : ty.Within tree) (showKind : Bool) :
    Safe False E (fun _ => True) (ty.render tree showKind) := by
  cases ty with
  | primitive _ | untyped => trivial
  | dataType definition | nodeType definition =>
    obtain ⟨kind, hkind⟩ := Tree.exists_kind_of_lt h
    rw [render, renderInstance, hkind]
    trivial

/-! ## Scopes -/

/-- All candidates are nodes of the tree. -/
def Scope.Within (tree : Tree) (scope : Scope) : Prop :=
  ∀ candidate ∈ scope, candidate.declaration < tree.size

namespace Workspace

/-- Whatever the ports of an instance come from is a node of the tree. -/
def PortOwner.Within (tree : Tree) : PortOwner → Prop
  | unknown => True
  | definition node | typeOf node => node < tree.size

/-- A workspace with a finished tree of any shape, an index of nodes of the tree
and declarations under their own names. -/
structure IsPlain (ws : Workspace) : Prop where
  finished : ws.tree.IsFinished
  boundedIndex : ws.HasBoundedIndex
  naming : ws.naming = Naming.plain

variable {ws : Workspace} {links : Links} {E : Prop} {id : NodeId}

theorem safe_flatten {α : Type} {f : α → Result Scope} {xs : List α}
    (h : ∀ x ∈ xs, Safe True E (Scope.Within ws.tree) (f x)) :
    Safe True E (Scope.Within ws.tree) (xs.mapM f >>= fun scopes => pure scopes.flatten) := by
  refine (safe_mapM h).bind ?_
  intro scopes hscopes candidate hmem
  obtain ⟨scope, hscope, hmem⟩ := List.mem_flatten.mp hmem
  exact hscopes scope hscope candidate hmem

namespace IsPlain

section Scopes

variable (hp : ws.IsPlain)
include hp

theorem safe_candidates {declarations : List NodeId}
    (h : ∀ declaration ∈ declarations, declaration < ws.tree.size) :
    Safe True E (Scope.Within ws.tree) (ws.candidates declarations) := by
  refine safe_mapM ?_
  intro declaration hmem
  obtain ⟨kind, hkind⟩ := Tree.exists_kind_of_lt (h declaration hmem)
  rw [candidate, hkind, ok_bind, hp.naming]
  split
  · exact h declaration hmem
  · trivial

/-- Children of a node are nodes of the tree. -/
theorem safe_candidates_of_children {kind : NodeKind} (hkind : ws.tree.kind id = .ok kind)
    {declarations : List NodeId} (h : declarations ⊆ kind.children) :
    Safe True E (Scope.Within ws.tree) (ws.candidates declarations) :=
  hp.safe_candidates fun _ hmem => hp.finished.child_lt_size hkind (h hmem)

theorem safe_globals (kind : DeclKind) :
    Safe True E (Scope.Within ws.tree) (ws.globals kind) := by
  refine hp.safe_candidates ?_
  intro declaration hmem
  cases kind with
  | dataType => exact hp.boundedIndex declaration (.inl hmem)
  | nodeType => exact hp.boundedIndex declaration (.inr hmem)

theorem safe_constructors : Safe True E (Scope.Within ws.tree) ws.constructors := by
  refine safe_flatten ?_
  intro dataType hmem
  obtain ⟨kind, hkind⟩ := Tree.exists_kind_of_lt (hp.boundedIndex dataType (.inl hmem))
  rw [hkind, ok_bind]
  split
  · exact hp.safe_candidates_of_children hkind (List.subset_append_right _ _)
  · trivial

theorem safe_ports (hid : id < ws.tree.size) :
    Safe True E (Scope.Within ws.tree) (ws.ports id) := by
  obtain ⟨kind, hkind⟩ := Tree.exists_kind_of_lt hid
  rw [ports, hkind, ok_bind]
  split
  · refine hp.safe_candidates_of_children hkind ?_
    intro port hmem
    simp [NodeKind.children, hmem]
  · trivial

theorem safe_typeParameters (hid : id < ws.tree.size) :
    Safe True E (Scope.Within ws.tree) (ws.typeParameters id) := by
  obtain ⟨found, hfound⟩ := hp.finished.exists_nearest hid NodeKind.isGeneric
  rw [typeParameters, hfound, ok_bind]
  split
  · trivial
  · obtain ⟨_, hkind, _⟩ := hp.finished.of_nearest_eq_some hfound
    exact hp.safe_candidates_of_children hkind (List.subset_append_left _ _)
  · obtain ⟨_, hkind, _⟩ := hp.finished.of_nearest_eq_some hfound
    refine hp.safe_candidates_of_children hkind ?_
    intro param hmem
    simp [NodeKind.children, hmem]
  · trivial

theorem safe_ownPorts (hid : id < ws.tree.size) :
    Safe True E (Scope.Within ws.tree) (ws.ownPorts id) := by
  obtain ⟨found, hfound⟩ := hp.finished.exists_nearest hid NodeKind.isNodeType
  rw [ownPorts, hfound, ok_bind]
  split
  · trivial
  · obtain ⟨_, hkind, _⟩ := hp.finished.of_nearest_eq_some hfound
    exact hp.safe_ports (Tree.lt_size_of_kind hkind)

theorem safe_instances (hid : id < ws.tree.size) :
    Safe True E (Scope.Within ws.tree) (ws.instances id) := by
  obtain ⟨bodies, hbodies⟩ := hp.finished.exists_enclosing hid NodeKind.isBody
  rw [instances, hbodies, ok_bind]
  split
  · trivial
  · refine safe_flatten ?_
    rintro ⟨owner, kind⟩ hmem
    obtain ⟨_, hkind, _⟩ := (hp.finished.mem_enclosing_iff hbodies).mp hmem
    cases kind with
    | body instances _ _ =>
      refine hp.safe_candidates_of_children hkind ?_
      intro inst hmem
      simp [NodeKind.children, hmem]
    | _ => trivial

theorem safe_matchVariables (hid : id < ws.tree.size) :
    Safe True E (Scope.Within ws.tree) (ws.matchVariables id) := by
  obtain ⟨cases, hcases⟩ := hp.finished.exists_enclosing hid NodeKind.isMatchCase
  rw [matchVariables, hcases, ok_bind]
  refine safe_flatten ?_
  rintro ⟨owner, kind⟩ hmem
  obtain ⟨_, hkind, _⟩ := (hp.finished.mem_enclosing_iff hcases).mp hmem
  cases kind with
  | matchCase pattern outcome =>
    have hpattern : pattern < ws.tree.size := hp.finished.child_lt_size hkind List.mem_cons_self
    simp only [hp.finished.subtree_eq_preorder hpattern, ok_bind]
    refine hp.safe_candidates ?_
    intro declaration hmem
    obtain ⟨⟨bound, found⟩, hbound, rfl⟩ := List.mem_map.mp hmem
    have hentry := (List.mem_filter.mp hbound).1
    exact Tree.lt_size_of_kind ((hp.finished.mem_preorder_iff hpattern).mp hentry).2
  | _ => trivial

end Scopes

section Resolving

variable (hp : ws.IsPlain) (hlinks : links.Within ws.tree)
include hp hlinks

theorem safe_portOwner :
    Safe True E (PortOwner.Within ws.tree) (ws.portOwner links id) := by
  unfold portOwner
  cases hinst : links.target id .instanceRef with
  | none => trivial
  | some inst =>
    obtain ⟨kind, hkind⟩ := Tree.exists_kind_of_lt (hlinks _ _ _ hinst)
    simp only [hkind, ok_bind]
    cases kind with
    | instanceDecl name source =>
      obtain ⟨origin, horigin⟩ :=
        Tree.exists_kind_of_lt (hp.finished.child_lt_size hkind List.mem_cons_self)
      simp only [horigin, ok_bind]
      split
      · cases htarget : links.target source .nodeDef with
        | none => trivial
        | some definition => exact hlinks _ _ _ htarget
      · cases htarget : links.target source .sourcePort with
        | none => trivial
        | some port => exact hlinks _ _ _ htarget
      · trivial
    | _ => trivial

variable (hE : ∀ id, id < ws.tree.size → ws.tree.NeverEnds links id → E)
include hE

theorem safe_instancePorts :
    Safe True E (Scope.Within ws.tree) (ws.instancePorts links id) := by
  refine (hp.safe_portOwner hlinks).bind ?_
  intro owner howner
  cases owner with
  | unknown => exact List.forall_mem_nil _
  | definition nodeType => exact hp.safe_ports howner
  | typeOf port =>
    refine (hp.finished.safe_infer hlinks (hE port howner) howner).bind ?_
    intro ty hty
    cases ty with
    | nodeType nodeType => exact hp.safe_ports hty
    | primitive _ | dataType _ | untyped => exact List.forall_mem_nil _

/-- From every site of the tree nodes of the tree are visible. -/
theorem safe_scope {site : Site} (hnode : site.node < ws.tree.size) :
    Safe True E (Scope.Within ws.tree) (ws.scope links site) := by
  obtain ⟨kind, hkind⟩ := Tree.exists_kind_of_lt hnode
  unfold scope
  simp only [hkind, ok_bind]
  split
  · split
    · exact hp.safe_typeParameters hnode
    · refine (hp.safe_globals .dataType).bind fun dataTypes hdataTypes => ?_
      refine (hp.safe_globals .nodeType).bind fun nodeTypes hnodeTypes => ?_
      exact List.forall_mem_append.mpr ⟨hdataTypes, hnodeTypes⟩
    · exact hp.safe_globals .nodeType
    · exact hp.safe_globals .nodeType
    · exact hp.safe_ownPorts hnode
    · exact hp.safe_ownPorts hnode
    · exact hp.safe_instances hnode
    · exact hp.safe_instancePorts hlinks hE
    · exact hp.safe_constructors
    · exact hp.safe_matchVariables hnode
  · trivial

/-- Something comes of every reference of the tree, and what it is bound to is a
node of the tree. -/
theorem safe_resolve {reference : Reference} (hnode : reference.site.node < ws.tree.size) :
    Safe False E (fun resolution => ∀ target, resolution.target? = some target →
      target < ws.tree.size) (ws.resolve links reference) := by
  obtain ⟨span, hspan⟩ := Tree.exists_span_of_lt hnode
  unfold resolve
  refine (hp.safe_scope hlinks hE hnode).attempt.bind ?_
  intro outcome houtcome
  cases outcome with
  | error e => exact nofun
  | ok scope =>
    cases hlookup : Scope.lookup scope reference.name with
    | some target =>
      simp only [hlookup]
      rintro _ ⟨⟩
      obtain ⟨candidate, hmem, rfl⟩ := Scope.exists_of_lookup hlookup
      exact houtcome scope rfl candidate hmem
    | none =>
      simp only [hlookup, hspan, ok_bind]
      exact nofun

end Resolving

/-! ## Linking -/

section Linking

variable (hp : ws.IsPlain)
include hp

/-- Binding references of the tree keeps the table within the tree. -/
theorem safe_bindAll {references : List Reference} {analysis : Analysis}
    (hlinks : analysis.links.Within ws.tree)
    (hE : ∀ id, id < ws.tree.size → ws.tree.NeverEnds analysis.links id → E)
    (hnodes : ∀ reference ∈ references, reference.site.node < ws.tree.size) :
    Safe False E (fun after => after.links.Within ws.tree) (ws.bindAll references analysis) := by
  have hresolved : Safe False E (fun resolved => ∀ entry ∈ resolved, ∀ target,
      entry.2.target? = some target → target < ws.tree.size)
      (ws.resolveAll analysis.links references) := by
    refine safe_mapM ?_
    intro reference hmem
    exact (hp.safe_resolve hlinks hE (hnodes reference hmem)).bind fun _ htarget => htarget
  refine hresolved.bind ?_
  intro resolved htargets id slot target htarget
  obtain hbefore | ⟨entry, hmem, _, hentry⟩ := Links.of_get?_bindAll htarget
  · exact hlinks id slot target hbefore
  · exact htargets entry hmem target hentry

end Linking

end IsPlain

/-- What is known at some point of linking: after some of the documents, or after
these and the first lot of the next one. -/
inductive Stage (ws : Workspace) : Analysis → Prop where
  | linked {before after : List NodeId} {analysis : Analysis}
    (hfiles : ws.tree.files = before ++ after)
    (hlinked : ws.linkAll before ∅ = .ok analysis) : Stage ws analysis
  | between {before after : List NodeId} {root : NodeId} {first ports : List Reference}
    {linked analysis : Analysis} (hfiles : ws.tree.files = before ++ root :: after)
    (hlinked : ws.linkAll before ∅ = .ok linked) (hlots : ws.lots root = .ok (first, ports))
    (hfirst : ws.bindAll first linked = .ok analysis) : Stage ws analysis

/-- At some point inference from some node comes to no end. -/
def Loops (ws : Workspace) : Prop :=
  ∃ analysis id, ws.Stage analysis ∧ id < ws.tree.size ∧ ws.tree.NeverEnds analysis.links id

theorem Stage.loops {analysis : Analysis} (h : ws.Stage analysis) (id : NodeId)
    (hid : id < ws.tree.size) (hloops : ws.tree.NeverEnds analysis.links id) : ws.Loops :=
  ⟨analysis, id, h, hid, hloops⟩

namespace IsPlain

section Documents

variable (hp : ws.IsPlain)
include hp

theorem lt_size_of_mem_referencesBelow {root : NodeId} (hroot : root < ws.tree.size)
    {reference : Reference} (h : reference ∈ ws.tree.referencesBelow root) :
    reference.site.node < ws.tree.size :=
  hp.finished.lt_size_of_under ((hp.finished.mem_referencesBelow hroot).mp h).1 hroot

section Document

variable {before after : List NodeId} {root : NodeId} {linked : Analysis}
  (hfiles : ws.tree.files = before ++ root :: after) (hlinked : ws.linkAll before ∅ = .ok linked)
  (hlinks : linked.links.Within ws.tree)
include hfiles hlinked hlinks

theorem safe_firstLot :
    Safe False ws.Loops (fun analysis => analysis.links.Within ws.tree)
      (ws.bindAll (ws.tree.firstLot root) linked) := by
  have hroot : root < ws.tree.size := hp.finished.file_lt_size (by simp [hfiles])
  refine hp.safe_bindAll hlinks (Stage.linked hfiles hlinked).loops ?_
  exact fun _ hmem => hp.lt_size_of_mem_referencesBelow hroot (List.mem_filter.mp hmem).1

/-- Linking a document after some others keeps the table within the tree. -/
theorem safe_link :
    Safe False ws.Loops (fun analysis => analysis.links.Within ws.tree) (ws.link root linked) := by
  have hroot : root < ws.tree.size := hp.finished.file_lt_size (by simp [hfiles])
  have hlots := lots_eq hp.finished.toIsForest hroot
  have hfirst := hp.safe_firstLot hfiles hlinked hlinks
  rw [link, hlots, ok_bind]
  refine (hfirst.imp fun between hbetween hwithin => And.intro hbetween hwithin).bind ?_
  rintro between ⟨hbetween, hwithin⟩
  refine hp.safe_bindAll hwithin (Stage.between hfiles hlinked hlots hbetween).loops ?_
  exact fun _ hmem => hp.lt_size_of_mem_referencesBelow hroot (List.mem_filter.mp hmem).1

end Document

theorem safe_linkAll_after {before roots after : List NodeId} {linked : Analysis}
    (hfiles : ws.tree.files = before ++ (roots ++ after))
    (hlinked : ws.linkAll before ∅ = .ok linked) (hlinks : linked.links.Within ws.tree) :
    Safe False ws.Loops (fun analysis => analysis.links.Within ws.tree)
      (ws.linkAll roots linked) := by
  induction roots generalizing before linked with
  | nil => exact hlinks
  | cons root roots ih =>
    have hlink := hp.safe_link hfiles hlinked hlinks
    have hfiles' : ws.tree.files = (before ++ [root]) ++ (roots ++ after) := by simp [hfiles]
    rw [linkAll, List.foldlM_cons]
    refine (hlink.imp fun next hnext hwithin => And.intro hnext hwithin).bind ?_
    rintro next ⟨hnext, hwithin⟩
    exact ih hfiles' (linkAll_concat hlinked hnext) hwithin

/-- Linking the first documents keeps the table within the tree. -/
theorem safe_linkAll {before after : List NodeId} (hfiles : ws.tree.files = before ++ after) :
    Safe False ws.Loops (fun analysis => analysis.links.Within ws.tree)
      (ws.linkAll before ∅) := by
  have hempty : (∅ : Analysis).links.Within ws.tree := by
    intro id slot target (htarget : (∅ : Links).get? ⟨id, slot⟩ = some target)
    simp at htarget
  have hstart : ws.linkAll [] ∅ = .ok ∅ := rfl
  exact hp.safe_linkAll_after hfiles hstart hempty

/-- At every point of linking the table is within the tree. -/
theorem within_of_stage {analysis : Analysis} (h : ws.Stage analysis) :
    analysis.links.Within ws.tree := by
  cases h with
  | linked hfiles hlinked =>
    have hsafe := hp.safe_linkAll hfiles
    rw [hlinked] at hsafe
    exact hsafe
  | @between before after root _ _ _ _ hfiles hlinked hlots hfirst =>
    have hsafe := hp.safe_linkAll hfiles
    rw [hlinked] at hsafe
    have hroot : root < ws.tree.size := hp.finished.file_lt_size (by simp [hfiles])
    rw [lots_eq hp.finished.toIsForest hroot] at hlots
    cases hlots
    have hsafe' := hp.safe_firstLot hfiles hlinked hsafe
    rw [hfirst] at hsafe'
    exact hsafe'

end Documents

/-! ## Validation -/

theorem safe_ofChecks {checks : List (Result (List Problem))}
    (h : ∀ check ∈ checks, Safe True E (fun _ => True) check) :
    Safe False E (fun _ => True) (Report.ofChecks checks) := by
  induction checks with
  | nil => trivial
  | cons check checks ih =>
    rw [Report.ofChecks]
    refine (h check List.mem_cons_self).attempt.bind ?_
    intro outcome _
    cases outcome with
    | error e => trivial
    | ok problems =>
      exact (ih fun other hother => h other (List.mem_cons_of_mem _ hother)).bind fun _ _ => trivial

section Validation

variable (hp : ws.IsPlain) {analysis : Analysis} (hstage : ws.Stage analysis) (checks : Checks)
include hp hstage

theorem safe_checkType (kind : NodeKind) (hid : id < ws.tree.size) :
    Safe True ws.Loops (fun _ => True) (ws.tree.checkType analysis.links checks id kind) := by
  unfold Tree.checkType
  split
  · trivial
  · exact (hp.finished.safe_infer (hp.within_of_stage hstage) (hstage.loops id hid) hid).bind
      fun _ _ => trivial

theorem safe_inspect (kind : NodeKind) (hid : id < ws.tree.size) :
    Safe False ws.Loops (fun _ => True) (ws.tree.inspect analysis.links checks id kind) := by
  refine safe_ofChecks ?_
  simp only [List.mem_cons, List.not_mem_nil, or_false, forall_eq_or_imp, forall_eq]
  refine ⟨hp.safe_checkType hstage checks kind hid, ?_, ?_⟩
  · exact (Tree.faultFree_checkArity (hp.within_of_stage hstage)).safe.imp fun _ _ _ => trivial
  · exact (Tree.faultFree_checkVariable hp.finished.toIsForest hid).safe.imp fun _ _ _ => trivial

theorem safe_findingsAt (kind : NodeKind) (hid : id < ws.tree.size) :
    Safe False ws.Loops (fun _ => True) (ws.tree.findingsAt analysis.links checks id kind) := by
  obtain ⟨span, hspan⟩ := Tree.exists_span_of_lt hid
  rw [Tree.findingsAt, hspan, ok_bind]
  exact (hp.safe_inspect hstage checks kind hid).bind fun _ _ => trivial

theorem safe_validate {root : NodeId} (hroot : root < ws.tree.size) :
    Safe False ws.Loops (fun _ => True) (ws.tree.validate analysis.links checks root) := by
  rw [Tree.validate, hp.finished.subtree_eq_preorder hroot, ok_bind]
  refine Safe.bind (P := fun _ => True) ?_ fun _ _ => trivial
  refine safe_mapM_true ?_
  intro entry hentry
  exact hp.safe_findingsAt hstage checks entry.2
    (Tree.lt_size_of_kind ((hp.finished.mem_preorder_iff hroot).mp hentry).2)

end Validation

/-- A check answers, with a table within the tree, unless inference comes to no
end. -/
theorem safe_check (hp : ws.IsPlain) (checks : Checks) :
    Safe False ws.Loops (fun analysis => analysis.links.Within ws.tree) (ws.check checks) := by
  have hfiles : ws.tree.files = ws.tree.files ++ [] := (List.append_nil _).symm
  refine ((hp.safe_linkAll hfiles).imp fun _ => And.intro).bind ?_
  rintro linked ⟨hlinked, hwithin⟩
  refine Safe.bind (P := fun _ => True) ?_ fun _ _ => hwithin
  refine safe_mapM_true ?_
  intro root hroot
  exact (hp.safe_validate (.linked hfiles hlinked) checks (hp.finished.file_lt_size hroot)).bind
    fun _ _ => trivial

/-! ## The log -/

section Log

variable (hp : ws.IsPlain) {analysis : Analysis} (hstage : ws.Stage analysis)
include hp hstage

theorem safe_log_infer (hid : id < ws.tree.size) :
    Safe False E (fun _ => True) (Log.infer ws.tree analysis.links id) := by
  have hsafe := hp.finished.safe_infer (hp.within_of_stage hstage) (fun _ => trivial) hid
  unfold Log.infer
  cases hinfer : ws.tree.infer analysis.links id with
  | error halt => trivial
  | ok ty =>
    rw [hinfer] at hsafe
    exact (Ty.safe_render hsafe false).bind fun _ _ => trivial

theorem safe_log_portOwner :
    Safe False E (fun _ => True) (Log.portOwner ws analysis.links id) := by
  refine (hp.safe_portOwner (hp.within_of_stage hstage)).attempt.bind ?_
  intro outcome houtcome
  split
  · exact hp.safe_log_infer hstage (houtcome _ rfl)
  · trivial

theorem safe_log_scope {site : Site} (hnode : site.node < ws.tree.size) :
    Safe False ws.Loops (fun _ => True) (Log.scope ws analysis.links site) := by
  obtain ⟨kind, hkind⟩ := Tree.exists_kind_of_lt hnode
  have hscope := hp.safe_scope (hp.within_of_stage hstage) hstage.loops hnode
  unfold Log.scope
  simp only [hkind, ok_bind]
  split
  · split
    · refine (hp.safe_log_portOwner hstage).bind fun _ _ => hscope.attempt.bind fun outcome _ => ?_
      cases outcome <;> trivial
    · refine hscope.attempt.bind fun outcome _ => ?_
      cases outcome <;> trivial
  · trivial

theorem safe_log_resolve {reference : Reference} (hnode : reference.site.node < ws.tree.size) :
    Safe False ws.Loops (fun _ => True) (Log.resolve ws analysis.links reference) := by
  have hresolve := hp.safe_resolve (hp.within_of_stage hstage) hstage.loops hnode
  refine (hp.safe_log_scope hstage hnode).bind fun visible _ => hresolve.bind ?_
  intro resolution _
  cases resolution <;> trivial

theorem safe_log_resolveAll {references : List Reference}
    (hnodes : ∀ reference ∈ references, reference.site.node < ws.tree.size) :
    Safe False ws.Loops (fun _ => True) (Log.resolveAll ws analysis.links references) := by
  refine Safe.bind (P := fun _ => True) ?_ fun _ _ => trivial
  exact safe_mapM_true fun reference hmem => hp.safe_log_resolve hstage (hnodes reference hmem)

theorem safe_log_inspect (checks : Checks) (kind : NodeKind) (hid : id < ws.tree.size) :
    Safe False ws.Loops (fun _ => True)
      (Log.inspect ws.tree analysis.links checks id kind) := by
  have hinspect := hp.safe_inspect hstage checks kind hid
  unfold Log.inspect
  split
  · refine (hp.safe_log_infer hstage hid).bind fun _ _ => hinspect.bind fun report _ => ?_
    split <;> trivial
  · refine hinspect.bind fun report _ => ?_
    split <;> trivial

theorem safe_log_validate (checks : Checks) {root : NodeId} (hroot : root < ws.tree.size) :
    Safe False ws.Loops (fun _ => True) (Log.validate ws.tree analysis.links checks root) := by
  rw [Log.validate, hp.finished.subtree_eq_preorder hroot, ok_bind]
  refine Safe.bind (P := fun _ => True) ?_ fun _ _ => trivial
  refine safe_mapM_true ?_
  intro entry hentry
  exact hp.safe_log_inspect hstage checks entry.2
    (Tree.lt_size_of_kind ((hp.finished.mem_preorder_iff hroot).mp hentry).2)

omit hstage

theorem safe_log_link {before after : List NodeId} {root : NodeId} {linked : Analysis}
    (hfiles : ws.tree.files = before ++ root :: after)
    (hlinked : ws.linkAll before ∅ = .ok linked) :
    Safe False ws.Loops (fun _ => True) (Log.link ws root linked) := by
  have hroot : root < ws.tree.size := hp.finished.file_lt_size (by simp [hfiles])
  have hlots := lots_eq hp.finished.toIsForest hroot
  have hstage := Stage.linked hfiles hlinked
  have hfirst := hp.safe_firstLot hfiles hlinked (hp.within_of_stage hstage)
  have hnodes : ∀ reference ∈ ws.tree.referencesBelow root,
      reference.site.node < ws.tree.size :=
    fun _ hmem => hp.lt_size_of_mem_referencesBelow hroot hmem
  rw [Log.link, hlots, ok_bind]
  refine (hfirst.imp fun between hbetween _ => hbetween).bind ?_
  intro between hbetween
  refine (hp.safe_log_resolveAll hstage ?_).bind fun _ _ => ?_
  · exact fun _ hmem => hnodes _ (List.mem_filter.mp hmem).1
  · refine (hp.safe_log_resolveAll (.between hfiles hlinked hlots hbetween) ?_).bind
      fun _ _ => trivial
    exact fun _ hmem => hnodes _ (List.mem_filter.mp hmem).1

theorem safe_log_linkAll {before roots after : List NodeId} {linked : Analysis}
    (hfiles : ws.tree.files = before ++ (roots ++ after))
    (hlinked : ws.linkAll before ∅ = .ok linked) :
    Safe False ws.Loops (fun _ => True) (Log.linkAll ws roots linked) := by
  induction roots generalizing before linked with
  | nil => trivial
  | cons root roots ih =>
    have hlink := hp.safe_link hfiles hlinked (hp.within_of_stage (.linked hfiles hlinked))
    have hfiles' : ws.tree.files = (before ++ [root]) ++ (roots ++ after) := by simp [hfiles]
    rw [Log.linkAll]
    refine (hlink.imp fun next hnext _ => hnext).bind ?_
    intro next hnext
    refine (hp.safe_log_link hfiles hlinked).bind fun _ _ => ?_
    exact (ih hfiles' (linkAll_concat hlinked hnext)).bind fun _ _ => trivial

theorem safe_log_check (checks : Checks) :
    Safe False ws.Loops (fun _ => True) (Log.check ws checks) := by
  have hfiles : ws.tree.files = ws.tree.files ++ [] := (List.append_nil _).symm
  have hstart : ws.linkAll [] ∅ = .ok ∅ := rfl
  refine (hp.safe_log_linkAll hfiles hstart).bind fun _ _ => ?_
  refine ((hp.safe_linkAll hfiles).imp fun _ hlinked _ => hlinked).bind ?_
  intro linked hlinked
  refine Safe.bind (P := fun _ => True) ?_ fun _ _ => ?_
  · refine safe_mapM_true ?_
    intro root hroot
    exact hp.safe_log_validate (.linked hfiles hlinked) checks (hp.finished.file_lt_size hroot)
  · exact (hp.safe_check checks).bind fun _ _ => trivial

end Log

end IsPlain

end Workspace

/-! ## Whole trees -/

namespace Tree

variable {tree : Tree}

theorem IsFinished.safe_log_indexAll {E : Prop} (hf : tree.IsFinished) :
    Safe False E (fun _ => True) (Log.indexAll tree tree.files) := by
  refine Safe.bind (P := fun _ => True) ?_ fun _ _ => trivial
  refine safe_mapM_true ?_
  intro root hroot
  obtain ⟨span, hspan⟩ := exists_span_of_lt (hf.file_lt_size hroot)
  rw [Log.index, hspan, declarations, hf.subtree_file hroot]
  trivial

/-- Whatever the shape of a tree, its documents and all children and parents are
nodes of the tree, and so is what its index lists.  At every point of linking
references are bound to nodes of the tree, nodes of the tree are visible from
every site, and inference stays in the tree, however far it goes.  A check and
its log come to an answer, unless inference from some node comes to no end at
some point: no look at a node misses the tree, and no spans of different sources
are joined. -/
theorem check_stays_within {source : SourceId} {steps : List BuildStep}
    (hbuild : Tree.build source steps = .ok tree) (checks : Checks) :
    (∀ root ∈ tree.files, root < tree.size) ∧
    (∀ id kind, tree.kind id = .ok kind → ∀ child ∈ kind.children, child < tree.size) ∧
    (∀ id parent, tree.parent id = .ok (some parent) → parent < tree.size) ∧
    ∃ index, tree.workspace = .ok { tree, index } ∧
      (∀ kind, ∀ id ∈ index.declarations kind, id < tree.size) ∧
      (∀ analysis, Workspace.Stage { tree, index } analysis →
        (∀ id slot target, analysis.links.target id slot = some target → target < tree.size) ∧
        (∀ site, site.node < tree.size →
          (∀ scope, Workspace.scope { tree, index } analysis.links site = .ok scope →
            ∀ candidate ∈ scope, candidate.declaration < tree.size) ∧
          ∀ fault, Workspace.scope { tree, index } analysis.links site = abort fault →
            fault = .endless) ∧
        ∀ id < tree.size, ∀ bound,
          (∀ passed ∈ tree.trailWithin analysis.links bound id, passed < tree.size) ∧
          ∀ fault, tree.inferWithin analysis.links bound id = abort fault → fault = .endless) ∧
      ((∃ analysis, tree.check checks = .ok analysis) ∨
        tree.check checks = abort .endless ∧ Workspace.Loops { tree, index }) ∧
      ((∃ log, Log.checkTree tree checks = .ok log) ∨
        Log.checkTree tree checks = abort .endless ∧ Workspace.Loops { tree, index }) := by
  have hf := isFinished_of_build hbuild
  obtain ⟨index, hworkspace, hsound⟩ := hf.exists_workspace
  have hbounded := hsound.hasBoundedIndex hf
  have hp : Workspace.IsPlain { tree, index } := ⟨hf, hbounded, rfl⟩
  refine ⟨fun root => hf.file_lt_size, fun id kind hkind child => hf.child_lt_size hkind,
    fun id parent => hf.parent_lt_size, index, hworkspace, ?_, ?_, ?_, ?_⟩
  · intro kind id hmem
    cases kind with
    | dataType => exact hbounded id (.inl hmem)
    | nodeType => exact hbounded id (.inr hmem)
  · intro analysis hstage
    have hlinks := hp.within_of_stage hstage
    refine ⟨hlinks, ?_, ?_⟩
    · intro site hnode
      have hsafe := hp.safe_scope hlinks hstage.loops hnode
      exact ⟨fun scope => hsafe.of_ok, fun fault h => (hsafe.of_abort h).1⟩
    · intro id hid bound
      have hsafe := hf.safe_inferWithin hlinks bound hid
      exact ⟨hf.lt_size_of_mem_trailWithin hlinks hid, fun fault h => (hsafe.of_abort h).1⟩
  · have hsafe := hp.safe_check checks
    rw [check, hworkspace, ok_bind]
    refine hsafe.answers_or.imp_left ?_
    rintro ⟨analysis, hanalysis, _⟩
    exact ⟨analysis, hanalysis⟩
  · have hsafe : Safe False (Workspace.Loops { tree, index }) (fun _ => True)
        (Log.checkTree tree checks) := by
      refine hf.safe_log_indexAll.bind fun _ _ => ?_
      rw [hworkspace, ok_bind]
      exact (hp.safe_log_check checks).bind fun _ _ => trivial
    refine hsafe.answers_or.imp_left ?_
    rintro ⟨log, hlog, _⟩
    exact ⟨log, hlog⟩

/-- A node type whose port has the type `self.p`, by which it refers to itself. -/
def selfTypedSteps : List BuildStep := [
  .node (.expr (.selfPort "p")),
  .node (.port "p" .input 0),
  .node (.nodeType "Knot" [] [1] none none),
  .node (.file [2])]

theorem check_stays_within_selfTyped :
    ∃ tree index, Tree.build 1 selfTypedSteps = .ok tree ∧
      tree.workspace = .ok { tree, index } ∧ index.nodeTypes = [2] ∧
      (tree.check {} = abort .endless ∧ ∃ analysis id,
        Workspace.Stage { tree, index } analysis ∧ id < tree.size ∧
          (∀ passed ∈ tree.trailWithin analysis.links 5 id, passed < tree.size) ∧
            tree.NeverEnds analysis.links id) ∧
      ∃ analysis, tree.check { expressionTypes := false } = .ok analysis ∧
        analysis.links.target 0 .selfPort = some 1 := by
  obtain ⟨tree, hbuild⟩ : ∃ tree, Tree.build 1 selfTypedSteps = .ok tree := ⟨_, rfl⟩
  obtain ⟨_, _, _, index, hworkspace, _, hstages, hcheck, _⟩ := check_stays_within hbuild {}
  obtain ⟨_, _, _, _, _, _, _, hcheck', _⟩ :=
    check_stays_within hbuild { expressionTypes := false }
  refine ⟨tree, index, hbuild, hworkspace, ?_, ?_, ?_⟩
  · cases hbuild
    cases hworkspace
    rfl
  · obtain ⟨analysis, hanalysis⟩ | ⟨hendless, analysis, id, hstage, hid, hnever⟩ := hcheck
    · cases hbuild
      cases hanalysis
    · have htrail := ((hstages analysis hstage).2.2 id hid 5).1
      exact ⟨hendless, analysis, id, hstage, hid, htrail, hnever⟩
  · obtain ⟨analysis, hanalysis⟩ | ⟨hendless, _⟩ := hcheck'
    · refine ⟨analysis, hanalysis, ?_⟩
      cases hbuild
      cases hanalysis
      rfl
    · cases hbuild
      cases hendless

end Tree

end Dataflow
