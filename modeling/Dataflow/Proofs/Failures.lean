import Dataflow.Proofs.Extension
import Dataflow.Proofs.InstanceChain
import Dataflow.Proofs.PatternVariables

/-!
# Dataflow.Proofs.Failures

When a reference has no scope, in a tree of any shape.  Some slots always have
one.  For the others there are two reasons to have none: the reference does not
stand inside of the definition or the body that it looks at
(`Tree.IsScopeAround`), or one of the nodes that are listed for it declares no
name (`Tree.IsScopeOf`).  The error then names the reference, or the first such
node.

`Workspace.scope_fails_exactly` says for each slot what its scope comes to.  The
checks of the resolver that a definition is one, that a body is one and so on
never fail: the search upwards and the index give nothing else.
-/

namespace Dataflow

theorem NodeKind.hasSlot_iff {kind : NodeKind} {slot : Slot} :
    kind.hasSlot slot = true ↔ ∃ name, (slot, name) ∈ kind.references := by
  simp [hasSlot]

namespace Tree

variable {tree : Tree}

/-! ## Scopes of listed nodes -/

/-- The first of some nodes that declares no name. -/
def FirstNameless (tree : Tree) (declared : List NodeId) (first : NodeId) : Prop :=
  ∃ before after, declared = before ++ first :: after ∧
    (∀ earlier ∈ before, ∃ name, tree.Named earlier name) ∧ ∀ name, ¬ tree.Named first name

/-- A candidate is a declaration under its own name. -/
def ListedAs (tree : Tree) (declaration : NodeId) (candidate : Candidate) : Prop :=
  candidate.declaration = declaration ∧ tree.Named declaration candidate.name

/-- What comes of listing some nodes as a scope: all of them, in order, or an error
about the first that declares no name. -/
structure IsScopeOf (tree : Tree) (declared : List NodeId) (result : Result Scope) : Prop where
  ok_iff {scope : Scope} : result = .ok scope ↔ List.Forall₂ tree.ListedAs declared scope
  error_iff {halt : Halt} : result = .error halt ↔
    ∃ first, tree.FirstNameless declared first ∧
      halt = .shape (.unexpectedNode first .declaration)

theorem IsScopeOf.of_error {declared : List NodeId} {result : Result Scope}
    (h : tree.IsScopeOf declared result) {halt : Halt} (herror : result = .error halt) :
    ∃ first, halt = .shape (.unexpectedNode first .declaration) := by
  obtain ⟨first, _, hhalt⟩ := h.error_iff.mp herror
  exact ⟨first, hhalt⟩

/-- What comes of listing what nodes of a sort around a node hold.  There has to be
such a node. -/
structure IsScopeAround (tree : Tree) (sort : NodeKind → Bool) (missing : Enclosure)
    (id : NodeId) (Holds : List NodeId → Prop) (result : Result Scope) : Prop where
  missing_iff : result = malformed (.missingAncestor id missing) ↔
    ¬ ∃ owner, tree.Inside id owner ∧ tree.HasSort sort owner
  of_exists : (∃ owner, tree.Inside id owner ∧ tree.HasSort sort owner) →
    ∃ declared, Holds declared ∧ tree.IsScopeOf declared result

section Around

variable {sort : NodeKind → Bool} {missing : Enclosure} {id : NodeId}
  {Holds : List NodeId → Prop} {result : Result Scope}

theorem isScopeAround_of_missing
    (hnone : ¬ ∃ owner, tree.Inside id owner ∧ tree.HasSort sort owner) :
    tree.IsScopeAround sort missing id Holds (malformed (.missingAncestor id missing)) where
  missing_iff := iff_of_true rfl hnone
  of_exists howner := absurd howner hnone

theorem IsScopeOf.isScopeAround {declared : List NodeId} (h : tree.IsScopeOf declared result)
    (hholds : Holds declared) {owner : NodeId} (hinside : tree.Inside id owner)
    (hsort : tree.HasSort sort owner) : tree.IsScopeAround sort missing id Holds result where
  missing_iff := by
    -- If what is listed fails, it fails in another way.
    refine iff_of_false ?_ (not_not_intro ⟨owner, hinside, hsort⟩)
    intro hmissing
    obtain ⟨first, hfirst⟩ := h.of_error hmissing
    cases hfirst
  of_exists _ := ⟨declared, hholds, h⟩

theorem IsScopeAround.of_error (h : tree.IsScopeAround sort missing id Holds result) {halt : Halt}
    (herror : result = .error halt) :
    halt = .shape (.missingAncestor id missing) ∨
      ∃ first, halt = .shape (.unexpectedNode first .declaration) := by
  by_cases howner : ∃ owner, tree.Inside id owner ∧ tree.HasSort sort owner
  · obtain ⟨declared, _, hscope⟩ := h.of_exists howner
    exact .inr (hscope.of_error herror)
  · rw [h.missing_iff.mpr howner] at herror
    exact .inl (Except.error.inj herror).symm

end Around

/-! ## What is listed for a slot -/

/-- What the nearest node of a sort around a node holds. -/
def NearestHolds (tree : Tree) (sort : NodeKind → Bool) (held : NodeKind → List NodeId)
    (id : NodeId) (declared : List NodeId) : Prop :=
  ∃ owner kind, tree.IsNearest sort id owner ∧ tree.kind owner = .ok kind ∧ declared = held kind

/-- The constructors that a node lists, if it is a data type. -/
def constructorsOf (tree : Tree) (id : NodeId) : List NodeId :=
  match tree.kind id with
  | .ok kind => kind.constructors
  | .error _ => []

/-- What the scope of a reference comes to, by its slot.  What the ports of an
instance come to is left open. -/
def ScopeOutcome (tree : Tree) (index : Index) (id : NodeId) (slot : Slot)
    (result : Result Scope) : Prop :=
  match slot with
  | .dataType | .iface | .nodeDef | .matchVariable => ∃ scope, result = .ok scope
  | .typeParameter =>
    tree.IsScopeAround NodeKind.isGeneric .genericDefinition id
      (tree.NearestHolds NodeKind.isGeneric NodeKind.params id) result
  | .sourcePort | .selfPort =>
    tree.IsScopeAround NodeKind.isNodeType .nodeType id
      (tree.NearestHolds NodeKind.isNodeType NodeKind.ports id) result
  | .instanceRef =>
    tree.IsScopeAround NodeKind.isBody .body id
      (fun declared => ∃ bodies, tree.Surrounds NodeKind.isBody id bodies ∧
        declared = bodies.flatMap tree.instancesOf) result
  | .constructor => tree.IsScopeOf (index.dataTypes.flatMap tree.constructorsOf) result
  | .nodePort => True

/-- A reference that has no scope misses something around it, or is offered
something that declares no name. -/
theorem ScopeOutcome.of_error {index : Index} {id : NodeId} {slot : Slot} {result : Result Scope}
    (h : tree.ScopeOutcome index id slot result) (hslot : slot ≠ .nodePort) {halt : Halt}
    (herror : result = .error halt) :
    (∃ missing, halt = .shape (.missingAncestor id missing)) ∨
      ∃ first, halt = .shape (.unexpectedNode first .declaration) := by
  cases slot with
  | dataType | iface | nodeDef | matchVariable =>
    obtain ⟨scope, hscope⟩ := h
    rw [hscope] at herror
    cases herror
  | typeParameter | sourcePort | selfPort | instanceRef =>
    exact (IsScopeAround.of_error h herror).imp_left fun hmissing => ⟨_, hmissing⟩
  | constructor => exact .inr (IsScopeOf.of_error h herror)
  | nodePort => exact absurd rfl hslot

end Tree

namespace Workspace

variable {ws : Workspace}

section Plain

variable (hplain : ws.naming = Naming.plain)
include hplain

theorem candidate_eq_ok_iff {declaration : NodeId} {found : Candidate} :
    ws.candidate declaration = .ok found ↔ ws.tree.ListedAs declaration found := by
  rw [candidate, bind_eq_ok_iff, hplain]
  constructor
  · rintro ⟨kind, hkind, h⟩
    split at h
    · next name hname =>
      cases h
      exact ⟨rfl, kind, hkind, hname⟩
    · cases h
  · rintro ⟨rfl, kind, hkind, hname⟩
    refine ⟨kind, hkind, ?_⟩
    rw [hname]
    rfl

omit hplain in
theorem candidate_eq_error_iff {declaration : NodeId} (hlt : declaration < ws.tree.size)
    {halt : Halt} :
    ws.candidate declaration = .error halt ↔ (∀ name, ¬ ws.tree.Named declaration name) ∧
      halt = .shape (.unexpectedNode declaration .declaration) := by
  obtain ⟨kind, hkind⟩ := Tree.exists_kind_of_lt hlt
  rw [candidate, hkind, ok_bind]
  cases hname : kind.name? with
  | some name =>
    constructor
    · intro h
      cases h
    · rintro ⟨hnameless, _⟩
      exact absurd ⟨kind, hkind, hname⟩ (hnameless name)
  | none =>
    constructor
    · intro h
      cases h
      refine ⟨?_, rfl⟩
      rintro name ⟨found, hfound, hother⟩
      cases Tree.kind_inj hkind hfound
      rw [hname] at hother
      cases hother
    · rintro ⟨_, rfl⟩
      rfl

/-- Nodes of the tree make a scope if all of them declare a name. -/
theorem isScopeOf_candidates {declared : List NodeId}
    (hlt : ∀ declaration ∈ declared, declaration < ws.tree.size) :
    ws.tree.IsScopeOf declared (ws.candidates declared) where
  ok_iff := by
    simp only [candidates, mapM_eq_ok_iff, candidate_eq_ok_iff hplain, implies_true]
  error_iff := by
    intro halt
    rw [candidates, mapM_eq_error_iff]
    constructor
    · rintro ⟨before, first, after, rfl, hbefore, hfirst⟩
      obtain ⟨hnameless, rfl⟩ := (candidate_eq_error_iff (hlt first (by simp))).mp hfirst
      refine ⟨first, ⟨before, after, rfl, ?_, hnameless⟩, rfl⟩
      intro earlier hmem
      obtain ⟨found, hfound⟩ := hbefore earlier hmem
      exact ⟨found.name, ((candidate_eq_ok_iff hplain).mp hfound).2⟩
    · rintro ⟨first, ⟨before, after, rfl, hbefore, hnameless⟩, rfl⟩
      refine ⟨before, first, after, rfl, ?_,
        (candidate_eq_error_iff (hlt first (by simp))).mpr ⟨hnameless, rfl⟩⟩
      intro earlier hmem
      obtain ⟨name, hname⟩ := hbefore earlier hmem
      exact ⟨⟨name, earlier⟩, (candidate_eq_ok_iff hplain).mpr ⟨rfl, hname⟩⟩

/-! ## Scopes from around a reference -/

section Around

variable (hf : ws.tree.IsForest) {id : NodeId} (hid : id < ws.tree.size)
include hf hid

/-- A scope that lists what the nearest node of a sort holds, if there is one. -/
theorem isScopeAround_of_nearest {sort : NodeKind → Bool} {held : NodeKind → List NodeId}
    {missing : Enclosure} {result : Result Scope}
    (hheld : ∀ kind declaration, declaration ∈ held kind → declaration ∈ kind.children)
    (hnone : ws.tree.nearest id sort = .ok none → result = malformed (.missingAncestor id missing))
    (hsome : ∀ owner kind, ws.tree.nearest id sort = .ok (some (owner, kind)) →
      result = ws.candidates (held kind)) :
    ws.tree.IsScopeAround sort missing id (ws.tree.NearestHolds sort held id) result := by
  obtain ⟨found, hfound⟩ := hf.exists_nearest hid sort
  cases found with
  | none =>
    rw [hnone hfound]
    refine Tree.isScopeAround_of_missing ?_
    rintro ⟨owner, hinside, kind, hkind, hsort⟩
    exact hf.nearest_ne_none hinside hkind hsort hfound
  | some entry =>
    obtain ⟨owner, kind⟩ := entry
    obtain ⟨hinside, hkind, hsort⟩ := hf.of_nearest_eq_some hfound
    rw [hsome owner kind hfound]
    have hscope : ws.tree.IsScopeOf (held kind) (ws.candidates (held kind)) :=
      isScopeOf_candidates hplain fun declaration hmem =>
        hf.child_lt_size hkind (hheld kind declaration hmem)
    exact hscope.isScopeAround ⟨owner, kind, hf.isNearest hfound, hkind, rfl⟩ hinside
      ⟨kind, hkind, hsort⟩

theorem isScopeAround_typeParameters :
    ws.tree.IsScopeAround NodeKind.isGeneric .genericDefinition id
      (ws.tree.NearestHolds NodeKind.isGeneric NodeKind.params id) (ws.typeParameters id) := by
  refine isScopeAround_of_nearest hplain hf hid ?_ ?_ ?_
  · intro kind declaration hmem
    exact NodeKind.mem_children_of_mem_places (NodeKind.mem_places_of_mem_params hmem)
  · intro hnone
    rw [typeParameters, hnone]
    rfl
  · intro owner kind hsome
    obtain ⟨_, _, hgeneric⟩ := hf.of_nearest_eq_some hsome
    rw [typeParameters, hsome, ok_bind]
    cases kind <;> cases hgeneric <;> rfl

theorem isScopeAround_ownPorts :
    ws.tree.IsScopeAround NodeKind.isNodeType .nodeType id
      (ws.tree.NearestHolds NodeKind.isNodeType NodeKind.ports id) (ws.ownPorts id) := by
  refine isScopeAround_of_nearest hplain hf hid ?_ ?_ ?_
  · intro kind declaration hmem
    exact NodeKind.mem_children_of_mem_places (NodeKind.mem_places_of_mem_ports hmem)
  · intro hnone
    rw [ownPorts, hnone]
    rfl
  · intro owner kind hsome
    obtain ⟨_, hkind, hnodeType⟩ := hf.of_nearest_eq_some hsome
    cases kind <;> cases hnodeType
    rw [ownPorts, hsome]
    simp only [ok_bind, ports, hkind]
    rfl

theorem isScopeAround_instances :
    ws.tree.IsScopeAround NodeKind.isBody .body id
      (fun declared => ∃ bodies, ws.tree.Surrounds NodeKind.isBody id bodies ∧
        declared = bodies.flatMap ws.tree.instancesOf) (ws.instances id) := by
  obtain ⟨entries, hentries⟩ := hf.exists_enclosing hid NodeKind.isBody
  have hs := hf.surrounds_of_enclosing hentries
  cases entries with
  | nil =>
    rw [instances, hentries]
    refine Tree.isScopeAround_of_missing ?_
    rintro ⟨owner, howner⟩
    cases hs.mem_iff.mpr howner
  | cons entry entries =>
    obtain ⟨hinside, hbody⟩ := hs.mem_iff.mp List.mem_cons_self
    rw [instances_eq hf hentries (List.cons_ne_nil entry entries)]
    refine (isScopeOf_candidates hplain ?_).isScopeAround ⟨_, hs, rfl⟩ hinside hbody
    intro inst hmem
    obtain ⟨body, _, hmem⟩ := List.mem_flatMap.mp hmem
    exact Tree.lt_size_of_parent (hf.parent_of_mem_instancesOf hmem)

end Around

/-! ## Scopes from the index -/

/-- A sound index lists data types only, and these list their constructors. -/
theorem isScopeOf_constructors (hf : ws.tree.IsForest) (hindex : ws.HasSoundIndex) :
    ws.tree.IsScopeOf (ws.index.dataTypes.flatMap ws.tree.constructorsOf) ws.constructors := by
  have heq : ws.constructors =
      ws.candidates (ws.index.dataTypes.flatMap ws.tree.constructorsOf) := by
    rw [← candidates_flatMap]
    refine congrArg (· >>= fun scopes => pure scopes.flatten) (mapM_congr ?_)
    intro dataType hlisted
    -- What is listed as a data type is one.
    obtain ⟨_, name, params, constructors, hkind⟩ := hindex.dataType hlisted
    rw [Tree.constructorsOf, hkind]
    rfl
  rw [heq]
  refine isScopeOf_candidates hplain ?_
  intro declaration hmem
  obtain ⟨dataType, hlisted, hmem⟩ := List.mem_flatMap.mp hmem
  obtain ⟨_, name, params, constructors, hkind⟩ := hindex.dataType hlisted
  rw [Tree.constructorsOf, hkind] at hmem
  exact hf.child_lt_size hkind (List.mem_append_right params hmem)

end Plain

/-- What a sound index lists declares a name. -/
theorem HasSoundIndex.exists_globals (hindex : ws.HasSoundIndex) (declKind : DeclKind) :
    ∃ scope, ws.globals declKind = .ok scope := by
  refine exists_mapM_eq_ok ?_
  intro declaration hlisted
  obtain ⟨name, kind, hkind, hname⟩ : ∃ name, ws.tree.Named declaration name := by
    cases declKind with
    | dataType =>
      obtain ⟨_, name, _, _, hkind⟩ := hindex.dataType hlisted
      exact ⟨name, _, hkind, rfl⟩
    | nodeType =>
      obtain ⟨_, kind, hkind, hnodeType⟩ := hindex.nodeType hlisted
      cases kind <;> cases hnodeType
      exact ⟨_, _, hkind, rfl⟩
  refine ⟨ws.naming declaration name, ?_⟩
  rw [candidate, hkind, ok_bind, hname]
  rfl

/-! ## Every slot -/

theorem scopeOutcome_of_reference (hplain : ws.naming = Naming.plain) (hf : ws.tree.IsForest)
    (hindex : ws.HasSoundIndex) (links : Links) {id : NodeId} {kind : NodeKind}
    (hkind : ws.tree.kind id = .ok kind) {slot : Slot} (hhas : kind.hasSlot slot = true) :
    ws.tree.ScopeOutcome ws.index id slot (ws.scope links ⟨id, slot⟩) := by
  have hid := Tree.lt_size_of_kind hkind
  unfold scope
  simp only [hkind, ok_bind, hhas, if_true]
  cases slot with
  | typeParameter => exact isScopeAround_typeParameters hplain hf hid
  | dataType =>
    obtain ⟨dataTypes, hdataTypes⟩ := hindex.exists_globals .dataType
    obtain ⟨nodeTypes, hnodeTypes⟩ := hindex.exists_globals .nodeType
    refine ⟨dataTypes ++ nodeTypes, ?_⟩
    rw [hdataTypes, hnodeTypes]
    rfl
  | iface | nodeDef => exact hindex.exists_globals .nodeType
  | sourcePort | selfPort => exact isScopeAround_ownPorts hplain hf hid
  | instanceRef => exact isScopeAround_instances hplain hf hid
  | nodePort => trivial
  | constructor => exact isScopeOf_constructors hplain hf hindex
  | matchVariable =>
    obtain ⟨entries, hentries⟩ := hf.exists_enclosing hid NodeKind.isMatchCase
    exact ⟨_, matchVariables_eq hplain hf hentries⟩

/-- When a site has no scope, in a tree of any shape and by the index of any of its
documents, ports of instances aside.  The error that its node has no such slot is
met exactly if that is so.  If the node has the slot, the slot says what the
scope comes to.  Every other error says that there is no node of the right sort
around the reference, or that a node that is listed for it declares no name. -/
theorem scope_fails_exactly {source : SourceId} {steps : List BuildStep} {tree : Tree}
    (hbuild : Tree.build source steps = .ok tree)
    {changes : List DocumentChange} (hfiles : ∀ root, .add root ∈ changes → root ∈ tree.files)
    {documents : Documents} (hdocuments : Documents.changeAll tree ∅ changes = .ok documents)
    (links : Links) {id : NodeId} {kind : NodeKind} (hkind : tree.kind id = .ok kind)
    {slot : Slot} (hslot : slot ≠ .nodePort) :
    (scope { tree, index := documents.index } links ⟨id, slot⟩ = malformed (.noSuchSlot id slot) ↔
      ∀ name, (slot, name) ∉ kind.references) ∧
    (∀ name, (slot, name) ∈ kind.references →
      tree.ScopeOutcome documents.index id slot
        (scope { tree, index := documents.index } links ⟨id, slot⟩)) ∧
    ∀ halt, scope { tree, index := documents.index } links ⟨id, slot⟩ = .error halt →
      halt = .shape (.noSuchSlot id slot) ∨
        (∃ missing, halt = .shape (.missingAncestor id missing)) ∨
          ∃ first, halt = .shape (.unexpectedNode first .declaration) := by
  have hf := Tree.isFinished_of_build hbuild
  have hs := (Documents.sound_empty tree).changeAll hf hfiles hdocuments
  by_cases hhas : kind.hasSlot slot = true
  · have houtcome : tree.ScopeOutcome documents.index id slot
        (scope { tree, index := documents.index } links ⟨id, slot⟩) :=
      scopeOutcome_of_reference rfl hf.toIsForest hs.hasSoundIndex links hkind hhas
    obtain ⟨name, hname⟩ := NodeKind.hasSlot_iff.mp hhas
    refine ⟨iff_of_false ?_ fun hnone => hnone name hname, fun _ _ => houtcome, ?_⟩
    · intro hmissing
      obtain ⟨_, hother⟩ | ⟨_, hother⟩ := houtcome.of_error hslot hmissing <;> cases hother
    · intro halt hhalt
      exact .inr (houtcome.of_error hslot hhalt)
  · have hnone : scope { tree, index := documents.index } links ⟨id, slot⟩ =
        malformed (.noSuchSlot id slot) := by
      unfold scope
      simp only [hkind, ok_bind, hhas]
      rfl
    rw [hnone]
    rw [NodeKind.hasSlot_iff] at hhas
    refine ⟨iff_of_true rfl fun name hname => hhas ⟨name, hname⟩, ?_, ?_⟩
    · intro name hname
      exact absurd ⟨name, hname⟩ hhas
    · intro halt hhalt
      exact .inl (Except.error.inj hhalt).symm

/-- A node type with a port and something else in its list of ports, a data type
with something else as a constructor, and a type parameter outside of both. -/
def namelessMembers : List BuildStep := [
  .node (.type .integer),
  .node (.port "p" .input 0),
  .node (.expr (.string "q")),
  .node (.expr (.selfPort "p")),
  .node (.expr (.apply "Mk" [])),
  .node (.link 3 4),
  .node (.body [] [5] []),
  .node (.nodeType "N" [] [1, 2] none (some 6)),
  .node (.expr (.string "Mk")),
  .node (.dataType "D" [] [8]),
  .node (.file [7, 9]),
  .node (.type (.parameter "t"))]

theorem scope_fails_exactly_namelessMembers :
    ∃ tree documents, Tree.build 1 namelessMembers = .ok tree ∧ tree.files = [10] ∧
      Documents.changeAll tree ∅ [.add 10] = .ok documents ∧
      scope { tree, index := documents.index } ∅ ⟨11, .typeParameter⟩ =
        malformed (.missingAncestor 11 .genericDefinition) ∧
      scope { tree, index := documents.index } ∅ ⟨11, .dataType⟩ =
        malformed (.noSuchSlot 11 .dataType) ∧
      scope { tree, index := documents.index } ∅ ⟨3, .selfPort⟩ =
        malformed (.unexpectedNode 2 .declaration) ∧
      (∃ declared, tree.NearestHolds NodeKind.isNodeType NodeKind.ports 3 declared ∧
        tree.FirstNameless declared 2) ∧
      scope { tree, index := documents.index } ∅ ⟨4, .constructor⟩ =
        malformed (.unexpectedNode 8 .declaration) ∧
      tree.FirstNameless (documents.index.dataTypes.flatMap tree.constructorsOf) 8 := by
  obtain ⟨tree, hbuild⟩ : ∃ tree, Tree.build 1 namelessMembers = .ok tree := ⟨_, rfl⟩
  obtain ⟨documents, hdocuments⟩ : ∃ documents,
      Documents.changeAll tree ∅ [.add 10] = .ok documents := by
    cases hbuild
    exact ⟨_, rfl⟩
  have hfiles : tree.files = [10] := by
    cases hbuild
    rfl
  have hchanges : ∀ root, DocumentChange.add root ∈ [.add 10] → root ∈ tree.files := by
    simp [hfiles]
  have hparameter : tree.kind 11 = .ok (.type (.parameter "t")) := by
    cases hbuild
    rfl
  have hself : tree.kind 3 = .ok (.expr (.selfPort "p")) := by
    cases hbuild
    rfl
  have happly : tree.kind 4 = .ok (.expr (.apply "Mk" [])) := by
    cases hbuild
    rfl
  have houtside : ¬ ∃ owner, tree.Inside 11 owner ∧ tree.HasSort NodeKind.isGeneric owner := by
    rintro ⟨owner, ⟨parent, hparent, _⟩, _⟩
    cases hbuild
    cases hparent
  have hinside : ∃ owner, tree.Inside 3 owner ∧ tree.HasSort NodeKind.isNodeType owner := by
    cases hbuild
    exact ⟨7, ⟨5, rfl, .head rfl (.head rfl (.refl 7))⟩, _, rfl, rfl⟩
  have hports : scope { tree, index := documents.index } ∅ ⟨3, .selfPort⟩ =
      malformed (.unexpectedNode 2 .declaration) := by
    cases hbuild
    cases hdocuments
    rfl
  have hconstructors : scope { tree, index := documents.index } ∅ ⟨4, .constructor⟩ =
      malformed (.unexpectedNode 8 .declaration) := by
    cases hbuild
    cases hdocuments
    rfl
  have hlaw {id : NodeId} {kind : NodeKind} (hkind : tree.kind id = .ok kind) (slot : Slot)
      (hslot : slot ≠ .nodePort) :=
    scope_fails_exactly hbuild hchanges hdocuments ∅ hkind hslot
  refine ⟨tree, documents, hbuild, hfiles, hdocuments, ?_, ?_, hports, ?_, hconstructors, ?_⟩
  · have hmember := (hlaw hparameter .typeParameter nofun).2.1 "t" List.mem_cons_self
    exact (Tree.IsScopeAround.missing_iff hmember).mpr houtside
  · exact (hlaw hparameter .dataType nofun).1.mpr nofun
  · have hmember := (hlaw hself .selfPort nofun).2.1 "p" List.mem_cons_self
    obtain ⟨declared, hholds, hscope⟩ := Tree.IsScopeAround.of_exists hmember hinside
    obtain ⟨first, hfirst, hsame⟩ := hscope.error_iff.mp hports
    cases hsame
    exact ⟨declared, hholds, hfirst⟩
  · have hmember := (hlaw happly .constructor nofun).2.1 "Mk" List.mem_cons_self
    obtain ⟨first, hfirst, hsame⟩ := Tree.IsScopeOf.error_iff hmember |>.mp hconstructors
    cases hsame
    exact hfirst

end Workspace

end Dataflow
