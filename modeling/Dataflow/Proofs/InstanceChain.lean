import Mathlib.Data.List.Infix
import Dataflow.Proofs.Enclosing
import Dataflow.Proofs.Ownership

/-!
# Dataflow.Proofs.InstanceChain

Which instances `a.port` sees.  The language says it by a walk from body to
body (`Tree.InstanceChain`): take the instances of the nearest body; from the
body of a match case go on in the body that contains the match, and from any
other body in the body that directly contains it.  The resolver looks for the
nearest body every time.  In a grammatical document both go the same way
(`WellShaped.continuesIn_iff`), through all bodies around the reference, and do
not leave the node type (`Workspace.instances_follow_chain`).
-/

namespace Dataflow

namespace Tree

variable {tree : Tree} {sort : NodeKind → Bool} {id : NodeId} {owners : List NodeId}

/-- The instances that a node lists, if it is a body. -/
def instancesOf (tree : Tree) (id : NodeId) : List NodeId :=
  match tree.kind id with
  | .ok kind => kind.instances
  | .error _ => []

theorem instancesOf_eq {kind : NodeKind} (hkind : tree.kind id = .ok kind) :
    tree.instancesOf id = kind.instances := by
  rw [instancesOf, hkind]

theorem mem_instancesOf_iff {inst : NodeId} :
    inst ∈ tree.instancesOf id ↔ ∃ kind, tree.kind id = .ok kind ∧ inst ∈ kind.instances := by
  unfold instancesOf
  cases tree.kind id <;> simp

/-- In which body to look for instances after another one. -/
inductive ContinuesIn (tree : Tree) (body outer : NodeId) : Prop
  /-- After the body of a match case, in the body around the match. -/
  | matched {owner matching : NodeId} :
    tree.parent body = .ok (some owner) → tree.HasSort NodeKind.isMatchCase owner →
      tree.parent owner = .ok (some matching) → tree.IsNearest NodeKind.isBody matching outer →
        ContinuesIn tree body outer
  /-- After any other body, in the body that it is a part of. -/
  | direct : tree.parent body = .ok (some outer) → tree.HasSort NodeKind.isBody outer →
      ContinuesIn tree body outer

/-- The instances that are visible from a body: its own, and then those that are
visible from the body to continue in. -/
inductive InstanceChain (tree : Tree) : NodeId → List NodeId → Prop
  | last {body : NodeId} : (∀ outer, ¬ tree.ContinuesIn body outer) →
      InstanceChain tree body (tree.instancesOf body)
  | next {body outer : NodeId} {rest : List NodeId} : tree.ContinuesIn body outer →
      InstanceChain tree outer rest → InstanceChain tree body (tree.instancesOf body ++ rest)

/-! ## The nearest of the nodes around a node -/

/-- The nearest node of a sort is the first of those around a node. -/
theorem IsForest.isNearest_iff_head? (hf : tree.IsForest) (hs : tree.Surrounds sort id owners)
    {owner : NodeId} : tree.IsNearest sort id owner ↔ owners.head? = some owner := by
  cases owners with
  | nil =>
    simp only [List.head?_nil, reduceCtorEq, iff_false]
    intro hnearest
    cases hs.mem_iff.mpr ⟨hnearest.inside, hnearest.exists_kind⟩
  | cons first rest =>
    obtain ⟨hbehind, _⟩ := List.pairwise_cons.mp hs.pairwise
    obtain ⟨hinside, hsort⟩ := hs.mem_iff.mp List.mem_cons_self
    simp only [List.head?_cons, Option.some.injEq]
    constructor
    · intro hnearest
      obtain ⟨kind, hkind, hfirst⟩ := hsort
      have hle := hf.le_of_under (hnearest.under_other hinside hkind hfirst)
      obtain rfl | hmem :=
        List.mem_cons.mp (hs.mem_iff.mpr ⟨hnearest.inside, hnearest.exists_kind⟩)
      · rfl
      · exact absurd (hf.lt_of_inside (hbehind owner hmem)) (Nat.not_lt.mpr hle)
    · rintro rfl
      refine ⟨hinside, hsort, ?_⟩
      intro other kind hother hkind hother'
      obtain rfl | hmem := List.mem_cons.mp (hs.mem_iff.mpr ⟨hother, kind, hkind, hother'⟩)
      · exact .refl other
      · exact (hbehind other hmem).under

/-- The nearest node of a sort is the same for nodes that are inside of the same
nodes of the sort. -/
theorem IsNearest.congr {other outer : NodeId} (h : tree.IsNearest sort id outer)
    (hsame : ∀ owner, tree.HasSort sort owner →
      (tree.Inside id owner ↔ tree.Inside other owner)) : tree.IsNearest sort other outer := by
  refine ⟨(hsame outer h.exists_kind).mp h.inside, h.exists_kind, ?_⟩
  intro owner kind hinside hkind hsort
  exact h.under_other ((hsame owner ⟨kind, hkind, hsort⟩).mpr hinside) hkind hsort

/-- A node has the nearest node of a sort in common with its parent, unless the
parent is of the sort. -/
theorem isNearest_parent_iff {parent outer : NodeId} {kind : NodeKind}
    (hparent : tree.parent id = .ok (some parent)) (hkind : tree.kind parent = .ok kind)
    (hnot : sort kind = false) :
    tree.IsNearest sort id outer ↔ tree.IsNearest sort parent outer := by
  have hsame : ∀ owner, tree.HasSort sort owner →
      (tree.Inside id owner ↔ tree.Inside parent owner) := by
    rintro owner ⟨okind, hokind, hsort⟩
    constructor
    · rintro ⟨found, hfound, hunder⟩
      cases parent_inj hparent hfound
      obtain rfl | hinside := under_iff_eq_or_inside.mp hunder
      · cases kind_inj hkind hokind
        simp [hnot] at hsort
      · exact hinside
    · intro hinside
      exact ⟨parent, hparent, hinside.under⟩
  constructor
  · intro h
    exact h.congr hsame
  · intro h
    exact h.congr fun owner hsort => (hsame owner hsort).symm

end Tree

/-! ## What stands around bodies and node types -/

namespace NodeKind

variable {kind : NodeKind} {id : NodeId}

theorem isNodeType_or_isMatchCase_of_mem_places (h : (id, .body) ∈ kind.places) :
    kind.isNodeType = true ∨ kind.isMatchCase = true := by
  cases kind <;> simp_all [places, isNodeType, isMatchCase]

theorem isBody_of_mem_places_matchCase (h : (id, .matchCase) ∈ kind.places) :
    kind.isBody = false := by
  cases kind <;> simp_all [places, isBody]

theorem isFile_of_mem_places (h : (id, .definition) ∈ kind.places) : kind.isFile = true := by
  cases kind <;> simp_all [places, isFile]

theorem not_mem_places_file : (id, .file) ∉ kind.places := by
  cases kind <;> simp [places]

end NodeKind

namespace Tree

variable {tree : Tree}

namespace WellShaped

variable (hw : tree.WellShaped)
include hw

theorem not_inside_of_isFile {id other : NodeId} {kind : NodeKind} (hid : tree.InDocument id)
    (hkind : tree.kind id = .ok kind) (hfile : kind.isFile = true) : ¬ tree.Inside id other := by
  rintro ⟨parent, hparent, _⟩
  obtain ⟨pkind, hpkind, hchild⟩ := hw.child_of_parent hparent
  obtain ⟨category, hplace⟩ := NodeKind.exists_mem_places hchild
  have hpdoc := hw.inDocument_of_above hid (.head hparent (.refl parent))
  obtain ⟨found, hfound, rfl⟩ := hw.fits hpdoc hpkind hplace
  cases kind_inj hkind hfound
  cases kind <;> cases hfile
  exact NodeKind.not_mem_places_file hplace

/-- Around a node type is nothing but its document. -/
theorem eq_of_nodeType_under {id other : NodeId} {kind : NodeKind} (hid : tree.InDocument id)
    (hnodeType : tree.HasSort NodeKind.isNodeType id) (hunder : tree.Under id other)
    (hkind : tree.kind other = .ok kind) (hnot : kind.isFile = false) : id = other := by
  obtain ⟨own, hown, hsort⟩ := hnodeType
  obtain heq | ⟨parent, hparent, hunder⟩ := under_iff_eq_or_inside.mp hunder
  · exact heq
  · obtain ⟨_, rfl⟩ | ⟨found, pkind, hfound, hpdoc, hpkind, hplace⟩ := hw.place hid hown
    · cases hsort
    · cases parent_inj hparent hfound
      have hfile : pkind.isFile = true := by
        cases own <;> cases hsort
        exact NodeKind.isFile_of_mem_places hplace
      obtain rfl | hinside := under_iff_eq_or_inside.mp hunder
      · cases kind_inj hkind hpkind
        simp [hnot] at hfile
      · exact absurd hinside (hw.not_inside_of_isFile hpdoc hpkind hfile)

/-- The body to continue in is the nearest body. -/
theorem continuesIn_iff {body outer : NodeId} (hid : tree.InDocument body)
    (hbody : tree.HasSort NodeKind.isBody body) :
    tree.ContinuesIn body outer ↔ tree.IsNearest NodeKind.isBody body outer := by
  obtain ⟨kind, hkind, hsort⟩ := hbody
  obtain ⟨_, rfl⟩ | ⟨parent, pkind, hparent, hpdoc, hpkind, hplace⟩ := hw.place hid hkind
  · cases hsort
  have hplace : (body, .body) ∈ pkind.places := by
    cases kind <;> cases hsort
    exact hplace
  obtain hnodeType | hcase := NodeKind.isNodeType_or_isMatchCase_of_mem_places hplace
  · -- Around the body of a node type there is no other body.
    constructor
    · intro h
      have hsort : pkind.isMatchCase = true ∨ pkind.isBody = true := by
        cases h with
        | matched hfound hsort _ _ =>
          cases parent_inj hparent hfound
          exact .inl ((hasSort_iff hpkind).mp hsort)
        | direct hfound hsort =>
          cases parent_inj hparent hfound
          exact .inr ((hasSort_iff hpkind).mp hsort)
      cases pkind <;> simp_all [NodeKind.isNodeType, NodeKind.isMatchCase, NodeKind.isBody]
    · rintro ⟨⟨found, hfound, hunder⟩, ⟨okind, hokind, hosort⟩, _⟩
      cases parent_inj hparent hfound
      have hnot : okind.isFile = false := by
        cases okind <;> cases hosort
        rfl
      cases hw.eq_of_nodeType_under hpdoc ⟨pkind, hpkind, hnodeType⟩ hunder hokind hnot
      cases kind_inj hpkind hokind
      cases pkind <;> cases hnodeType
      cases hosort
  · -- Neither the case nor its match is a body.
    cases pkind <;> cases hcase
    obtain ⟨_, hfile⟩ | ⟨matching, mkind, hmatching, _, hmkind, hmplace⟩ := hw.place hpdoc hpkind
    · cases hfile
    have hnot := NodeKind.isBody_of_mem_places_matchCase hmplace
    rw [isNearest_parent_iff hparent hpkind rfl, isNearest_parent_iff hmatching hmkind hnot]
    constructor
    · intro h
      cases h with
      | matched hfound _ hfound' hnearest =>
        cases parent_inj hparent hfound
        cases parent_inj hmatching hfound'
        exact hnearest
      | direct hfound hsort =>
        cases parent_inj hparent hfound
        cases (hasSort_iff hpkind).mp hsort
    · exact .matched hparent ⟨_, hpkind, rfl⟩ hmatching

/-- The body to continue in is the first of the bodies around a body. -/
theorem continuesIn_iff_head? {body outer : NodeId} {rest : List NodeId}
    (hid : tree.InDocument body) (hbody : tree.HasSort NodeKind.isBody body)
    (hs : tree.Surrounds NodeKind.isBody body rest) :
    tree.ContinuesIn body outer ↔ rest.head? = some outer := by
  rw [hw.continuesIn_iff hid hbody, hw.isNearest_iff_head? hs]

/-- The walk from body to body goes through all bodies around the first one. -/
theorem instanceChain_iff {body : NodeId} {rest list : List NodeId} (hid : tree.InDocument body)
    (hbody : tree.HasSort NodeKind.isBody body)
    (hs : tree.Surrounds NodeKind.isBody body rest) :
    tree.InstanceChain body list ↔ list = (body :: rest).flatMap tree.instancesOf := by
  induction rest generalizing body list with
  | nil =>
    constructor
    · intro h
      cases h with
      | last _ => simp
      | next hcontinues _ => cases (hw.continuesIn_iff_head? hid hbody hs).mp hcontinues
    · rintro rfl
      have hlast : tree.InstanceChain body (tree.instancesOf body) :=
        .last (by simp [hw.continuesIn_iff_head? hid hbody hs])
      simpa using hlast
  | cons outer rest ih =>
    obtain ⟨hinside, houter⟩ := hs.mem_iff.mp List.mem_cons_self
    have hdocument := hw.inDocument_of_above hid hinside.under
    have hbehind := hw.surrounds_tail hs
    have hcontinues : tree.ContinuesIn body outer :=
      (hw.continuesIn_iff_head? hid hbody hs).mpr rfl
    rw [List.flatMap_cons]
    constructor
    · intro h
      cases h with
      | last hlast => exact absurd hcontinues (hlast outer)
      | next hcontinues' hrest =>
        cases (hw.continuesIn_iff_head? hid hbody hs).mp hcontinues'
        rw [(ih hdocument houter hbehind).mp hrest]
    · rintro rfl
      exact .next hcontinues ((ih hdocument houter hbehind).mpr rfl)

/-! ## The instances of the bodies around a node -/

/-- A node stands in one node type. -/
theorem nodeType_unique {id first second : NodeId} (hid : tree.InDocument id)
    (hfirst : tree.Inside id first) (hsecond : tree.Inside id second)
    (hsort : tree.HasSort NodeKind.isNodeType first)
    (hsort' : tree.HasSort NodeKind.isNodeType second) : first = second := by
  have heq : ∀ {a b : NodeId}, tree.Inside id a → tree.HasSort NodeKind.isNodeType a →
      tree.HasSort NodeKind.isNodeType b → tree.Under a b → a = b := by
    rintro a b ha hasort ⟨kind, hkind, hbsort⟩ hunder
    refine hw.eq_of_nodeType_under (hw.inDocument_of_above hid ha.under) hasort hunder hkind ?_
    cases kind <;> cases hbsort
    rfl
  obtain hunder | hunder := IsForest.under_total hfirst.under hsecond.under
  · exact heq hfirst hsort hsort' hunder
  · exact (heq hsecond hsort' hsort hunder).symm

/-- A body around a node stands in the same node type as the node. -/
theorem body_inside_nodeType {id body nodeType : NodeId} (hid : tree.InDocument id)
    (hbody : tree.Inside id body) (hsort : tree.HasSort NodeKind.isBody body)
    (hinside : tree.Inside id nodeType) (hnodeType : tree.HasSort NodeKind.isNodeType nodeType) :
    tree.Inside body nodeType := by
  obtain ⟨kind, hkind, hsort⟩ := hsort
  have hne : body ≠ nodeType := by
    rintro rfl
    have hboth := (hasSort_iff hkind).mp hnodeType
    cases kind <;> cases hsort
    cases hboth
  obtain hunder | hunder := IsForest.under_total hbody.under hinside.under
  · exact (under_iff_eq_or_inside.mp hunder).resolve_left hne
  · have hnot : kind.isFile = false := by
      cases kind <;> cases hsort
      rfl
    have hdocument := hw.inDocument_of_above hid hinside.under
    exact absurd (hw.eq_of_nodeType_under hdocument hnodeType hunder hkind hnot).symm hne

end WellShaped

theorem IsForest.parent_of_mem_instancesOf (hf : tree.IsForest) {inst body : NodeId}
    (h : inst ∈ tree.instancesOf body) : tree.parent inst = .ok (some body) := by
  obtain ⟨kind, hkind, hmem⟩ := mem_instancesOf_iff.mp h
  have hplace := NodeKind.mem_places_of_mem_instances hmem
  exact hf.parent_of_child hkind (NodeKind.mem_children_of_mem_places hplace)

/-- Bodies that are different list different instances. -/
theorem IsForest.nodup_instancesOf (hf : tree.IsForest) {bodies : List NodeId}
    (h : bodies.Nodup) : (bodies.flatMap tree.instancesOf).Nodup := by
  rw [List.nodup_flatMap]
  constructor
  · intro body _
    unfold instancesOf
    split
    · next kind hkind =>
      refine (hf.nodup_children hkind).sublist ?_
      cases kind <;> simp [NodeKind.instances, NodeKind.children]
    · simp
  · refine h.imp ?_
    intro first second hne inst hmem hmem'
    have hparent := hf.parent_of_mem_instancesOf hmem
    have hparent' := hf.parent_of_mem_instancesOf hmem'
    exact hne (Option.some.inj (parent_inj hparent hparent'))

section Around

variable {id : NodeId} {bodies : List NodeId}
  (hs : tree.Surrounds NodeKind.isBody id bodies)
include hs

theorem WellShaped.kind_of_mem_instances (hw : tree.WellShaped) (hid : tree.InDocument id)
    {inst : NodeId} (h : inst ∈ bodies.flatMap tree.instancesOf) :
    ∃ name source, tree.kind inst = .ok (.instanceDecl name source) := by
  obtain ⟨body, hbody, hinst⟩ := List.mem_flatMap.mp h
  obtain ⟨kind, hkind, hmem⟩ := mem_instancesOf_iff.mp hinst
  have hdocument := hw.inDocument_of_above hid (hs.mem_iff.mp hbody).1.under
  obtain ⟨found, hfound, hcategory⟩ :=
    hw.fits hdocument hkind (NodeKind.mem_places_of_mem_instances hmem)
  cases found <;> cases hcategory
  exact ⟨_, _, hfound⟩

theorem IsForest.mem_instances_iff_inside (hf : tree.IsForest) {inst body : NodeId}
    (hbody : tree.HasSort NodeKind.isBody body) (hinst : inst ∈ tree.instancesOf body) :
    inst ∈ bodies.flatMap tree.instancesOf ↔ tree.Inside id body := by
  rw [List.mem_flatMap]
  constructor
  · rintro ⟨owner, howner, hmem⟩
    cases parent_inj (hf.parent_of_mem_instancesOf hinst) (hf.parent_of_mem_instancesOf hmem)
    exact (hs.mem_iff.mp howner).1
  · intro hinside
    exact ⟨body, hs.mem_iff.mpr ⟨hinside, hbody⟩, hinst⟩

/-- The instances around a node are those of its own node type. -/
theorem WellShaped.isNearest_of_mem_instances (hw : tree.WellShaped) (hid : tree.InDocument id)
    {nodeType inst : NodeId} (hnearest : tree.IsNearest NodeKind.isNodeType id nodeType)
    (h : inst ∈ bodies.flatMap tree.instancesOf) :
    tree.IsNearest NodeKind.isNodeType inst nodeType := by
  obtain ⟨body, hbody, hinst⟩ := List.mem_flatMap.mp h
  obtain ⟨hinside, hsort⟩ := hs.mem_iff.mp hbody
  have hparent := hw.parent_of_mem_instancesOf hinst
  have hinst : tree.Inside inst nodeType := ⟨body, hparent,
    (hw.body_inside_nodeType hid hinside hsort hnearest.inside hnearest.exists_kind).under⟩
  have hdocument : tree.InDocument inst :=
    (hw.inDocument_of_above hid hinside.under).of_under (.head hparent (.refl body))
  refine ⟨hinst, hnearest.exists_kind, ?_⟩
  intro other kind hother hkind hother'
  rw [hw.nodeType_unique hdocument hinst hother hnearest.exists_kind ⟨kind, hkind, hother'⟩]

end Around

end Tree

/-! ## The scope of a reference to an instance -/

namespace Workspace

variable {ws : Workspace}

/-- A scope is put together from the scopes of its parts. -/
theorem candidates_flatMap {α : Type} (ws : Workspace) (xs : List α) (f : α → List NodeId) :
    (do return (← xs.mapM fun x => ws.candidates (f x)).flatten) =
      ws.candidates (xs.flatMap f) := by
  rw [candidates, mapM_flatMap]
  exact bind_pure_comp _ _

/-- The scope of the last declarations is the end of the scope of all. -/
theorem candidates_suffix {inner outer : List NodeId} {scope : Scope}
    (h : ws.candidates inner = .ok scope) (hsuffix : outer <:+ inner) :
    ∃ rest, ws.candidates outer = .ok rest ∧ rest <:+ scope := by
  obtain ⟨nearer, rfl⟩ := hsuffix
  rw [candidates, List.mapM_append] at h
  obtain ⟨first, _, h⟩ := bind_eq_ok_iff.mp h
  obtain ⟨rest, hrest, h⟩ := bind_eq_ok_iff.mp h
  cases h
  exact ⟨rest, hrest, first, rfl⟩

/-- A candidate presents an instance. -/
def Presents (ws : Workspace) (inst : NodeId) (candidate : Candidate) : Prop :=
  ∃ name source, ws.tree.kind inst = .ok (.instanceDecl name source) ∧
    candidate = ws.naming inst name

/-- Instances make a scope, one by one. -/
theorem exists_candidates {instances : List NodeId}
    (h : ∀ inst ∈ instances, ∃ name source, ws.tree.kind inst = .ok (.instanceDecl name source)) :
    ∃ scope, ws.candidates instances = .ok scope ∧
      List.Forall₂ ws.Presents instances scope := by
  have hcandidate : ∀ inst name source, ws.tree.kind inst = .ok (.instanceDecl name source) →
      ws.candidate inst = .ok (ws.naming inst name) := by
    intro inst name source hkind
    rw [candidate, hkind]
    rfl
  have hexists : ∀ inst ∈ instances, ∃ candidate, ws.candidate inst = .ok candidate := by
    intro inst hmem
    obtain ⟨name, source, hkind⟩ := h inst hmem
    exact ⟨_, hcandidate inst name source hkind⟩
  obtain ⟨scope, hscope⟩ := exists_mapM_eq_ok hexists
  refine ⟨scope, hscope, ?_⟩
  refine ((List.forall₂_and_left _ _).mpr ⟨h, mapM_eq_ok_iff.mp hscope⟩).imp ?_
  rintro inst found ⟨⟨name, source, hkind⟩, hfound⟩
  rw [hcandidate inst name source hkind] at hfound
  exact ⟨name, source, hkind, (Except.ok.inj hfound).symm⟩

theorem instances_eq (hf : ws.tree.IsForest) {id : NodeId} {entries : List (NodeId × NodeKind)}
    (h : ws.tree.enclosing id NodeKind.isBody = .ok entries) (hne : entries ≠ []) :
    ws.instances id = ws.candidates ((entries.map (·.1)).flatMap ws.tree.instancesOf) := by
  rw [← candidates_flatMap, List.mapM_map, instances, h, ok_bind]
  split
  · exact absurd rfl hne
  · refine congrArg (· >>= fun scopes => pure scopes.flatten) (mapM_congr ?_)
    rintro ⟨owner, kind⟩ hmem
    obtain ⟨_, hkind, hsort⟩ := (hf.mem_enclosing_iff h).mp hmem
    cases kind <;> cases hsort
    simp [Tree.instancesOf_eq hkind, NodeKind.instances]

theorem exists_scope_instanceRef (hw : ws.tree.WellShaped) {id : NodeId} {inst port : String}
    (hid : ws.tree.InDocument id) (hkind : ws.tree.kind id = .ok (.expr (.nodePort inst port))) :
    ∃ bodies, bodies ≠ [] ∧ ws.tree.Surrounds NodeKind.isBody id bodies ∧
      ∀ links, ws.scope links ⟨id, .instanceRef⟩ =
        ws.candidates (bodies.flatMap ws.tree.instancesOf) := by
  obtain ⟨entries, hentries, hne⟩ := hw.exists_enclosing_body hid hkind rfl
  refine ⟨entries.map (·.1), by simpa using hne, hw.surrounds_of_enclosing hentries, ?_⟩
  intro links
  have hslot : (NodeKind.expr (.nodePort inst port)).hasSlot .instanceRef = true := rfl
  unfold scope
  simp only [hkind, ok_bind, hslot, if_true]
  exact instances_eq hw.toIsForest hentries hne

/-- `a.port` sees the instances along the walk from body to body, which are those
of all bodies around it.  They are of the same node type, no instance is seen
twice, and a reference in fewer bodies sees the end of the list. -/
theorem instances_follow_chain {source : SourceId} {steps : List BuildStep}
    (hbuild : Tree.build source steps = .ok ws.tree) (hgrammar : ws.tree.isGrammatical = true)
    (links : Links) {id : NodeId} {inst port : String} (hid : ws.tree.InDocument id)
    (hkind : ws.tree.kind id = .ok (.expr (.nodePort inst port))) :
    ∃ declared scope, ws.scope links ⟨id, .instanceRef⟩ = .ok scope ∧
      List.Forall₂ ws.Presents declared scope ∧
      (∃ body, ws.tree.IsNearest NodeKind.isBody id body ∧
        ∀ list, ws.tree.InstanceChain body list ↔ list = declared) ∧
      (∃ bodies, ws.tree.Surrounds NodeKind.isBody id bodies ∧
        declared = bodies.flatMap ws.tree.instancesOf) ∧
      (∃ nodeType, ws.tree.IsNearest NodeKind.isNodeType id nodeType ∧
        ∀ declaration ∈ declared,
          ws.tree.IsNearest NodeKind.isNodeType declaration nodeType) ∧
      declared.Nodup ∧
      (∀ body, ws.tree.HasSort NodeKind.isBody body →
        ∀ declaration ∈ ws.tree.instancesOf body,
          (declaration ∈ declared ↔ ws.tree.Inside id body)) ∧
      ∀ other otherInst otherPort, ws.tree.InDocument other →
        ws.tree.kind other = .ok (.expr (.nodePort otherInst otherPort)) →
        (∀ body, ws.tree.Inside other body → ws.tree.HasSort NodeKind.isBody body →
          ws.tree.Inside id body) →
        ∃ outer, ws.scope links ⟨other, .instanceRef⟩ = .ok outer ∧ outer <:+ scope := by
  have hw := Tree.wellShaped_of_build hbuild hgrammar
  obtain ⟨bodies, hne, hs, hscope⟩ := exists_scope_instanceRef hw hid hkind
  obtain ⟨scope, hcandidates, hpresents⟩ :=
    exists_candidates fun declaration => hw.kind_of_mem_instances hs hid
  refine ⟨_, scope, (hscope links).trans hcandidates, hpresents, ?_, ⟨bodies, hs, rfl⟩, ?_,
    hw.nodup_instancesOf (hw.nodup_of_surrounds hs), ?_, ?_⟩
  · obtain ⟨body, rest, rfl⟩ := List.exists_cons_of_ne_nil hne
    obtain ⟨hinside, hbody⟩ := hs.mem_iff.mp List.mem_cons_self
    have hdocument := hw.inDocument_of_above hid hinside.under
    refine ⟨body, (hw.isNearest_iff_head? hs).mpr rfl, ?_⟩
    intro list
    exact hw.instanceChain_iff hdocument hbody (hw.surrounds_tail hs)
  · obtain ⟨nodeType, _, hnearest, _⟩ := hw.exists_nearest_nodeType hid hkind rfl
    have hnearest := hw.isNearest hnearest
    refine ⟨nodeType, hnearest, ?_⟩
    intro declaration hmem
    exact hw.isNearest_of_mem_instances hs hid hnearest hmem
  · intro body hbody declaration hmem
    exact hw.mem_instances_iff_inside hs hbody hmem
  · intro other otherInst otherPort hother hokind houter
    obtain ⟨outer, _, hs', hscope'⟩ := exists_scope_instanceRef hw hother hokind
    have hsuffix := (hw.surrounds_suffix hs hs' houter).flatMap ws.tree.instancesOf
    obtain ⟨rest, hrest, hsuffix⟩ := candidates_suffix hcandidates hsuffix
    exact ⟨rest, (hscope' links).trans hrest, hsuffix⟩

/-- Two node types.  The body of the first holds an instance `a` and a match, of
which each case holds an instance, the first one `a` again. -/
def nestedInstances : List BuildStep := [
  .node (.source (.definition "N")),
  .node (.instanceDecl "a" 0),
  .node (.expr (.nodePort "a" "out")),
  .node (.expr (.variableDefinition "x")),
  .node (.source (.definition "M")),
  .node (.instanceDecl "a" 4),
  .node (.expr (.nodePort "a" "out")),
  .node (.expr (.selfPort "p")),
  .node (.link 6 7),
  .node (.body [5] [8] []),
  .node (.matchCase 3 9),
  .node (.expr (.variableDefinition "y")),
  .node (.source (.definition "M")),
  .node (.instanceDecl "c" 12),
  .node (.body [13] [] []),
  .node (.matchCase 11 14),
  .node (.matching 2 [10, 15]),
  .node (.body [1] [] [16]),
  .node (.nodeType "N" [] [] none (some 17)),
  .node (.source (.definition "N")),
  .node (.instanceDecl "d" 19),
  .node (.body [20] [] []),
  .node (.nodeType "M" [] [] none (some 21)),
  .node (.file [18, 22])]

theorem instances_follow_chain_nestedInstances :
    ∃ tree scope outer body nodeType, Tree.build 1 nestedInstances = .ok tree ∧
      tree.isGrammatical = true ∧ tree.InDocument 6 ∧ tree.InDocument 2 ∧
      tree.kind 6 = .ok (.expr (.nodePort "a" "out")) ∧
      tree.kind 2 = .ok (.expr (.nodePort "a" "out")) ∧
      Workspace.scope { tree } ∅ ⟨6, .instanceRef⟩ = .ok scope ∧
      scope = [⟨"a", 5⟩, ⟨"a", 1⟩] ∧
      tree.IsNearest NodeKind.isBody 6 body ∧ tree.InstanceChain body [5, 1] ∧
      tree.IsNearest NodeKind.isNodeType 6 nodeType ∧
      tree.IsNearest NodeKind.isNodeType 1 nodeType ∧
      13 ∈ tree.instancesOf 14 ∧ ¬ tree.Inside 6 14 ∧
      Workspace.scope { tree } ∅ ⟨2, .instanceRef⟩ = .ok outer ∧ outer <:+ scope ∧
      outer = [⟨"a", 1⟩] := by
  obtain ⟨tree, hbuild⟩ : ∃ tree, Tree.build 1 nestedInstances = .ok tree := ⟨_, rfl⟩
  have hgrammar : tree.isGrammatical = true := by
    cases hbuild
    decide +kernel
  have hf := Tree.isFinished_of_build hbuild
  have hnode : tree.DocumentNode 6 (.expr (.nodePort "a" "out")) := by
    cases hbuild
    exact ⟨23, by decide, _, rfl, by decide⟩
  have hnode' : tree.DocumentNode 2 (.expr (.nodePort "a" "out")) := by
    cases hbuild
    exact ⟨23, by decide, _, rfl, by decide⟩
  obtain ⟨hid, hkind⟩ := hf.documentNode_iff.mp hnode
  obtain ⟨hother, hokind⟩ := hf.documentNode_iff.mp hnode'
  have hbuild' : Tree.build 1 nestedInstances = .ok (Workspace.tree { tree }) := hbuild
  obtain ⟨declared, scope, hscope, hpresents, ⟨body, hbody, hchain⟩, _,
    ⟨nodeType, hnodeType, hown⟩, _, habsent, hsuffix⟩ :=
    instances_follow_chain hbuild' hgrammar ∅ hid hkind
  -- The match stands around both references.
  have houter : ∀ owner, tree.Inside 2 owner → tree.HasSort NodeKind.isBody owner →
      tree.Inside 6 owner := by
    rintro owner ⟨parent, hparent, hunder⟩ _
    cases hbuild
    cases hparent
    exact ⟨8, rfl, .head rfl (.head rfl (.head rfl hunder))⟩
  obtain ⟨outer, hscope', houter⟩ := hsuffix 2 "a" "out" hother hokind houter
  have hvisible : scope = [⟨"a", 5⟩, ⟨"a", 1⟩] := by
    cases hbuild
    cases hscope
    rfl
  have hvisible' : outer = [⟨"a", 1⟩] := by
    cases hbuild
    cases hscope'
    rfl
  have hdeclared : declared = [5, 1] := by
    rw [hvisible] at hpresents
    obtain _ | ⟨⟨_, _, _, hfirst⟩, _ | ⟨⟨_, _, _, hsecond⟩, _ | _⟩⟩ := hpresents
    cases hfirst
    cases hsecond
    rfl
  rw [hdeclared] at hchain hown habsent
  have hinst : 13 ∈ tree.instancesOf 14 := by
    cases hbuild
    decide
  have hsibling : tree.HasSort NodeKind.isBody 14 := by
    cases hbuild
    exact ⟨_, rfl, rfl⟩
  have hnot : ¬ tree.Inside 6 14 := by
    rw [← habsent 14 hsibling 13 hinst]
    decide
  exact ⟨tree, scope, outer, body, nodeType, hbuild, hgrammar, hid, hother, hkind, hokind, hscope,
    hvisible, hbody, (hchain [5, 1]).mpr rfl, hnodeType, hown 1 (by decide), hinst, hnot, hscope',
    houter, hvisible'⟩

end Workspace

end Dataflow
