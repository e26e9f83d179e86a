import Dataflow.Proofs.Binding
import Dataflow.Proofs.Documents

/-!
# Dataflow.Proofs.Extension

What becomes of the references of a workspace when one more document is
indexed.  A document whose source is greater than all others puts its
declarations behind those that were listed (`Documents.index_add_of_lt`), so
that most scopes only grow at their end.  The scope of a type application is the
exception: it has the node types behind the data types, so a new data type
comes before the node types that were there (`Workspace.Grows`).

`Workspace.add_keeps_references` says what a reference refers to afterwards.
-/

namespace Dataflow

/-! ## Names -/

namespace Tree

variable {tree : Tree}

/-- A node declares a name. -/
def Named (tree : Tree) (id : NodeId) (name : String) : Prop :=
  ∃ kind, tree.kind id = .ok kind ∧ kind.name? = some name

/-- The first of some declarations that has a name. -/
def FirstNamed (tree : Tree) (declarations : List NodeId) (name : String) (first : NodeId) :
    Prop :=
  ∃ before after, declarations = before ++ first :: after ∧ tree.Named first name ∧
    ∀ earlier ∈ before, ¬ tree.Named earlier name

theorem Named.unique {id : NodeId} {name other : String} (h : tree.Named id name)
    (hother : tree.Named id other) : name = other := by
  obtain ⟨kind, hkind, hname⟩ := h
  obtain ⟨found, hfound, hother⟩ := hother
  cases kind_inj hkind hfound
  exact Option.some.inj (hname.symm.trans hother)

/-- What a node and everything below it declare, as an index. -/
def indexBelow (tree : Tree) (root : NodeId) : Index where
  dataTypes := tree.declaredBelow .dataType root
  nodeTypes := tree.declaredBelow .nodeType root

theorem declarations_indexBelow (tree : Tree) (root : NodeId) (kind : DeclKind) :
    (tree.indexBelow root).declarations kind = tree.declaredBelow kind root := by
  cases kind <;> rfl

end Tree

/-! ## Longer indices -/

/-- What an index lists, and behind it what another lists. -/
def Index.append (index more : Index) : Index where
  dataTypes := index.dataTypes ++ more.dataTypes
  nodeTypes := index.nodeTypes ++ more.nodeTypes

theorem Index.declarations_append (index more : Index) (kind : DeclKind) :
    (index.append more).declarations kind = index.declarations kind ++ more.declarations kind := by
  cases kind <;> rfl

namespace Documents

variable {tree : Tree} {documents added : Documents}

/-- A document with a greater source than all others is listed last. -/
theorem index_add_of_lt (hf : tree.IsForest) {root : NodeId} {source : SourceId}
    (hsource : tree.source? root = some source)
    (hlast : ∀ other ∈ documents.sources, other < source)
    (h : documents.add tree root = .ok added) :
    added.index = documents.index.append (tree.indexBelow root) := by
  rw [add_eq_insert hf hsource] at h
  cases h
  have hlist : (documents.bySource.insert source (tree.declarationsBelow root)).toList =
      documents.bySource.toList ++ [(source, tree.declarationsBelow root)] :=
    toList_insert_of_lt fun other found hfound =>
      hlast other (mem_sources_iff.mpr (Option.isSome_of_eq_some hfound))
  have hdeclarations (kind : DeclKind) :
      declarations ⟨documents.bySource.insert source (tree.declarationsBelow root)⟩ kind =
        documents.declarations kind ++ tree.declaredBelow kind root := by
    rw [declarations, toList, hlist, List.flatMap_append, List.filter_append, List.map_append,
      List.flatMap_singleton, tree.map_node_declarationsBelow]
    rfl
  rw [index, hdeclarations, hdeclarations]
  rfl

/-- What a change about a file keeps. -/
theorem Sound.change (hf : tree.IsFinished) (hs : documents.Sound tree) {change : DocumentChange}
    (hfile : ∀ root, change = .add root → root ∈ tree.files)
    (h : documents.change tree change = .ok added) : added.Sound tree := by
  cases change with
  | add root =>
    obtain ⟨found, hfound, hsound⟩ := exists_add hf hs (hfile root rfl)
    rw [Documents.change, hfound] at h
    cases h
    exact hsound
  | remove source =>
    cases h
    intro declaration hmem
    obtain ⟨other, declarations, hother, hmem⟩ := mem_toList_iff.mp hmem
    refine hs declaration (mem_toList_iff.mpr ⟨other, declarations, ?_, hmem⟩)
    simp only [get?, remove, Std.ExtTreeMap.getElem?_erase] at hother
    split at hother
    · cases hother
    · exact hother

theorem Sound.changeAll (hf : tree.IsFinished) (hs : documents.Sound tree)
    {changes : List DocumentChange} (hfiles : ∀ root, .add root ∈ changes → root ∈ tree.files)
    (h : documents.changeAll tree changes = .ok added) : added.Sound tree := by
  induction changes generalizing documents with
  | nil =>
    cases h
    exact hs
  | cons change changes ih =>
    rw [Documents.changeAll, List.foldlM_cons] at h
    obtain ⟨between, hbetween, hrest⟩ := bind_eq_ok_iff.mp h
    refine ih (hs.change hf ?_ hbetween) ?_ hrest
    · rintro root rfl
      exact hfiles root List.mem_cons_self
    · exact fun root hmem => hfiles root (List.mem_cons_of_mem _ hmem)

end Documents

/-! ## Longer scopes -/

namespace Workspace

variable {tree : Tree} {index more : Index}

theorem globals_append (tree : Tree) (index more : Index) (kind : DeclKind) :
    Workspace.globals { tree, index := index.append more } kind = do
      return (← Workspace.globals { tree, index } kind) ++
        (← Workspace.globals { tree, index := more } kind) := by
  simp only [globals, candidates, Index.declarations_append, List.mapM_append]
  rfl

theorem constructors_append (tree : Tree) (index more : Index) :
    Workspace.constructors { tree, index := index.append more } = do
      return (← Workspace.constructors { tree, index }) ++
        (← Workspace.constructors { tree, index := more }) := by
  simp only [constructors, Index.append, List.mapM_append, bind_assoc, pure_bind,
    List.flatten_append]
  rfl

/-- Slots that look at their surroundings see the same by all indices. -/
theorem scope_eq_of_isLocal {site : Site} (h : site.slot.isLocal = true) (links : Links) :
    Workspace.scope { tree, index } links site =
      Workspace.scope { tree, index := more } links site := by
  obtain ⟨node, slot⟩ := site
  cases slot <;> cases h <;> rfl

/-- Interfaces, instance sources and applications see what is new behind what
they saw. -/
theorem scope_append {site : Site} (h : site.slot ∈ [Slot.iface, .nodeDef, .constructor])
    (links : Links) :
    Workspace.scope { tree, index := index.append more } links site = do
      return (← Workspace.scope { tree, index } links site) ++
        (← Workspace.scope { tree, index := more } links site) := by
  obtain ⟨node, slot⟩ := site
  simp only [scope]
  cases tree.kind node with
  | error halt => rfl
  | ok kind =>
    simp only [ok_bind]
    cases kind.hasSlot slot with
    | false => rfl
    | true =>
      simp only [List.mem_cons, List.not_mem_nil, or_false] at h
      obtain rfl | rfl | rfl := h
      · exact globals_append tree index more .nodeType
      · exact globals_append tree index more .nodeType
      · exact constructors_append tree index more

theorem scope_dataType_eq_ok_iff {ws : Workspace} {links : Links} {node : NodeId} {found : Scope} :
    ws.scope links ⟨node, .dataType⟩ = .ok found ↔
      (∃ kind, ws.tree.kind node = .ok kind ∧ kind.hasSlot .dataType = true) ∧
        ∃ dataTypes nodeTypes, ws.globals .dataType = .ok dataTypes ∧
          ws.globals .nodeType = .ok nodeTypes ∧ dataTypes ++ nodeTypes = found := by
  simp only [scope, bind_eq_ok_iff]
  constructor
  · rintro ⟨kind, hkind, h⟩
    split at h
    · obtain ⟨dataTypes, hdataTypes, h⟩ := bind_eq_ok_iff.mp h
      obtain ⟨nodeTypes, hnodeTypes, h⟩ := bind_eq_ok_iff.mp h
      cases h
      exact ⟨⟨kind, hkind, by assumption⟩, dataTypes, nodeTypes, hdataTypes, hnodeTypes, rfl⟩
    · cases h
  · rintro ⟨⟨kind, hkind, hhas⟩, dataTypes, nodeTypes, hdataTypes, hnodeTypes, rfl⟩
    exact ⟨kind, hkind, by rw [if_pos hhas, hdataTypes, hnodeTypes]; rfl⟩

/-- How the scope of a reference grows with the index. -/
inductive Grows (tree : Tree) (index more : Index) (links : Links) (reference : Reference) :
    Scope → Scope → Prop where
  | same {scope : Scope} (hlocal : reference.site.slot.isLocal = true) :
    Grows tree index more links reference scope scope
  | behind {scope new : Scope}
    (hslot : reference.site.slot ∈ [Slot.iface, .nodeDef, .constructor])
    (hnew : Workspace.scope { tree, index := more } links reference.site = .ok new) :
    Grows tree index more links reference scope (scope ++ new)
  | between {dataTypes nodeTypes newDataTypes newNodeTypes : Scope}
    (hslot : reference.site.slot = .dataType)
    (hdataTypes : Workspace.candidates { tree } index.dataTypes = .ok dataTypes)
    (hnodeTypes : Workspace.candidates { tree } index.nodeTypes = .ok nodeTypes)
    (hnewDataTypes : Workspace.candidates { tree } more.dataTypes = .ok newDataTypes)
    (hnewNodeTypes : Workspace.candidates { tree } more.nodeTypes = .ok newNodeTypes) :
    Grows tree index more links reference (dataTypes ++ nodeTypes)
      ((dataTypes ++ newDataTypes) ++ (nodeTypes ++ newNodeTypes))

/-- What becomes of the scope of a reference when the index gets longer. -/
theorem exists_grows {links : Links} {reference : Reference}
    (hslot : reference.site.slot ≠ .nodePort) {grown : Scope}
    (h : Workspace.scope { tree, index := index.append more } links reference.site = .ok grown) :
    ∃ scope, Workspace.scope { tree, index } links reference.site = .ok scope ∧
      Grows tree index more links reference scope grown := by
  have hglobals {kind : DeclKind} {found : Scope}
      (h : Workspace.globals { tree, index := index.append more } kind = .ok found) :
      ∃ old new, Workspace.globals { tree, index } kind = .ok old ∧
        Workspace.globals { tree, index := more } kind = .ok new ∧ found = old ++ new := by
    rw [globals_append] at h
    obtain ⟨old, hold, h⟩ := bind_eq_ok_iff.mp h
    obtain ⟨new, hnew, h⟩ := bind_eq_ok_iff.mp h
    cases h
    exact ⟨old, new, hold, hnew, rfl⟩
  obtain ⟨⟨node, slot⟩, name⟩ := reference
  cases slot with
  | typeParameter | sourcePort | instanceRef | selfPort | matchVariable =>
    refine ⟨grown, ?_, .same rfl⟩
    rw [← h]
    exact scope_eq_of_isLocal rfl links
  | iface | nodeDef | constructor =>
    have hbehind := h
    rw [scope_append (by simp)] at hbehind
    obtain ⟨scope, hscope, hbehind⟩ := bind_eq_ok_iff.mp hbehind
    obtain ⟨new, hnew, hbehind⟩ := bind_eq_ok_iff.mp hbehind
    cases hbehind
    exact ⟨scope, hscope, .behind (by simp) hnew⟩
  | dataType =>
    obtain ⟨hhas, _, _, hall, hall', rfl⟩ := scope_dataType_eq_ok_iff.mp h
    obtain ⟨dataTypes, newDataTypes, hdataTypes, hnewDataTypes, rfl⟩ := hglobals hall
    obtain ⟨nodeTypes, newNodeTypes, hnodeTypes, hnewNodeTypes, rfl⟩ := hglobals hall'
    exact ⟨dataTypes ++ nodeTypes,
      scope_dataType_eq_ok_iff.mpr ⟨hhas, _, _, hdataTypes, hnodeTypes, rfl⟩,
      .between rfl hdataTypes hnodeTypes hnewDataTypes hnewNodeTypes⟩
  | nodePort => exact absurd rfl hslot

/-! ## What a name means then -/

/-- Candidates under their own names are the declarations, in order. -/
theorem of_candidates {declarations : List NodeId} {scope : Scope}
    (h : Workspace.candidates { tree } declarations = .ok scope) :
    scope.map (·.declaration) = declarations ∧
      ∀ candidate ∈ scope, tree.Named candidate.declaration candidate.name := by
  have hall := mapM_eq_ok_iff.mp h
  clear h
  induction hall with
  | nil => exact ⟨rfl, fun _ hmem => absurd hmem List.not_mem_nil⟩
  | @cons declaration candidate declarations scope hcandidate _ ih =>
    obtain ⟨kind, hkind, hcandidate⟩ := bind_eq_ok_iff.mp hcandidate
    split at hcandidate
    · rename_i name hname
      cases hcandidate
      refine ⟨congrArg (declaration :: ·) ih.1, List.forall_mem_cons.mpr ⟨?_, ih.2⟩⟩
      exact ⟨kind, hkind, hname⟩
    · cases hcandidate

theorem firstNamed_of_lookup {declarations : List NodeId} {scope : Scope}
    (h : Workspace.candidates { tree } declarations = .ok scope) {name : String} {first : NodeId}
    (hlookup : Scope.lookup scope name = some first) :
    tree.FirstNamed declarations name first := by
  obtain ⟨rfl, hnamed⟩ := of_candidates h
  obtain ⟨nearer, candidate, farther, rfl, hnearer, rfl, rfl⟩ := Scope.lookup_eq_some_iff.mp hlookup
  refine ⟨nearer.map (·.declaration), farther.map (·.declaration), by simp,
    hnamed candidate (by simp), ?_⟩
  intro earlier hearlier hsame
  obtain ⟨other, hother, rfl⟩ := List.mem_map.mp hearlier
  exact hnearer other hother ((hnamed other (by simp [hother])).unique hsame)

theorem not_named_of_lookup {declarations : List NodeId} {scope : Scope}
    (h : Workspace.candidates { tree } declarations = .ok scope) {name : String}
    (hlookup : Scope.lookup scope name = none) :
    ∀ declaration ∈ declarations, ¬ tree.Named declaration name := by
  obtain ⟨rfl, hnamed⟩ := of_candidates h
  intro declaration hmem hsame
  obtain ⟨candidate, hcandidate, rfl⟩ := List.mem_map.mp hmem
  exact Scope.lookup_eq_none_iff.mp hlookup candidate hcandidate
    ((hnamed candidate hcandidate).unique hsame)

theorem refersTo_iff_of_scope {ws : Workspace} {links : Links} {reference : Reference}
    {scope : Scope} (h : ws.scope links reference.site = .ok scope) {target : NodeId} :
    ws.RefersTo links reference target ↔ Scope.lookup scope reference.name = some target := by
  simp only [RefersTo, h, Except.ok.injEq, exists_eq_left', Scope.lookup_eq_some_iff]

/-- By a sound index every reference has a scope of what it is offered, the ports
of instances aside. -/
theorem HasSoundIndex.exists_scope (hw : tree.WellShaped)
    (hindex : Workspace.HasSoundIndex { tree, index }) {reference : Reference}
    (href : tree.IsReference reference) (hslot : reference.site.slot ≠ .nodePort)
    (links : Links) :
    ∃ scope, Workspace.scope { tree, index } links reference.site = .ok scope ∧
      ∀ candidate ∈ scope,
        Workspace.Offers { tree, index } reference.site candidate.declaration := by
  have hr : Workspace.IsRegular { tree, index } :=
    ⟨hw, hindex.hasBoundedIndex hw.toIsFinished, rfl⟩
  have hyields := hr.yields_scope (supports_empty _) href
  rw [scope_eq_of_ne_nodePort hslot ∅ links] at hyields
  obtain ⟨scope, hscope⟩ := hyields.exists_ok hindex
  exact ⟨scope, hscope, fun candidate hmem => hyields.sort_of_mem hscope hmem⟩

/-- A type application refers to a node type, and a data type of the same name
is declared. -/
def Overtaken (tree : Tree) (declared : List NodeId) (reference : Reference) (target : NodeId) :
    Prop :=
  reference.site.slot = .dataType ∧
    (∃ kind, tree.kind target = .ok kind ∧ kind.isNodeType = true) ∧
      ∃ declaration ∈ declared, tree.Named declaration reference.name

namespace Grows

variable {links : Links} {reference : Reference} {scope grown : Scope} {target : NodeId}

/-- A name means what it meant, unless a new data type comes before it. -/
theorem lookup_of_some (hindex : Workspace.HasSoundIndex { tree, index })
    (h : Grows tree index more links reference scope grown)
    (hlookup : Scope.lookup scope reference.name = some target) :
    (¬ Overtaken tree more.dataTypes reference target →
      Scope.lookup grown reference.name = some target) ∧
    (Overtaken tree more.dataTypes reference target →
      ∃ first, tree.FirstNamed more.dataTypes reference.name first ∧
        Scope.lookup grown reference.name = some first) := by
  cases h with
  | same hlocal =>
    refine ⟨fun _ => hlookup, ?_⟩
    rintro ⟨hslot, _⟩
    rw [hslot] at hlocal
    cases hlocal
  | behind hslot _ =>
    refine ⟨fun _ => by rw [Scope.lookup_append, hlookup]; rfl, ?_⟩
    rintro ⟨hdataType, _⟩
    simp [hdataType] at hslot
  | @between dataTypes nodeTypes newDataTypes newNodeTypes hslot hdata hnodes hnewData _ =>
    rw [Scope.lookup_append] at hlookup
    simp only [Scope.lookup_append]
    cases hold : Scope.lookup dataTypes reference.name with
    | some found =>
      rw [hold] at hlookup
      cases hlookup
      refine ⟨fun _ => rfl, ?_⟩
      -- What was found among the data types is no node type.
      rintro ⟨_, ⟨kind, hkind, hnodeType⟩, _⟩
      obtain ⟨candidate, hmem, rfl⟩ := Scope.exists_of_lookup hold
      obtain ⟨_, _, _, _, hdataType⟩ :=
        hindex.dataType (declaration_mem_of_candidates rfl hdata hmem)
      cases Tree.kind_inj hkind hdataType
      cases hnodeType
    | none =>
      rw [hold, Option.none_or] at hlookup
      cases hnew : Scope.lookup newDataTypes reference.name with
      | some first =>
        refine ⟨?_, fun _ => ⟨first, firstNamed_of_lookup hnewData hnew, rfl⟩⟩
        intro hnot
        obtain ⟨candidate, hmem, rfl⟩ := Scope.exists_of_lookup hlookup
        have hnodeType := hindex.nodeType (declaration_mem_of_candidates rfl hnodes hmem)
        obtain ⟨before, after, hdeclared, hnamed, _⟩ := firstNamed_of_lookup hnewData hnew
        exact absurd ⟨hslot, hnodeType.2, first, by simp [hdeclared], hnamed⟩ hnot
      | none =>
        refine ⟨fun _ => by rw [hlookup]; rfl, ?_⟩
        rintro ⟨_, _, declaration, hmem, hnamed⟩
        exact absurd hnamed (not_named_of_lookup hnewData hnew declaration hmem)

/-- What a name means that meant nothing is new. -/
theorem lookup_of_none (hw : tree.WellShaped)
    (hmore : Workspace.HasSoundIndex { tree, index := more })
    (href : tree.IsReference reference) (hport : reference.site.slot ≠ .nodePort)
    (h : Grows tree index more links reference scope grown)
    (hlookup : Scope.lookup scope reference.name = none)
    (hgrown : Scope.lookup grown reference.name = some target) :
    reference.site.slot ∈ [Slot.dataType, .iface, .nodeDef, .constructor] ∧
      Workspace.Offers { tree, index := more } reference.site target := by
  cases h with
  | same _ =>
    rw [hlookup] at hgrown
    cases hgrown
  | behind hslot hnew =>
    rw [Scope.lookup_append, hlookup, Option.none_or] at hgrown
    obtain ⟨candidate, hmem, rfl⟩ := Scope.exists_of_lookup hgrown
    obtain ⟨found, hfound, hoffers⟩ := hmore.exists_scope hw href hport links
    rw [hnew] at hfound
    cases hfound
    exact ⟨List.mem_cons_of_mem _ hslot, hoffers candidate hmem⟩
  | between hslot _ _ hnewData hnewNodes =>
    obtain ⟨⟨node, slot⟩, name⟩ := reference
    cases hslot
    rw [Scope.lookup_append, Option.or_eq_none_iff] at hlookup
    simp only [Scope.lookup_append, hlookup.1, hlookup.2, Option.none_or,
      Option.or_eq_some_iff] at hgrown
    refine ⟨List.mem_cons_self, ?_⟩
    obtain hgrown | ⟨_, hgrown⟩ := hgrown
    · obtain ⟨candidate, hmem, rfl⟩ := Scope.exists_of_lookup hgrown
      exact .inl (declaration_mem_of_candidates rfl hnewData hmem)
    · obtain ⟨candidate, hmem, rfl⟩ := Scope.exists_of_lookup hgrown
      exact .inr (declaration_mem_of_candidates rfl hnewNodes hmem)

end Grows

end Workspace

/-! ## One more document -/

namespace Tree

variable {tree : Tree} {file : NodeId}

theorem IsFinished.hasSoundIndex_indexBelow (hf : tree.IsFinished) (hfile : file ∈ tree.files) :
    Workspace.HasSoundIndex { tree, index := tree.indexBelow file } := by
  refine Workspace.hasSoundIndex_of_declarations ?_
  intro kind id h
  rw [tree.declarations_indexBelow] at h
  obtain ⟨hunder, hdeclares⟩ := (hf.mem_declaredBelow (hf.file_lt_size hfile)).mp h
  exact ⟨⟨file, hfile, hunder⟩, hdeclares⟩

/-- What a document declares for everyone to see is below it. -/
theorem IsFinished.under_of_offers (hf : tree.IsFinished) (hfile : file ∈ tree.files) {site : Site}
    (hslot : site.slot ∈ [Slot.dataType, .iface, .nodeDef, .constructor]) {declaration : NodeId}
    (h : Workspace.Offers { tree, index := tree.indexBelow file } site declaration) :
    tree.Under declaration file := by
  have hbelow {kind : DeclKind} {id : NodeId} (h : id ∈ tree.declaredBelow kind file) :
      tree.Under id file :=
    ((hf.mem_declaredBelow (hf.file_lt_size hfile)).mp h).1
  obtain ⟨node, slot⟩ := site
  simp only [List.mem_cons, List.not_mem_nil, or_false] at hslot
  obtain rfl | rfl | rfl | rfl := hslot
  · exact h.elim hbelow hbelow
  · exact hbelow h
  · exact hbelow h
  · obtain ⟨owner, kind, howner, hkind, hmem⟩ := h
    exact hf.under_of_child (hbelow howner) hkind
      (NodeKind.mem_children_of_mem_places (NodeKind.mem_places_of_mem_constructors hmem))

end Tree

namespace Workspace

/-- Let some documents of a grammatical tree be indexed, and let another one be
added with a greater source than theirs.  A reference that referred to something
refers to the same as before, ports of instances aside, unless it is a type
application that referred to a node type and the new document declares a data
type of that name: then it refers to the first of these.  A reference that
referred to nothing refers to nothing, or to a new declaration.  Slots that look
at their surroundings see what they saw. -/
theorem add_keeps_references {source : SourceId} {steps : List BuildStep} {tree : Tree}
    (hbuild : Tree.build source steps = .ok tree) (hgrammar : tree.isGrammatical = true)
    {changes : List DocumentChange} (hfiles : ∀ root, .add root ∈ changes → root ∈ tree.files)
    {documents : Documents} (hdocuments : Documents.changeAll tree ∅ changes = .ok documents)
    {file : NodeId} (hfile : file ∈ tree.files) {span : Span} (hspan : tree.span file = .ok span)
    (hlast : ∀ other ∈ documents.sources, other < span.source) :
    ∃ added, documents.add tree file = .ok added ∧ ∀ links,
      (∀ reference, tree.IsReference reference → reference.site.slot ≠ .nodePort →
        (∀ target, RefersTo { tree, index := documents.index } links reference target →
          (¬ Overtaken tree (tree.declaredBelow .dataType file) reference target →
            RefersTo { tree, index := added.index } links reference target) ∧
          (Overtaken tree (tree.declaredBelow .dataType file) reference target →
            ∃ first, tree.FirstNamed (tree.declaredBelow .dataType file) reference.name first ∧
              RefersTo { tree, index := added.index } links reference first)) ∧
        ((∀ target, ¬ RefersTo { tree, index := documents.index } links reference target) →
          ∀ target, RefersTo { tree, index := added.index } links reference target →
            reference.site.slot ∈ [Slot.dataType, .iface, .nodeDef, .constructor] ∧
              tree.Under target file ∧
                ∃ kind, tree.kind target = .ok kind ∧
                  reference.site.slot.accepts kind = true)) ∧
      ∀ site : Site, site.slot ∈
          [Slot.typeParameter, .sourcePort, .selfPort, .instanceRef, .matchVariable] →
        scope { tree, index := added.index } links site =
          scope { tree, index := documents.index } links site := by
  have hw := Tree.wellShaped_of_build hbuild hgrammar
  have hf := hw.toIsFinished
  have hs := (Documents.sound_empty tree).changeAll hf hfiles hdocuments
  have hmore := hf.hasSoundIndex_indexBelow hfile
  obtain ⟨added, hadded, hsound⟩ := Documents.exists_add hf hs hfile
  have hindex : added.index = documents.index.append (tree.indexBelow file) := by
    refine Documents.index_add_of_lt hf.toIsForest ?_ hlast hadded
    obtain ⟨node, hnode, rfl⟩ := Tree.span_eq_ok_iff.mp hspan
    rw [Tree.source?, hnode]
    rfl
  refine ⟨added, hadded, ?_⟩
  intro links
  refine ⟨?_, ?_⟩
  · intro reference href hslot
    obtain ⟨grown, hgrown, _⟩ := hsound.hasSoundIndex.exists_scope hw href hslot links
    have hgrown' := hgrown
    rw [hindex] at hgrown'
    obtain ⟨scope, hscope, hgrows⟩ := exists_grows hslot hgrown'
    simp only [refersTo_iff_of_scope hscope, refersTo_iff_of_scope hgrown]
    refine ⟨fun target htarget => hgrows.lookup_of_some hs.hasSoundIndex htarget, ?_⟩
    intro hnone target htarget
    have hlookup := Option.eq_none_iff_forall_ne_some.mpr hnone
    obtain ⟨hglobal, hoffers⟩ := hgrows.lookup_of_none hw hmore href hslot hlookup htarget
    exact ⟨hglobal, hf.under_of_offers hfile hglobal hoffers,
      (hmore.of_offers hw href.1 hoffers).2⟩
  · intro site hlocal
    refine scope_eq_of_isLocal ?_ links
    simp only [List.mem_cons, List.not_mem_nil, or_false] at hlocal
    obtain h | h | h | h | h := hlocal <;> rw [h] <;> rfl

/-- A document with the node type `Foo`, whose ports are of the types `Foo`,
`Late` and `Old`, and the data type `Old`; then one with the data types `Old`,
`Foo` and `Late`. -/
def overtakingSteps : List BuildStep := [
  .node (.type (.apply "Foo" [])),
  .node (.port "a" .input 0),
  .node (.type (.apply "Late" [])),
  .node (.port "b" .input 2),
  .node (.type (.apply "Old" [])),
  .node (.port "c" .input 4),
  .node (.nodeType "Foo" [] [1, 3, 5] none none),
  .node (.dataType "Old" [] []),
  .node (.file [6, 7]),
  .switchSource 2,
  .node (.dataType "Old" [] []),
  .node (.dataType "Foo" [] []),
  .node (.dataType "Late" [] []),
  .node (.file [9, 10, 11])]

theorem add_keeps_references_overtaking :
    ∃ tree documents added, Tree.build 1 overtakingSteps = .ok tree ∧
      tree.isGrammatical = true ∧ Documents.changeAll tree ∅ [.add 8] = .ok documents ∧
      documents.sources = [1] ∧ documents.add tree 12 = .ok added ∧
      RefersTo { tree, index := documents.index } ∅ ⟨⟨0, .dataType⟩, "Foo"⟩ 6 ∧
      (∃ first, tree.FirstNamed (tree.declaredBelow .dataType 12) "Foo" first ∧
        RefersTo { tree, index := added.index } ∅ ⟨⟨0, .dataType⟩, "Foo"⟩ first) ∧
      RefersTo { tree, index := added.index } ∅ ⟨⟨4, .dataType⟩, "Old"⟩ 7 ∧
      (∀ target, ¬ RefersTo { tree, index := documents.index } ∅ ⟨⟨2, .dataType⟩, "Late"⟩ target) ∧
      ∀ target, RefersTo { tree, index := added.index } ∅ ⟨⟨2, .dataType⟩, "Late"⟩ target →
        tree.Under target 12 := by
  obtain ⟨tree, hbuild⟩ : ∃ tree, Tree.build 1 overtakingSteps = .ok tree := ⟨_, rfl⟩
  obtain ⟨documents, hdocuments⟩ : ∃ documents,
      Documents.changeAll tree ∅ [.add 8] = .ok documents := by
    cases hbuild
    exact ⟨_, rfl⟩
  have hgrammar : tree.isGrammatical = true := by
    cases hbuild
    rfl
  have hfiles : tree.files = [8, 12] := by
    cases hbuild
    rfl
  have hsources : documents.sources = [1] := by
    cases hbuild
    cases hdocuments
    rfl
  have hspan : tree.span 12 = .ok (.origin 2) := by
    cases hbuild
    rfl
  have hrefersFoo : RefersTo { tree, index := documents.index } ∅ ⟨⟨0, .dataType⟩, "Foo"⟩ 6 := by
    cases hbuild
    cases hdocuments
    exact ⟨_, rfl, Scope.lookup_eq_some_iff.mp rfl⟩
  have hrefersOld : RefersTo { tree, index := documents.index } ∅ ⟨⟨4, .dataType⟩, "Old"⟩ 7 := by
    cases hbuild
    cases hdocuments
    exact ⟨_, rfl, Scope.lookup_eq_some_iff.mp rfl⟩
  have hrefersLate (target : NodeId) :
      ¬ RefersTo { tree, index := documents.index } ∅ ⟨⟨2, .dataType⟩, "Late"⟩ target := by
    cases hbuild
    cases hdocuments
    rintro ⟨_, hscope, hfirst⟩
    cases hscope
    cases Scope.lookup_eq_some_iff.mpr hfirst
  have hf := Tree.isFinished_of_build hbuild
  have hreference {id : NodeId} {name : String}
      (h : tree.DocumentNode id (.type (.apply name []))) :
      tree.IsReference ⟨⟨id, .dataType⟩, name⟩ := by
    obtain ⟨hdocument, hkind⟩ := hf.documentNode_iff.mp h
    exact ⟨hdocument, _, hkind, List.mem_cons_self⟩
  have hfoo : tree.DocumentNode 0 (.type (.apply "Foo" [])) := by
    cases hbuild
    exact ⟨8, by decide, _, rfl, by decide⟩
  have hlate : tree.DocumentNode 2 (.type (.apply "Late" [])) := by
    cases hbuild
    exact ⟨8, by decide, _, rfl, by decide⟩
  have hold : tree.DocumentNode 4 (.type (.apply "Old" [])) := by
    cases hbuild
    exact ⟨8, by decide, _, rfl, by decide⟩
  have hovertaken : Overtaken tree (tree.declaredBelow .dataType 12) ⟨⟨0, .dataType⟩, "Foo"⟩ 6 := by
    have hunder : tree.Under 10 12 := by
      refine Tree.Under.head ?_ (Tree.Under.refl 12)
      cases hbuild
      rfl
    refine ⟨rfl, ?_, 10, (hf.mem_declaredBelow (hf.file_lt_size (by simp [hfiles]))).mpr
      ⟨hunder, ?_⟩, ?_⟩
    · cases hbuild
      exact ⟨_, rfl, rfl⟩
    · cases hbuild
      exact ⟨_, rfl, rfl⟩
    · cases hbuild
      exact ⟨_, rfl, rfl⟩
  have hkept : ¬ Overtaken tree (tree.declaredBelow .dataType 12) ⟨⟨4, .dataType⟩, "Old"⟩ 7 := by
    rintro ⟨_, ⟨kind, hkind, hnodeType⟩, _⟩
    cases hbuild
    cases hkind
    cases hnodeType
  obtain ⟨added, hadded, hlinks⟩ := add_keeps_references hbuild hgrammar (by simp [hfiles])
    hdocuments (by simp [hfiles]) hspan (by rw [hsources]; decide)
  have hkeeps := (hlinks ∅).1
  refine ⟨tree, documents, added, hbuild, hgrammar, hdocuments, hsources, hadded, hrefersFoo,
    ?_, ?_, hrefersLate, ?_⟩
  · exact ((hkeeps _ (hreference hfoo) nofun).1 6 hrefersFoo).2 hovertaken
  · exact ((hkeeps _ (hreference hold) nofun).1 7 hrefersOld).1 hkept
  · intro target htarget
    exact ((hkeeps _ (hreference hlate) nofun).2 hrefersLate target htarget).2.1

end Workspace

end Dataflow
