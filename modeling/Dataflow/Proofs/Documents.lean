import Mathlib.Algebra.Ring.Nat
import Mathlib.Data.List.Induction
import Dataflow.Proofs.Index
import Dataflow.Proofs.Listing

/-!
# Dataflow.Proofs.Documents

What the documents of a workspace list after they were added, replaced and
removed in any order.  What stands under a source hangs on the last change about
that source alone (`Documents.exists_changeAll`), so changes about different
sources can trade places (`Documents.change_comm`), and what is listed hangs on
what stands under each source and not on how the entries are kept
(`Documents.Lists.collect_eq`).

`Documents.changeAll_lists_last` says what is listed after any changes, and what
this means for the documents of a tree.
-/

namespace Dataflow

/-! ## What stands below a node -/

namespace Tree

variable {tree : Tree} {root : NodeId}

/-- The source in which a node stands. -/
def source? (tree : Tree) (id : NodeId) : Option SourceId :=
  tree.nodes[id]?.map (·.span.source)

/-- What a node and everything below it declare, in preorder. -/
def declarationsBelow (tree : Tree) (root : NodeId) : List Declaration :=
  (tree.preorder root).filterMap fun entry => entry.2.declKind?.map (⟨·, entry.1⟩)

/-- The declarations of one kind among a node and everything below it, in
preorder. -/
def declaredBelow (tree : Tree) (kind : DeclKind) (root : NodeId) : List NodeId :=
  ((tree.preorder root).filter (·.2.declKind? = some kind)).map (·.1)

theorem exists_source_of_lt (h : root < tree.size) : ∃ source, tree.source? root = some source := by
  obtain ⟨node, hnode⟩ := exists_node_of_lt h
  exact ⟨node.span.source, by rw [source?, hnode]; rfl⟩

theorem map_node_declarationsBelow (tree : Tree) (kind : DeclKind) (root : NodeId) :
    ((tree.declarationsBelow root).filter (·.kind = kind)).map (·.node) =
      tree.declaredBelow kind root := by
  rw [declarationsBelow, declaredBelow]
  induction tree.preorder root with
  | nil => rfl
  | cons entry entries ih =>
    rw [List.filterMap_cons, List.filter_cons]
    cases entry.2.declKind? with
    | none => simpa using ih
    | some found => by_cases hkind : found = kind <;> simp [hkind, ih]

theorem IsForest.mem_declaredBelow (hf : tree.IsForest) (hroot : root < tree.size)
    {kind : DeclKind} {id : NodeId} :
    id ∈ tree.declaredBelow kind root ↔ tree.Under id root ∧
      ∃ found, tree.kind id = .ok found ∧ found.declKind? = some kind := by
  simp only [declaredBelow, List.mem_map, List.mem_filter, Prod.exists, hf.mem_preorder_iff hroot,
    decide_eq_true_eq]
  constructor
  · rintro ⟨_, found, ⟨⟨hunder, hfound⟩, hkind⟩, rfl⟩
    exact ⟨hunder, found, hfound, hkind⟩
  · rintro ⟨hunder, found, hfound, hkind⟩
    exact ⟨id, found, ⟨⟨hunder, hfound⟩, hkind⟩, rfl⟩

theorem IsForest.nodup_declaredBelow (hf : tree.IsForest) (hroot : root < tree.size)
    (kind : DeclKind) : (tree.declaredBelow kind root).Nodup :=
  (hf.nodup_preorder hroot).sublist (List.filter_sublist.map _)

end Tree

/-! ## Changes -/

/-- A change to the documents of a workspace. -/
inductive DocumentChange where
  /-- Take over what a node and everything below it declare. -/
  | add (root : NodeId)
  /-- Forget a source. -/
  | remove (source : SourceId)
  deriving DecidableEq, Repr

namespace DocumentChange

/-- The source that a change is about. -/
def source? (tree : Tree) : DocumentChange → Option SourceId
  | add root => tree.source? root
  | remove source => some source

/-- The node whose declarations a change takes over. -/
def added? : DocumentChange → Option NodeId
  | add root => some root
  | remove _ => none

theorem exists_source (tree : Tree) {change : DocumentChange}
    (h : ∀ root, change = .add root → root < tree.size) :
    ∃ source, change.source? tree = some source := by
  cases change with
  | add root => exact Tree.exists_source_of_lt (h root rfl)
  | remove source => exact ⟨source, rfl⟩

end DocumentChange

namespace Documents

/-- Carry out a change. -/
def change (tree : Tree) (documents : Documents) : DocumentChange → Result Documents
  | .add root => documents.add tree root
  | .remove source => .ok (documents.remove source)

/-- Carry out some changes in order. -/
def changeAll (tree : Tree) (documents : Documents) (changes : List DocumentChange) :
    Result Documents :=
  changes.foldlM (change tree) documents

/-- The node that was added by the last change about a source, if that change
did not remove the source. -/
def lastAdded? (tree : Tree) (changes : List DocumentChange) (source : SourceId) :
    Option NodeId :=
  (changes.reverse.find? (·.source? tree = some source)).bind DocumentChange.added?

theorem lastAdded?_append_singleton (tree : Tree) (changes : List DocumentChange)
    (change : DocumentChange) (source : SourceId) :
    lastAdded? tree (changes ++ [change]) source =
      if change.source? tree = some source then change.added?
      else lastAdded? tree changes source := by
  rw [lastAdded?, List.reverse_append, List.reverse_singleton, List.singleton_append,
    List.find?_cons]
  by_cases h : change.source? tree = some source
  · simp [h]
  · simp [h, lastAdded?]

theorem lastAdded?_eq_some_iff {tree : Tree} {changes : List DocumentChange} {source : SourceId}
    {root : NodeId} :
    lastAdded? tree changes source = some root ↔ ∃ before after,
      changes = before ++ .add root :: after ∧ tree.source? root = some source ∧
        ∀ change ∈ after, change.source? tree ≠ some source := by
  simp only [lastAdded?, Option.bind_eq_some_iff, List.find?_eq_some_iff_append,
    decide_eq_true_eq, Bool.not_eq_true', decide_eq_false_iff_not]
  constructor
  · rintro ⟨change, ⟨hsource, later, earlier, hreverse, hlater⟩, hadded⟩
    cases change with
    | add found =>
      cases hadded
      refine ⟨earlier.reverse, later.reverse, ?_, hsource, ?_⟩
      · rw [← List.reverse_reverse changes, hreverse]
        simp
      · intro change hmem
        exact hlater change (List.mem_reverse.mp hmem)
    | remove _ => cases hadded
  · rintro ⟨before, after, rfl, hroot, hafter⟩
    refine ⟨.add root, ⟨hroot, after.reverse, before.reverse, by simp, ?_⟩, rfl⟩
    intro change hmem
    exact hafter change (List.mem_reverse.mp hmem)

/-- Documents are what stands under each source. -/
@[ext] theorem ext_get? {a b : Documents} (h : ∀ source, a.get? source = b.get? source) :
    a = b := by
  obtain ⟨a⟩ := a
  obtain ⟨b⟩ := b
  exact congrArg Documents.mk (Std.ExtTreeMap.ext_getElem? h)

@[simp] theorem get?_empty (source : SourceId) : (∅ : Documents).get? source = none := by
  show (∅ : Std.ExtTreeMap SourceId (List Declaration) compare)[source]? = none
  simp

section Runs

variable {tree : Tree} (hf : tree.IsForest)
include hf

theorem add_eq_insert {root : NodeId} {source : SourceId}
    (hsource : tree.source? root = some source)
    (documents : Documents) :
    documents.add tree root =
      .ok ⟨documents.bySource.insert source (tree.declarationsBelow root)⟩ := by
  obtain ⟨node, hnode, rfl⟩ := Option.map_eq_some_iff.mp hsource
  have hspan : tree.span root = .ok node.span := Tree.span_eq_ok_iff.mpr ⟨node, hnode, rfl⟩
  rw [add, hspan, Tree.declarations, hf.subtree_eq_preorder (Tree.lt_size_of_node hnode)]
  rfl

/-- What a change does: the source that it is about has the declarations that
were added, or none; all others have what they had. -/
theorem exists_change {change : DocumentChange} {source : SourceId}
    (hsource : change.source? tree = some source) (documents : Documents) :
    ∃ changed, documents.change tree change = .ok changed ∧ ∀ other, changed.get? other =
      if source = other then change.added?.map tree.declarationsBelow
      else documents.get? other := by
  cases change with
  | add root =>
    refine ⟨_, add_eq_insert hf hsource documents, ?_⟩
    intro other
    simp only [get?, Std.ExtTreeMap.getElem?_insert, Nat.compare_eq_eq]
    rfl
  | remove removed =>
    cases hsource
    refine ⟨documents.remove source, rfl, ?_⟩
    intro other
    simp only [get?, remove, Std.ExtTreeMap.getElem?_erase, Nat.compare_eq_eq]
    rfl

/-- After any changes a source has the declarations of the node that was last
added under it. -/
theorem exists_changeAll {changes : List DocumentChange}
    (hnodes : ∀ root, .add root ∈ changes → root < tree.size) :
    ∃ documents, changeAll tree ∅ changes = .ok documents ∧ ∀ source,
      documents.get? source = (lastAdded? tree changes source).map tree.declarationsBelow := by
  induction changes using List.reverseRecOn with
  | nil => exact ⟨∅, rfl, fun source => get?_empty source⟩
  | append_singleton changes change ih =>
    obtain ⟨before, hbefore, hget⟩ := ih fun root hmem => hnodes root (List.mem_append_left _ hmem)
    obtain ⟨source, hsource⟩ := change.exists_source tree fun root heq =>
      hnodes root (by simp [heq])
    obtain ⟨after, hafter, hchanged⟩ := exists_change hf hsource before
    refine ⟨after, ?_, ?_⟩
    · rw [changeAll, List.foldlM_append, ← changeAll, hbefore, ok_bind, List.foldlM_cons, hafter]
      rfl
    · intro other
      rw [hchanged, lastAdded?_append_singleton, hsource, hget]
      by_cases hother : source = other <;> simp [hother]

/-- Changes about different sources can trade places. -/
theorem change_comm {first second : DocumentChange} {source source' : SourceId}
    (hfirst : first.source? tree = some source) (hsecond : second.source? tree = some source')
    (hne : source ≠ source') (documents : Documents) :
    (documents.change tree first >>= (·.change tree second)) =
      (documents.change tree second >>= (·.change tree first)) := by
  obtain ⟨a, ha, hgetA⟩ := exists_change hf hfirst documents
  obtain ⟨b, hb, hgetB⟩ := exists_change hf hsecond documents
  obtain ⟨ab, hab, hgetAB⟩ := exists_change hf hsecond a
  obtain ⟨ba, hba, hgetBA⟩ := exists_change hf hfirst b
  have heq : ab = ba := by
    ext1 other
    rw [hgetAB, hgetBA, hgetA, hgetB]
    by_cases hother : source = other
    · subst hother
      simp [Ne.symm hne]
    · simp [hother]
  rw [ha, hb, ok_bind, ok_bind, hab, hba, heq]

/-- Neighbouring changes about different sources can trade places in any run. -/
theorem changeAll_swap {before after : List DocumentChange} {first second : DocumentChange}
    {source source' : SourceId} (hfirst : first.source? tree = some source)
    (hsecond : second.source? tree = some source') (hne : source ≠ source')
    (documents : Documents) :
    changeAll tree documents (before ++ first :: second :: after) =
      changeAll tree documents (before ++ second :: first :: after) := by
  simp only [changeAll, List.foldlM_append, List.foldlM_cons]
  refine congrArg _ (funext fun between => ?_)
  rw [← bind_assoc, ← bind_assoc, change_comm hf hfirst hsecond hne]

end Runs

/-! ## Listing -/

variable {documents : Documents}

/-- The sources that have an entry, in increasing order. -/
def sources (documents : Documents) : List SourceId := documents.bySource.toList.map (·.1)

theorem pairwise_sources (documents : Documents) : documents.sources.Pairwise (· < ·) :=
  List.pairwise_map.mpr (pairwise_toList_table documents.bySource)

theorem mem_sources_iff {source : SourceId} :
    source ∈ documents.sources ↔ (documents.get? source).isSome = true := by
  simp only [sources, List.mem_map, Prod.exists, Std.ExtTreeMap.mem_toList_iff_getElem?_eq_some,
    exists_and_right, exists_eq_right, Option.isSome_iff_exists, get?]

/-- The declarations of one kind, one source after the other. -/
theorem declarations_eq_flatMap (documents : Documents) (kind : DeclKind) :
    documents.declarations kind = documents.sources.flatMap fun source =>
      (((documents.get? source).getD []).filter (·.kind = kind)).map (·.node) := by
  rw [declarations, toList, List.filter_flatMap, List.map_flatMap, sources, List.flatMap_map]
  refine List.flatMap_congr ?_
  rintro ⟨source, declarations⟩ hmem
  rw [get?, Std.ExtTreeMap.mem_toList_iff_getElem?_eq_some.mp hmem]
  rfl

/-- Every declaration is of one of the two kinds. -/
theorem size_eq_length_add_length (documents : Documents) :
    documents.size = (documents.declarations .dataType).length +
      (documents.declarations .nodeType).length := by
  simp only [size, declarations, List.length_map]
  induction documents.toList with
  | nil => rfl
  | cons declaration rest ih =>
    obtain ⟨kind, node⟩ := declaration
    cases kind <;> simp [ih] <;> lia

/-- Some entries are those of the documents, each of them once, in whatever
order. -/
structure Lists (documents : Documents) (entries : List (SourceId × List Declaration)) :
    Prop where
  nodup : (entries.map (·.1)).Nodup
  mem_iff : ∀ source declarations,
    (source, declarations) ∈ entries ↔ documents.get? source = some declarations

/-- The declarations of one kind, picked from each entry, with the entries
sorted by their source afterwards. -/
def collect (entries : List (SourceId × List Declaration)) (kind : DeclKind) : List NodeId :=
  let picked := entries.map fun entry =>
    (entry.1, (entry.2.filter (·.kind = kind)).map (·.node))
  (picked.mergeSort fun a b => decide (a.1 ≤ b.1)).flatMap (·.2)

namespace Lists

variable {entries : List (SourceId × List Declaration)} (h : documents.Lists entries)
include h

/-- What is collected hangs on the entries and not on their order. -/
theorem collect_eq (kind : DeclKind) : collect entries kind = documents.declarations kind := by
  have hsorted := mergeSort_eq_toList h.nodup h.mem_iff
  have hpicked := List.map_mergeSort (r := fun a b => decide (a.1 ≤ b.1))
    (s := fun a b => decide (a.1 ≤ b.1)) (l := entries)
    (f := fun entry => (entry.1, (entry.2.filter (·.kind = kind)).map (·.node)))
    fun _ _ _ _ => rfl
  simp only [collect]
  rw [← hpicked, hsorted, List.flatMap_map, declarations, toList, List.filter_flatMap,
    List.map_flatMap]

theorem sum_eq_size : (entries.map (·.2.length)).sum = documents.size := by
  have hsorted := mergeSort_eq_toList h.nodup h.mem_iff
  have hperm := List.mergeSort_perm entries fun a b => decide (a.1 ≤ b.1)
  rw [hsorted] at hperm
  rw [← (hperm.map (·.2.length)).sum_nat, size, toList, List.length_flatMap]

end Lists

/-! ## Any changes -/

/-- The declarations of one kind after some changes: source by source, those of
the node that was last added. -/
theorem declarations_of_get? {tree : Tree} {changes : List DocumentChange}
    (h : ∀ source, documents.get? source =
      (lastAdded? tree changes source).map tree.declarationsBelow) (kind : DeclKind) :
    documents.declarations kind = documents.sources.flatMap fun source =>
      (lastAdded? tree changes source).elim [] (tree.declaredBelow kind) := by
  rw [declarations_eq_flatMap]
  refine List.flatMap_congr ?_
  intro source _
  rw [h]
  cases lastAdded? tree changes source with
  | none => rfl
  | some root => exact tree.map_node_declarationsBelow kind root

theorem mem_elim_nil_iff {α β : Type} {o : Option α} {f : α → List β} {b : β} :
    b ∈ o.elim [] f ↔ ∃ a, o = some a ∧ b ∈ f a := by
  cases o <;> simp

theorem ofTree_eq_changeAll (tree : Tree) :
    ofTree tree = changeAll tree ∅ (tree.files.map .add) := by
  rw [ofTree, addAll, changeAll, List.foldlM_map]
  rfl

/-- The documents of a tree under a source are those of the last file of that
source. -/
theorem lastAdded?_files_iff {tree : Tree} {source : SourceId} {root : NodeId} :
    lastAdded? tree (tree.files.map .add) source = some root ↔ ∃ before after,
      tree.files = before ++ root :: after ∧ tree.source? root = some source ∧
        ∀ later ∈ after, tree.source? later ≠ some source := by
  rw [lastAdded?_eq_some_iff]
  constructor
  · rintro ⟨before, after, heq, hroot, hafter⟩
    obtain ⟨first, rest, hfiles, rfl, hrest⟩ := List.map_eq_append_iff.mp heq
    obtain ⟨found, last, rfl, hfound, rfl⟩ := List.map_eq_cons_iff.mp hrest
    cases hfound
    exact ⟨first, last, hfiles, hroot, fun later hmem => hafter _ (List.mem_map_of_mem hmem)⟩
  · rintro ⟨before, after, heq, hroot, hafter⟩
    refine ⟨before.map .add, after.map .add, by simp [heq], hroot, ?_⟩
    intro change hmem
    obtain ⟨later, hlater, rfl⟩ := List.mem_map.mp hmem
    exact hafter later hlater

section Files

variable {tree : Tree} (hf : tree.IsFinished)
  (h : ∀ source, documents.get? source =
    (lastAdded? tree (tree.files.map .add) source).map tree.declarationsBelow)
include hf h

/-- Of several files of one source the last is listed, and nothing else. -/
theorem mem_declarations_files_iff {kind : DeclKind} {id : NodeId} :
    id ∈ documents.declarations kind ↔ ∃ before root after,
      tree.files = before ++ root :: after ∧
        (∀ later ∈ after, tree.source? later ≠ tree.source? root) ∧
          id ∈ tree.declaredBelow kind root := by
  rw [declarations_of_get? h, List.mem_flatMap]
  constructor
  · rintro ⟨source, _, hmem⟩
    obtain ⟨root, hlast, hmem⟩ := mem_elim_nil_iff.mp hmem
    obtain ⟨before, after, hfiles, hroot, hafter⟩ := lastAdded?_files_iff.mp hlast
    exact ⟨before, root, after, hfiles, hroot ▸ hafter, hmem⟩
  · rintro ⟨before, root, after, hfiles, hafter, hmem⟩
    have hroot : root ∈ tree.files := by simp [hfiles]
    obtain ⟨source, hsource⟩ := Tree.exists_source_of_lt (hf.file_lt_size hroot)
    have hlast := lastAdded?_files_iff.mpr ⟨before, after, hfiles, hsource, hsource ▸ hafter⟩
    refine ⟨source, mem_sources_iff.mpr ?_, ?_⟩
    · rw [h, hlast]
      rfl
    · rw [hlast]
      exact hmem

/-- No declaration is listed twice. -/
theorem nodup_declarations_files (kind : DeclKind) : (documents.declarations kind).Nodup := by
  have hfile : ∀ {source root}, lastAdded? tree (tree.files.map .add) source = some root →
      root ∈ tree.files ∧ tree.source? root = some source := by
    intro source root hlast
    obtain ⟨before, after, hfiles, hroot, _⟩ := lastAdded?_files_iff.mp hlast
    exact ⟨by simp [hfiles], hroot⟩
  rw [declarations_of_get? h, List.nodup_flatMap]
  refine ⟨?_, ?_⟩
  · intro source _
    cases hlast : lastAdded? tree (tree.files.map .add) source with
    | none => exact List.nodup_nil
    | some root => exact hf.nodup_declaredBelow (hf.file_lt_size (hfile hlast).1) kind
  · refine documents.pairwise_sources.imp ?_
    intro first second hlt id hfirst hsecond
    obtain ⟨root, hlast, hmem⟩ := mem_elim_nil_iff.mp hfirst
    obtain ⟨root', hlast', hmem'⟩ := mem_elim_nil_iff.mp hsecond
    obtain ⟨hroot, hsource⟩ := hfile hlast
    obtain ⟨hroot', hsource'⟩ := hfile hlast'
    -- A node of both files would make them one file, with one source.
    have hunder := (hf.mem_declaredBelow (hf.file_lt_size hroot)).mp hmem
    have hunder' := (hf.mem_declaredBelow (hf.file_lt_size hroot')).mp hmem'
    rw [hf.file_eq hroot hroot' hunder.1 hunder'.1, hsource'] at hsource
    cases hsource
    exact Nat.lt_irrefl _ hlt

/-- If no two files share a source, every declaration of a document is listed
once. -/
theorem count_declarations_files (hsources : (tree.files.map tree.source?).Nodup) {id : NodeId}
    {found : NodeKind} (hnode : tree.DocumentNode id found) {kind : DeclKind}
    (hkind : found.declKind? = some kind) : (documents.declarations kind).count id = 1 := by
  refine List.count_eq_one_of_mem (nodup_declarations_files hf h kind) ?_
  obtain ⟨⟨root, hroot, hunder⟩, hfound⟩ := hf.documentNode_iff.mp hnode
  obtain ⟨before, after, hfiles⟩ := List.append_of_mem hroot
  refine (mem_declarations_files_iff hf h).mpr ⟨before, root, after, hfiles, ?_, ?_⟩
  · intro later hlater heq
    rw [hfiles, List.map_append, List.map_cons, List.nodup_append] at hsources
    exact (List.nodup_cons.mp hsources.2.1).1 (heq ▸ List.mem_map_of_mem hlater)
  · exact (hf.mem_declaredBelow (hf.file_lt_size hroot)).mpr ⟨hunder, found, hfound, hkind⟩

end Files

/-- After any changes, to which any nodes of the tree may have been added, the
documents list source by source, in increasing order, what stands below the node
that was last added under the source, unless a later change removed it.  What is
listed and how much of it does not hang on the order in which the entries are
kept, and neighbouring changes about different sources can trade places.

A tree is checked by the documents that result from adding its files in order:
of several files of one source only the last is listed, and if no two files
share a source, every declaration of a file is listed once. -/
theorem changeAll_lists_last {source : SourceId} {steps : List BuildStep} {tree : Tree}
    (hbuild : Tree.build source steps = .ok tree) {changes : List DocumentChange}
    (hnodes : ∀ root, .add root ∈ changes → root < tree.size) :
    (∃ documents, changeAll tree ∅ changes = .ok documents ∧
      (∃ sources : List SourceId, sources.Pairwise (· < ·) ∧
        (∀ source, source ∈ sources ↔ (lastAdded? tree changes source).isSome = true) ∧
        ∀ kind, documents.declarations kind = sources.flatMap fun source =>
          (lastAdded? tree changes source).elim [] (tree.declaredBelow kind)) ∧
      documents.size = (documents.declarations .dataType).length +
        (documents.declarations .nodeType).length ∧
      ∀ entries, documents.Lists entries →
        (∀ kind, collect entries kind = documents.declarations kind) ∧
          (entries.map (·.2.length)).sum = documents.size) ∧
    (∀ before first second after, changes = before ++ first :: second :: after →
      first.source? tree ≠ second.source? tree →
        changeAll tree ∅ (before ++ second :: first :: after) = changeAll tree ∅ changes) ∧
    ∃ documents, changeAll tree ∅ (tree.files.map .add) = .ok documents ∧
      tree.workspace = .ok { tree, index := documents.index } ∧
      (∀ kind id, id ∈ documents.index.declarations kind ↔ ∃ before root after,
        tree.files = before ++ root :: after ∧
          (∀ later ∈ after, tree.source? later ≠ tree.source? root) ∧
            id ∈ tree.declaredBelow kind root) ∧
      ((tree.files.map tree.source?).Nodup → ∀ id found kind, tree.DocumentNode id found →
        found.declKind? = some kind → (documents.index.declarations kind).count id = 1) := by
  have hf := Tree.isFinished_of_build hbuild
  refine ⟨?_, ?_, ?_⟩
  · obtain ⟨documents, hdocuments, hget⟩ := exists_changeAll hf.toIsForest hnodes
    refine ⟨documents, hdocuments, ⟨documents.sources, documents.pairwise_sources, ?_,
      declarations_of_get? hget⟩, documents.size_eq_length_add_length, ?_⟩
    · intro source
      rw [mem_sources_iff, hget, Option.isSome_map]
    · intro entries hlists
      exact ⟨hlists.collect_eq, hlists.sum_eq_size⟩
  · rintro before first second after rfl hne
    obtain ⟨a, ha⟩ := first.exists_source tree fun root heq =>
      hnodes root (by simp [heq])
    obtain ⟨b, hb⟩ := second.exists_source tree fun root heq =>
      hnodes root (by simp [heq])
    rw [ha, hb] at hne
    exact changeAll_swap hf.toIsForest hb ha (fun heq => hne (congrArg some heq.symm)) ∅
  · have hfiles : ∀ root, .add root ∈ tree.files.map DocumentChange.add → root < tree.size := by
      intro root hmem
      obtain ⟨found, hfound, heq⟩ := List.mem_map.mp hmem
      cases heq
      exact hf.file_lt_size hfound
    obtain ⟨documents, hdocuments, hget⟩ := exists_changeAll hf.toIsForest hfiles
    refine ⟨documents, hdocuments, ?_, ?_, ?_⟩
    · rw [Tree.workspace, ofTree_eq_changeAll, hdocuments]
      rfl
    · intro kind id
      rw [declarations_index]
      exact mem_declarations_files_iff hf hget
    · intro hsources id found kind hnode hkind
      rw [declarations_index]
      exact count_declarations_files hf hget hsources hnode hkind

/-- Three files, two of them of one source. -/
def replacedSteps : List BuildStep := [
  .node (.constructor "Bar" []),
  .node (.dataType "Foo" [] [0]),
  .node (.file [1]),
  .switchSource 1,
  .node (.nodeType "X" [] [] none none),
  .node (.dataType "Qux" [] []),
  .node (.file [3, 4]),
  .switchSource 2,
  .node (.dataType "Late" [] []),
  .node (.file [6])]

/-- The second file is removed and one of its data types is added by itself. -/
def replacedChanges : List DocumentChange := [.add 2, .add 5, .add 7, .remove 1, .add 4]

/-- Two files, each of a source of its own. -/
def separateSteps : List BuildStep := [
  .node (.dataType "Foo" [] []),
  .node (.file [0]),
  .switchSource 1,
  .node (.dataType "Bar" [] []),
  .node (.file [2])]

theorem changeAll_lists_last_replaced :
    (∃ tree documents, Tree.build 2 replacedSteps = .ok tree ∧
      changeAll tree ∅ replacedChanges = .ok documents ∧
      (∀ entries, documents.Lists entries → collect entries .dataType = [4, 6]) ∧
      changeAll tree ∅ [.add 2, .add 7, .add 5, .remove 1, .add 4] = .ok documents ∧
      ∃ index, tree.workspace = .ok { tree, index } ∧ 6 ∈ index.dataTypes) ∧
    ∃ tree index, Tree.build 3 separateSteps = .ok tree ∧
      tree.workspace = .ok { tree, index } ∧ index.dataTypes.count 2 = 1 := by
  constructor
  · obtain ⟨tree, hbuild⟩ : ∃ tree, Tree.build 2 replacedSteps = .ok tree := ⟨_, rfl⟩
    have hnodes : ∀ root, .add root ∈ replacedChanges → root < tree.size := by
      cases hbuild
      simp [replacedChanges, Tree.size]
    obtain ⟨⟨documents, hdocuments, _, _, hlists⟩, hswap, _, _, hworkspace, hmem, _⟩ :=
      changeAll_lists_last hbuild hnodes
    refine ⟨tree, documents, hbuild, hdocuments, ?_, ?_, _, hworkspace,
      (hmem .dataType 6).mpr ⟨[2, 5], 7, [], ?_, ?_, ?_⟩⟩
    · intro entries hentries
      rw [(hlists entries hentries).1]
      cases hbuild
      cases hdocuments
      rfl
    · rw [← hdocuments]
      refine hswap [.add 2] (.add 5) (.add 7) [.remove 1, .add 4] rfl ?_
      cases hbuild
      decide
    · cases hbuild
      rfl
    · simp
    · have hroot : 7 < tree.size := by
        cases hbuild
        decide
      have hunder : tree.Under 6 7 := by
        refine Tree.Under.head ?_ (Tree.Under.refl 7)
        cases hbuild
        rfl
      refine ((Tree.isFinished_of_build hbuild).mem_declaredBelow hroot).mpr ⟨hunder, ?_⟩
      cases hbuild
      exact ⟨_, rfl, rfl⟩
  · obtain ⟨tree, hbuild⟩ : ∃ tree, Tree.build 3 separateSteps = .ok tree := ⟨_, rfl⟩
    have hnode : tree.DocumentNode 2 (.dataType "Bar" [] []) := by
      cases hbuild
      exact ⟨3, by decide, _, rfl, by decide⟩
    have hsources : (tree.files.map tree.source?).Nodup := by
      cases hbuild
      decide
    have hnodes : ∀ root, .add root ∈ ([] : List DocumentChange) → root < tree.size := by simp
    obtain ⟨_, _, _, _, hworkspace, _, hcount⟩ := changeAll_lists_last hbuild hnodes
    exact ⟨tree, _, hbuild, hworkspace, hcount hsources 2 _ .dataType hnode rfl⟩

end Documents

end Dataflow
