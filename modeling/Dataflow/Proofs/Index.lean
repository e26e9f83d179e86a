import Dataflow.Checking
import Dataflow.Proofs.Candidates

/-!
# Dataflow.Proofs.Index

The index of a finished tree.  Indexing the documents of a finished tree
always answers, and the index lists data types and node types of the
documents, each under its own kind (`Tree.IsFinished.exists_workspace`).
-/

namespace Dataflow

/-- An index is sound if it lists nodes of documents, each under its own kind. -/
theorem Workspace.hasSoundIndex_of_declarations {tree : Tree} {index : Index}
    (h : ∀ kind, ∀ id ∈ index.declarations kind, tree.InDocument id ∧
      ∃ found, tree.kind id = .ok found ∧ found.declKind? = some kind) :
    Workspace.HasSoundIndex { tree, index } where
  dataType hmem := by
    obtain ⟨hdocument, found, hfound, hkind⟩ := h .dataType _ hmem
    refine ⟨hdocument, ?_⟩
    cases found <;> cases hkind
    exact ⟨_, _, _, hfound⟩
  nodeType hmem := by
    obtain ⟨hdocument, found, hfound, hkind⟩ := h .nodeType _ hmem
    refine ⟨hdocument, found, hfound, ?_⟩
    cases found <;> cases hkind
    rfl

namespace Documents

variable {tree : Tree} {documents : Documents}

/-- Every declaration is one of a node of a document. -/
def Sound (tree : Tree) (documents : Documents) : Prop :=
  ∀ declaration ∈ documents.toList, tree.InDocument declaration.node ∧
    ∃ kind, tree.kind declaration.node = .ok kind ∧ kind.declKind? = some declaration.kind

theorem mem_toList_iff {declaration : Declaration} :
    declaration ∈ documents.toList ↔
      ∃ source declarations, documents.get? source = some declarations ∧
        declaration ∈ declarations := by
  simp only [toList, get?, List.mem_flatMap, Prod.exists,
    Std.ExtTreeMap.mem_toList_iff_getElem?_eq_some]

theorem sound_empty (tree : Tree) : (∅ : Documents).Sound tree := by
  intro declaration hmem
  obtain ⟨source, declarations, hsource, _⟩ := mem_toList_iff.mp hmem
  change (∅ : Std.ExtTreeMap SourceId (List Declaration) compare)[source]? = some _ at hsource
  simp at hsource

/-- Adding a document answers and lists the declarations of its nodes. -/
theorem exists_add (hf : tree.IsFinished) (hs : documents.Sound tree) {root : NodeId}
    (hroot : root ∈ tree.files) :
    ∃ added, documents.add tree root = .ok added ∧ added.Sound tree := by
  obtain ⟨span, hspan⟩ := Tree.exists_span_of_lt (hf.file_lt_size hroot)
  rw [add, Tree.declarations, hspan, hf.subtree_file hroot]
  refine ⟨_, rfl, ?_⟩
  intro declaration hmem
  obtain ⟨source, declarations, hsource, hmem⟩ := mem_toList_iff.mp hmem
  simp only [get?, Std.ExtTreeMap.getElem?_insert] at hsource
  split at hsource
  · cases hsource
    obtain ⟨⟨id, kind⟩, hentry, hdeclares⟩ := List.mem_filterMap.mp hmem
    obtain ⟨declKind, hdeclKind, rfl⟩ := Option.map_eq_some_iff.mp hdeclares
    obtain ⟨hunder, hkind⟩ := (hf.mem_preorder_iff (hf.file_lt_size hroot)).mp hentry
    exact ⟨⟨root, hroot, hunder⟩, kind, hkind, hdeclKind⟩
  · exact hs declaration (mem_toList_iff.mpr ⟨source, declarations, hsource, hmem⟩)

theorem exists_addAll (hf : tree.IsFinished) (hs : documents.Sound tree) {roots : List NodeId}
    (hroots : ∀ root ∈ roots, root ∈ tree.files) :
    ∃ added, documents.addAll tree roots = .ok added ∧ added.Sound tree := by
  induction roots generalizing documents with
  | nil => exact ⟨documents, rfl, hs⟩
  | cons root roots ih =>
    obtain ⟨first, hfirst, hs⟩ := exists_add hf hs (hroots root List.mem_cons_self)
    obtain ⟨added, hadded, hs⟩ := ih hs fun other hother =>
      hroots other (List.mem_cons_of_mem root hother)
    refine ⟨added, ?_, hs⟩
    rw [addAll, List.foldlM_cons, hfirst, ok_bind]
    exact hadded

theorem Sound.of_mem_declarations (hs : documents.Sound tree) {declKind : DeclKind} {id : NodeId}
    (h : id ∈ documents.declarations declKind) :
    tree.InDocument id ∧ ∃ kind, tree.kind id = .ok kind ∧ kind.declKind? = some declKind := by
  obtain ⟨declaration, hmem, rfl⟩ := List.mem_map.mp h
  obtain ⟨hlisted, hdeclKind⟩ := List.mem_filter.mp hmem
  rw [← of_decide_eq_true hdeclKind]
  exact hs declaration hlisted

theorem Sound.hasSoundIndex (hs : documents.Sound tree) :
    Workspace.HasSoundIndex { tree, index := documents.index } := by
  refine Workspace.hasSoundIndex_of_declarations ?_
  intro kind id h
  rw [declarations_index] at h
  exact hs.of_mem_declarations h

end Documents

/-- A finished tree has a workspace with a sound index. -/
theorem Tree.IsFinished.exists_workspace {tree : Tree} (hf : tree.IsFinished) :
    ∃ index, tree.workspace = .ok { tree, index } ∧
      Workspace.HasSoundIndex { tree, index } := by
  obtain ⟨documents, hdocuments, hs⟩ :=
    Documents.exists_addAll hf (Documents.sound_empty tree) fun root hroot => hroot
  refine ⟨documents.index, ?_, hs.hasSoundIndex⟩
  rw [workspace, Documents.ofTree, hdocuments]
  rfl

end Dataflow
