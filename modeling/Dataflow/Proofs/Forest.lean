import Dataflow.Proofs.Result
import Dataflow.Tree.Builder

/-!
# Dataflow.Proofs.Forest

The nodes of a tree that was built form a forest: a node is a child of
another exactly if that other is its parent, a parent has a greater id than
its children, and no node is listed twice among the children of another
(`Tree.IsForest`).  Every step of a construction keeps this up
(`Builder.isForest_step`), so it holds of everything that was built; in a
finished tree the documents are roots besides (`Tree.IsFinished`).
-/

namespace Dataflow

namespace Tree

variable {tree : Tree} {id : NodeId}

/-! ## Looking at a node -/

theorem kind_eq_ok_iff {kind : NodeKind} :
    tree.kind id = .ok kind ↔ ∃ node, tree.nodes[id]? = some node ∧ node.kind = kind := by
  unfold Tree.kind
  rw [bind_eq_ok_iff]
  simp [node_eq_ok_iff]

theorem parent_eq_ok_iff {parent : Option NodeId} :
    tree.parent id = .ok parent ↔ ∃ node, tree.nodes[id]? = some node ∧ node.parent = parent := by
  unfold Tree.parent
  rw [bind_eq_ok_iff]
  simp [node_eq_ok_iff]

theorem span_eq_ok_iff {span : Span} :
    tree.span id = .ok span ↔ ∃ node, tree.nodes[id]? = some node ∧ node.span = span := by
  unfold Tree.span
  rw [bind_eq_ok_iff]
  simp [node_eq_ok_iff]

theorem exists_node_of_lt (h : id < tree.size) : ∃ node, tree.nodes[id]? = some node :=
  ⟨tree.nodes[id], Array.getElem?_eq_getElem h⟩

theorem lt_size_of_node {node : Node} (h : tree.nodes[id]? = some node) : id < tree.size :=
  (Array.getElem?_eq_some_iff.mp h).1

theorem exists_kind_of_lt (h : id < tree.size) : ∃ kind, tree.kind id = .ok kind := by
  obtain ⟨node, hnode⟩ := exists_node_of_lt h
  exact ⟨node.kind, kind_eq_ok_iff.mpr ⟨node, hnode, rfl⟩⟩

theorem exists_parent_of_lt (h : id < tree.size) : ∃ parent, tree.parent id = .ok parent := by
  obtain ⟨node, hnode⟩ := exists_node_of_lt h
  exact ⟨node.parent, parent_eq_ok_iff.mpr ⟨node, hnode, rfl⟩⟩

theorem exists_span_of_lt (h : id < tree.size) : ∃ span, tree.span id = .ok span := by
  obtain ⟨node, hnode⟩ := exists_node_of_lt h
  exact ⟨node.span, span_eq_ok_iff.mpr ⟨node, hnode, rfl⟩⟩

theorem lt_size_of_kind {kind : NodeKind} (h : tree.kind id = .ok kind) : id < tree.size := by
  obtain ⟨node, hnode, _⟩ := kind_eq_ok_iff.mp h
  exact lt_size_of_node hnode

theorem lt_size_of_parent {parent : Option NodeId} (h : tree.parent id = .ok parent) :
    id < tree.size := by
  obtain ⟨node, hnode, _⟩ := parent_eq_ok_iff.mp h
  exact lt_size_of_node hnode

theorem kind_inj {kind kind' : NodeKind} (h : tree.kind id = .ok kind)
    (h' : tree.kind id = .ok kind') : kind = kind' := by
  rw [h] at h'
  exact Except.ok.inj h'

theorem parent_inj {parent parent' : Option NodeId} (h : tree.parent id = .ok parent)
    (h' : tree.parent id = .ok parent') : parent = parent' := by
  rw [h] at h'
  exact Except.ok.inj h'

/-! ## Forests -/

/-- Children and parents agree, and parents come after their children. -/
structure IsForest (tree : Tree) : Prop where
  parent_of_child {parent child : NodeId} {kind : NodeKind} :
    tree.kind parent = .ok kind → child ∈ kind.children → tree.parent child = .ok (some parent)
  child_of_parent {parent child : NodeId} :
    tree.parent child = .ok (some parent) →
      ∃ kind, tree.kind parent = .ok kind ∧ child ∈ kind.children
  child_lt {parent child : NodeId} {kind : NodeKind} :
    tree.kind parent = .ok kind → child ∈ kind.children → child < parent
  nodup_children {id : NodeId} {kind : NodeKind} : tree.kind id = .ok kind → kind.children.Nodup
  nodup_files : tree.files.Nodup
  kind_of_file {root : NodeId} : root ∈ tree.files →
    ∃ declarations, tree.kind root = .ok (.file declarations)

/-- A forest in which no document is part of another. -/
structure IsFinished (tree : Tree) : Prop extends tree.IsForest where
  parent_of_file {root : NodeId} : root ∈ tree.files → tree.parent root = .ok none

theorem IsForest.lt_parent (hf : tree.IsForest) {parent : NodeId}
    (h : tree.parent id = .ok (some parent)) : id < parent := by
  obtain ⟨kind, hkind, hmem⟩ := hf.child_of_parent h
  exact hf.child_lt hkind hmem

theorem IsForest.parent_lt_size (hf : tree.IsForest) {parent : NodeId}
    (h : tree.parent id = .ok (some parent)) : parent < tree.size := by
  obtain ⟨kind, hkind, _⟩ := hf.child_of_parent h
  exact lt_size_of_kind hkind

theorem IsForest.child_lt_size (hf : tree.IsForest) {child : NodeId} {kind : NodeKind}
    (hkind : tree.kind id = .ok kind) (hmem : child ∈ kind.children) : child < tree.size :=
  Nat.lt_trans (hf.child_lt hkind hmem) (lt_size_of_kind hkind)

/-- Whether a tree is a forest hangs on kinds, parents and documents only. -/
theorem IsForest.congr {tree' : Tree} (hf : tree.IsForest)
    (hkind : ∀ {id kind}, tree'.kind id = .ok kind ↔ tree.kind id = .ok kind)
    (hparent : ∀ {id parent}, tree'.parent id = .ok parent ↔ tree.parent id = .ok parent)
    (hfiles : tree'.files = tree.files) : tree'.IsForest where
  parent_of_child := by
    intro parent child kind h hmem
    exact hparent.mpr (hf.parent_of_child (hkind.mp h) hmem)
  child_of_parent := by
    intro parent child h
    obtain ⟨kind, h, hmem⟩ := hf.child_of_parent (hparent.mp h)
    exact ⟨kind, hkind.mpr h, hmem⟩
  child_lt := by
    intro parent child kind h hmem
    exact hf.child_lt (hkind.mp h) hmem
  nodup_children := by
    intro id kind h
    exact hf.nodup_children (hkind.mp h)
  nodup_files := by
    rw [hfiles]
    exact hf.nodup_files
  kind_of_file := by
    intro root h
    rw [hfiles] at h
    obtain ⟨declarations, h⟩ := hf.kind_of_file h
    exact ⟨declarations, hkind.mpr h⟩

end Tree

namespace Builder

open Dataflow.Tree

/-! ## Making a node -/

theorem adopt_eq_ok {parent child : NodeId} {nodes nodes' : Array Node}
    (h : adopt parent nodes child = .ok nodes') :
    ∃ node, nodes[child]? = some node ∧ node.parent = none ∧
      nodes.setIfInBounds child { node with parent := some parent } = nodes' := by
  unfold adopt at h
  split at h
  · cases h
  · rename_i node hnode
    split at h
    · cases h
    · rename_i hnone
      exact ⟨node, hnode, by simpa using hnone, Except.ok.inj h⟩

/-- To adopt some nodes in order, they have to be distinct nodes without a
parent; nothing but their parents changes. -/
theorem foldlM_adopt_eq_ok {parent : NodeId} {children : List NodeId} {nodes nodes' : Array Node}
    (h : children.foldlM (adopt parent) nodes = .ok nodes') :
    children.Nodup ∧ (∀ child ∈ children, ∃ node, nodes[child]? = some node ∧ node.parent = none) ∧
      ∀ id, nodes'[id]? =
        if id ∈ children then nodes[id]?.map ({ · with parent := some parent })
        else nodes[id]? := by
  induction children generalizing nodes with
  | nil =>
    cases h
    simp
  | cons child children ih =>
    rw [List.foldlM_cons, bind_eq_ok_iff] at h
    obtain ⟨between, hfirst, hrest⟩ := h
    obtain ⟨hnodup, hfree, hnodes'⟩ := ih hrest
    obtain ⟨node, hnode, hparent, rfl⟩ := adopt_eq_ok hfirst
    have hlt : child < nodes.size := (Array.getElem?_eq_some_iff.mp hnode).1
    -- The first child has a parent by now, so it cannot come up again.
    have hnotMem : child ∉ children := by
      intro hmem
      obtain ⟨again, hagain, hnone⟩ := hfree child hmem
      rw [Array.getElem?_setIfInBounds_self_of_lt hlt] at hagain
      cases hagain
      cases hnone
    refine ⟨List.nodup_cons.mpr ⟨hnotMem, hnodup⟩, ?_, ?_⟩
    · intro other hmem
      obtain rfl | hmem := List.mem_cons.mp hmem
      · exact ⟨node, hnode, hparent⟩
      · have hne : child ≠ other := fun he => hnotMem (he ▸ hmem)
        obtain ⟨found, hfound, hnone⟩ := hfree other hmem
        rw [Array.getElem?_setIfInBounds_ne hne] at hfound
        exact ⟨found, hfound, hnone⟩
    · intro id
      rw [hnodes' id]
      by_cases hid : child = id
      · subst hid
        rw [if_neg hnotMem, if_pos List.mem_cons_self, hnode,
          Array.getElem?_setIfInBounds_self_of_lt hlt]
        rfl
      · rw [Array.getElem?_setIfInBounds_ne hid]
        simp [Ne.symm hid]

/-- The children of a new node exist. -/
theorem lt_size_of_coveringSpan {builder : Builder} {children : List NodeId} {span : Span}
    (h : builder.coveringSpan children = .ok span) : ∀ child ∈ children, child < builder.size := by
  intro child hmem
  unfold coveringSpan at h
  obtain ⟨spans, hspans, _⟩ := bind_eq_ok_iff.mp h
  obtain ⟨found, _, hfound⟩ := exists_of_mem_of_mapM hspans hmem
  obtain ⟨node, hnode, _⟩ := span_eq_ok_iff.mp hfound
  exact lt_size_of_node hnode

/-- A new node takes the place of none that exists. -/
theorem getElem?_push_of_lt {builder : Builder} {id : NodeId} (h : id < builder.size)
    {added : Node} : (builder.nodes.push added)[id]? = builder.nodes[id]? := by
  have hne : id ≠ builder.nodes.size := Nat.ne_of_lt h
  rw [Array.getElem?_push, if_neg hne]

/-- What making a node does: its children exist and had no parent; they get
the new node as their parent, which comes last and has none. -/
theorem add_eq_ok {builder builder' : Builder} {kind : NodeKind} {children : List NodeId}
    (h : builder.add kind children = .ok builder') :
    (∀ child ∈ children, child < builder.size) ∧ children.Nodup ∧
      (∀ child ∈ children, builder.parent child = .ok none) ∧
      (∃ span, builder'.nodes[builder.size]? = some { kind, span }) ∧
      (∀ id, id < builder.size → builder'.nodes[id]? =
        if id ∈ children then
          builder.nodes[id]?.map ({ · with parent := some builder.size })
        else builder.nodes[id]?) ∧
      builder'.files = if kind.isFile then builder.files ++ [builder.size] else builder.files := by
  unfold add at h
  obtain ⟨span, hspan, h⟩ := bind_eq_ok_iff.mp h
  obtain ⟨nodes, hnodes, h⟩ := bind_eq_ok_iff.mp h
  cases h
  have hlt := lt_size_of_coveringSpan hspan
  obtain ⟨hnodup, hfree, hnodes⟩ := foldlM_adopt_eq_ok hnodes
  refine ⟨hlt, hnodup, ?_, ⟨span, ?_⟩, ?_, rfl⟩
  · intro child hmem
    obtain ⟨node, hnode, hparent⟩ := hfree child hmem
    rw [getElem?_push_of_lt (hlt child hmem)] at hnode
    exact parent_eq_ok_iff.mpr ⟨node, hnode, hparent⟩
  · have hnotMem : builder.size ∉ children := fun hmem => Nat.lt_irrefl _ (hlt _ hmem)
    rw [hnodes, if_neg hnotMem]
    simp [Tree.size]
  · intro id hid
    rw [hnodes, getElem?_push_of_lt hid]

variable {builder builder' : Builder} {kind : NodeKind} {children : List NodeId}

theorem kind_add_iff (h : builder.add kind children = .ok builder') {id : NodeId}
    {found : NodeKind} :
    builder'.kind id = .ok found ↔
      builder.kind id = .ok found ∨ id = builder.size ∧ found = kind := by
  obtain ⟨_, _, _, ⟨span, hnew⟩, hold, _⟩ := add_eq_ok h
  have hsize := size_add h
  rw [kind_eq_ok_iff, kind_eq_ok_iff]
  constructor
  · intro hfound
    obtain ⟨node, hnode, hkind⟩ := hfound
    have hid := lt_size_of_node hnode
    by_cases hlt : id < builder.size
    · left
      rw [hold id hlt] at hnode
      split at hnode
      · obtain ⟨before, hbefore, rfl⟩ := Option.map_eq_some_iff.mp hnode
        exact ⟨before, hbefore, hkind⟩
      · exact ⟨node, hnode, hkind⟩
    · right
      have hid : id = builder.size := by lia
      subst hid
      rw [hnew] at hnode
      cases hnode
      exact ⟨rfl, hkind.symm⟩
  · intro hfound
    obtain ⟨node, hnode, hkind⟩ | ⟨rfl, rfl⟩ := hfound
    · rw [hold id (lt_size_of_node hnode), hnode]
      split
      · exact ⟨_, rfl, hkind⟩
      · exact ⟨node, rfl, hkind⟩
    · exact ⟨_, hnew, rfl⟩

theorem parent_add_iff (h : builder.add kind children = .ok builder') {id : NodeId}
    {found : Option NodeId} :
    builder'.parent id = .ok found ↔
      id ∈ children ∧ found = some builder.size ∨
      id ∉ children ∧ builder.parent id = .ok found ∨ id = builder.size ∧ found = none := by
  obtain ⟨hlt, _, _, ⟨span, hnew⟩, hold, _⟩ := add_eq_ok h
  have hsize := size_add h
  rw [parent_eq_ok_iff, parent_eq_ok_iff]
  constructor
  · intro hfound
    obtain ⟨node, hnode, hparent⟩ := hfound
    have hid := lt_size_of_node hnode
    by_cases hid' : id < builder.size
    · rw [hold id hid'] at hnode
      split at hnode
      · rename_i hmem
        obtain ⟨before, _, rfl⟩ := Option.map_eq_some_iff.mp hnode
        exact .inl ⟨hmem, hparent.symm⟩
      · rename_i hmem
        exact .inr (.inl ⟨hmem, node, hnode, hparent⟩)
    · have hid : id = builder.size := by lia
      subst hid
      rw [hnew] at hnode
      cases hnode
      exact .inr (.inr ⟨rfl, hparent.symm⟩)
  · intro hfound
    obtain ⟨hmem, rfl⟩ | ⟨hmem, node, hnode, hparent⟩ | ⟨rfl, rfl⟩ := hfound
    · obtain ⟨node, hnode⟩ := exists_node_of_lt (hlt id hmem)
      rw [hold id (hlt id hmem), if_pos hmem, hnode]
      exact ⟨_, rfl, rfl⟩
    · rw [hold id (lt_size_of_node hnode), if_neg hmem]
      exact ⟨node, hnode, hparent⟩
    · exact ⟨_, hnew, rfl⟩

theorem make_eq_add (builder : Builder) (kind : NodeKind) :
    builder.make kind = builder.add kind kind.children := by
  rw [make, kind.flatten_handed]

/-- Making a node leaves a forest a forest, because the node adopts the
children that its kind has. -/
theorem isForest_make (hf : builder.IsForest) (h : builder.make kind = .ok builder') :
    builder'.IsForest := by
  rw [make_eq_add] at h
  obtain ⟨hlt, hnodup, hfree, _, _, hfiles⟩ := add_eq_ok h
  have hnew : builder'.kind builder.size = .ok kind := (kind_add_iff h).mpr (.inr ⟨rfl, rfl⟩)
  refine ⟨?_, ?_, ?_, ?_, ?_, ?_⟩
  · intro parent child found hkind hmem
    rw [parent_add_iff h]
    obtain hkind | ⟨rfl, rfl⟩ := (kind_add_iff h).mp hkind
    · -- A child of an old node has a parent, so the new node did not adopt it.
      have hparent := hf.parent_of_child hkind hmem
      refine .inr (.inl ⟨?_, hparent⟩)
      intro hmem'
      cases parent_inj hparent (hfree child hmem')
    · exact .inl ⟨hmem, rfl⟩
  · intro parent child hparent
    obtain ⟨hmem, hp⟩ | ⟨_, hp⟩ | ⟨_, hp⟩ := (parent_add_iff h).mp hparent
    · cases hp
      exact ⟨kind, hnew, hmem⟩
    · obtain ⟨found, hkind, hmem⟩ := hf.child_of_parent hp
      exact ⟨found, (kind_add_iff h).mpr (.inl hkind), hmem⟩
    · cases hp
  · intro parent child found hkind hmem
    obtain hkind | ⟨rfl, rfl⟩ := (kind_add_iff h).mp hkind
    · exact hf.child_lt hkind hmem
    · exact hlt child hmem
  · intro id found hkind
    obtain hkind | ⟨rfl, rfl⟩ := (kind_add_iff h).mp hkind
    · exact hf.nodup_children hkind
    · exact hnodup
  · rw [hfiles]
    split
    · refine List.nodup_append.mpr ⟨hf.nodup_files, List.pairwise_singleton _ _, ?_⟩
      intro root hroot other hother
      obtain ⟨declarations, hkind⟩ := hf.kind_of_file hroot
      rw [List.mem_singleton.mp hother]
      exact Nat.ne_of_lt (lt_size_of_kind hkind)
    · exact hf.nodup_files
  · intro root hroot
    have hold : root ∈ builder.files →
        ∃ declarations, builder'.kind root = .ok (.file declarations) := by
      intro hmem
      obtain ⟨declarations, hkind⟩ := hf.kind_of_file hmem
      exact ⟨declarations, (kind_add_iff h).mpr (.inl hkind)⟩
    rw [hfiles] at hroot
    split at hroot
    · rename_i hfile
      obtain hroot | hroot := List.mem_append.mp hroot
      · exact hold hroot
      · rw [List.mem_singleton.mp hroot, hnew]
        cases kind <;> simp_all [NodeKind.isFile]
    · exact hold hroot

/-! ## Whole constructions -/

/-- Changing a span changes nothing but the span. -/
theorem setSpan_eq_ok {id : NodeId} {span : Span} (h : builder.setSpan id span = .ok builder') :
    builder'.files = builder.files ∧ ∀ other, builder'.nodes[other]? =
      builder.nodes[other]?.map fun node => if other = id then { node with span } else node := by
  unfold setSpan at h
  obtain ⟨node, hnode, h⟩ := bind_eq_ok_iff.mp h
  cases h
  rw [node_eq_ok_iff] at hnode
  have hlt : id < builder.nodes.size := lt_size_of_node hnode
  refine ⟨rfl, ?_⟩
  intro other
  by_cases hid : other = id
  · subst hid
    simp [Array.getElem?_setIfInBounds_self_of_lt hlt, hnode]
  · simp [Array.getElem?_setIfInBounds_ne (Ne.symm hid), hid]

theorem kind_setSpan_iff {id other : NodeId} {span : Span} {found : NodeKind}
    (h : builder.setSpan id span = .ok builder') :
    builder'.kind other = .ok found ↔ builder.kind other = .ok found := by
  rw [kind_eq_ok_iff, kind_eq_ok_iff, (setSpan_eq_ok h).2 other]
  cases builder.nodes[other]? with
  | none => simp
  | some node => by_cases hid : other = id <;> simp [hid]

theorem parent_setSpan_iff {id other : NodeId} {span : Span} {found : Option NodeId}
    (h : builder.setSpan id span = .ok builder') :
    builder'.parent other = .ok found ↔ builder.parent other = .ok found := by
  rw [parent_eq_ok_iff, parent_eq_ok_iff, (setSpan_eq_ok h).2 other]
  cases builder.nodes[other]? with
  | none => simp
  | some node => by_cases hid : other = id <;> simp [hid]

theorem isForest_setSpan {id : NodeId} {span : Span} (hf : builder.IsForest)
    (h : builder.setSpan id span = .ok builder') : builder'.IsForest :=
  hf.congr (kind_setSpan_iff h) (parent_setSpan_iff h) (setSpan_eq_ok h).1

/-- Every step of a construction leaves a forest a forest. -/
theorem isForest_step {step : BuildStep} (hf : builder.IsForest)
    (h : builder.step step = .ok builder') : builder'.IsForest := by
  cases step with
  | node kind => exact isForest_make hf h
  | switchSource source =>
    cases h
    exact hf
  | setSpan id span => exact isForest_setSpan hf h

theorem isForest_new (source : SourceId) : (new source).IsForest := by
  have hnone : ∀ id kind, (new source).kind id ≠ .ok kind := by
    intro id kind hkind
    exact absurd (lt_size_of_kind hkind) (Nat.not_lt_zero id)
  refine ⟨?_, ?_, ?_, ?_, List.nodup_nil, ?_⟩
  · intro parent child kind hkind
    exact absurd hkind (hnone _ _)
  · intro parent child hparent
    exact absurd (lt_size_of_parent hparent) (Nat.not_lt_zero child)
  · intro parent child kind hkind
    exact absurd hkind (hnone _ _)
  · intro id kind hkind
    exact absurd hkind (hnone _ _)
  · intro root hroot
    cases hroot

/-- What every step of a construction keeps, the whole construction keeps. -/
theorem run_invariant {P : Builder → Prop} {steps : List BuildStep}
    (hstep : ∀ {builder builder' : Builder} {step : BuildStep}, P builder →
      builder.step step = .ok builder' → P builder')
    (hstart : P builder) (h : builder.run steps = .ok builder') : P builder' := by
  unfold run at h
  induction steps generalizing builder with
  | nil =>
    cases h
    exact hstart
  | cons step steps ih =>
    rw [List.foldlM_cons] at h
    obtain ⟨between, hfirst, hrest⟩ := bind_eq_ok_iff.mp h
    exact ih (hstep hstart hfirst) hrest

theorem isForest_run {source : SourceId} {steps : List BuildStep}
    (h : (new source).run steps = .ok builder) : builder.IsForest :=
  run_invariant (P := fun builder => builder.IsForest) isForest_step (isForest_new source) h

/-- A forest that is finished stays what it is, and its documents are roots. -/
theorem finish_eq_ok {tree : Tree} (hf : builder.IsForest) (h : builder.finish = .ok tree) :
    tree = builder.toTree ∧ tree.IsFinished := by
  unfold finish at h
  obtain ⟨parents, hparents, h⟩ := bind_eq_ok_iff.mp h
  split at h
  · rename_i hall
    cases h
    refine ⟨rfl, hf, ?_⟩
    intro root hroot
    obtain ⟨parent, hmem, hparent⟩ := exists_of_mem_of_mapM hparents hroot
    have hnone := List.all_eq_true.mp hall parent hmem
    rw [Option.isNone_iff_eq_none] at hnone
    rw [hparent, hnone]
  · cases h

end Builder

/-- Every tree that was built is a forest of documents and of nodes outside
of them. -/
theorem Tree.isFinished_of_build {source : SourceId} {steps : List BuildStep} {tree : Tree}
    (h : Tree.build source steps = .ok tree) : tree.IsFinished := by
  unfold Tree.build at h
  obtain ⟨builder, hrun, hfinish⟩ := bind_eq_ok_iff.mp h
  exact (Builder.finish_eq_ok (Builder.isForest_run hrun) hfinish).2

end Dataflow
