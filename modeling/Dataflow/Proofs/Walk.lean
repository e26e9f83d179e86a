import Mathlib.Data.List.Nodup
import Mathlib.Logic.Relation
import Dataflow.Proofs.Forest
import Dataflow.Tree.Walk

/-!
# Dataflow.Proofs.Walk

The walks through a forest, upwards and downwards, come to their end.

* `Tree.Under` says that a node is another one or below it.  The nodes that a
  node is under form a chain (`IsForest.under_total`).
* `Tree.lineage` lists the nodes that a node is properly under, and goes on
  from a node as from its parent (`IsForest.lineage_of_parent`).
* `Tree.subtree` lists what is under a node, in the order of the recursive
  walk `Tree.preorder` (`IsForest.subtree_eq_preorder`), each node once.
-/

namespace Dataflow

namespace Tree

variable {tree : Tree}

/-! ## Being under a node -/

/-- Node `id` is `root` or stands somewhere below it. -/
def Under (tree : Tree) (id root : NodeId) : Prop :=
  Relation.ReflTransGen (fun child parent => tree.parent child = .ok (some parent)) id root

/-- Node `id` stands somewhere below `root`. -/
def Inside (tree : Tree) (id root : NodeId) : Prop :=
  ∃ parent, tree.parent id = .ok (some parent) ∧ tree.Under parent root

@[refl] theorem Under.refl (id : NodeId) : tree.Under id id := Relation.ReflTransGen.refl

@[trans] theorem Under.trans {a b c : NodeId} (hab : tree.Under a b) (hbc : tree.Under b c) :
    tree.Under a c := Relation.ReflTransGen.trans hab hbc

theorem Under.head {id parent root : NodeId} (hparent : tree.parent id = .ok (some parent))
    (h : tree.Under parent root) : tree.Under id root := Relation.ReflTransGen.head hparent h

theorem Under.tail {id child root : NodeId} (h : tree.Under id child)
    (hparent : tree.parent child = .ok (some root)) : tree.Under id root :=
  Relation.ReflTransGen.tail h hparent

theorem Inside.under {id root : NodeId} (h : tree.Inside id root) : tree.Under id root := by
  obtain ⟨parent, hparent, h⟩ := h
  exact h.head hparent

theorem under_iff_eq_or_inside {id root : NodeId} :
    tree.Under id root ↔ id = root ∨ tree.Inside id root :=
  Relation.ReflTransGen.cases_head_iff

/-- A longer bound keeps whatever a climb found within a shorter one. -/
theorem climb_succ {bound : Nat} {start : Option NodeId}
    {entries : List (NodeId × NodeKind)} (h : tree.climb bound start = .ok entries) :
    tree.climb (bound + 1) start = .ok entries := by
  induction bound generalizing start entries with
  | zero =>
    cases start with
    | none => exact h
    | some id => cases h
  | succ bound ih =>
    cases start with
    | none => exact h
    | some id =>
      rw [climb] at h ⊢
      obtain ⟨node, hnode, h⟩ := bind_eq_ok_iff.mp h
      obtain ⟨rest, hrest, h⟩ := bind_eq_ok_iff.mp h
      rw [hnode, ok_bind, ih hrest]
      exact h

namespace IsForest

variable (hf : tree.IsForest)
include hf

theorem under_of_child {id child root : NodeId} {kind : NodeKind} (h : tree.Under id root)
    (hkind : tree.kind id = .ok kind) (hmem : child ∈ kind.children) : tree.Under child root :=
  h.head (hf.parent_of_child hkind hmem)

theorem le_of_under {id root : NodeId} (h : tree.Under id root) : id ≤ root := by
  induction h with
  | refl => exact Nat.le_refl id
  | tail _ hparent ih => exact Nat.le_of_lt (Nat.lt_of_le_of_lt ih (hf.lt_parent hparent))

theorem lt_size_of_under {id root : NodeId} (h : tree.Under id root) (hroot : root < tree.size) :
    id < tree.size :=
  Nat.lt_of_le_of_lt (hf.le_of_under h) hroot

omit hf in
/-- Of two nodes that a node is under, one is under the other. -/
theorem under_total {id a b : NodeId} (ha : tree.Under id a) (hb : tree.Under id b) :
    tree.Under a b ∨ tree.Under b a := by
  refine Relation.ReflTransGen.total_of_right_unique ?_ ha hb
  intro child first second hfirst hsecond
  exact Option.some.inj (parent_inj hfirst hsecond)

/-- To show something of all nodes, show it of the roots and of every node
whose parent has it. -/
theorem upward_induction {motive : NodeId → Prop}
    (root : ∀ id, tree.parent id = .ok none → motive id)
    (child : ∀ id parent, tree.parent id = .ok (some parent) → motive parent → motive id)
    {id : NodeId} (h : id < tree.size) : motive id := by
  obtain ⟨parent, hparent⟩ := exists_parent_of_lt h
  cases parent with
  | none => exact root id hparent
  | some parent =>
    have hlt := hf.lt_parent hparent
    exact child id parent hparent (upward_induction root child (hf.parent_lt_size hparent))
termination_by tree.size - id
decreasing_by lia

/-! ## Upwards -/

/-- A climb has at most as many nodes before it as there are above its
start. -/
theorem exists_climb {id : NodeId} (h : id < tree.size) {bound : Nat}
    (hbound : tree.size ≤ bound + id) : ∃ entries, tree.climb bound (some id) = .ok entries := by
  induction bound generalizing id with
  | zero => lia
  | succ bound ih =>
    obtain ⟨node, hnode⟩ := exists_node_of_lt h
    have hparent : tree.parent id = .ok node.parent := parent_eq_ok_iff.mpr ⟨node, hnode, rfl⟩
    have hrest : ∃ rest, tree.climb bound node.parent = .ok rest := by
      cases hp : node.parent with
      | none => exact ⟨[], by cases bound <;> rfl⟩
      | some parent =>
        rw [hp] at hparent
        have hlt := hf.lt_parent hparent
        exact ih (hf.parent_lt_size hparent) (by lia)
    obtain ⟨rest, hrest⟩ := hrest
    refine ⟨(id, node.kind) :: rest, ?_⟩
    rw [climb, node_eq_ok_iff.mpr hnode, ok_bind, hrest]
    rfl

omit hf in
theorem lineage_of_root {id : NodeId} (h : tree.parent id = .ok none) :
    tree.lineage id = .ok [] := by
  unfold lineage
  rw [h]
  rfl

/-- The ancestors of a node are its parent and the ancestors of its parent. -/
theorem lineage_of_parent {id parent : NodeId} {kind : NodeKind}
    (hparent : tree.parent id = .ok (some parent)) (hkind : tree.kind parent = .ok kind) :
    tree.lineage id = ((parent, kind) :: ·) <$> tree.lineage parent := by
  obtain ⟨node, hnode, rfl⟩ := kind_eq_ok_iff.mp hkind
  have hgrand : tree.parent parent = .ok node.parent := parent_eq_ok_iff.mpr ⟨node, hnode, rfl⟩
  unfold lineage
  rw [hparent, hgrand, ok_bind, ok_bind, climb, node_eq_ok_iff.mpr hnode, ok_bind]
  obtain ⟨rest, hrest⟩ : ∃ rest, tree.climb tree.size node.parent = .ok rest := by
    cases hp : node.parent with
    | none => exact ⟨[], by cases tree.size <;> rfl⟩
    | some grand =>
      rw [hp] at hgrand
      exact hf.exists_climb (hf.parent_lt_size hgrand) (Nat.le_add_right _ _)
  rw [hrest, climb_succ hrest]
  rfl

theorem exists_lineage {id : NodeId} (h : id < tree.size) :
    ∃ entries, tree.lineage id = .ok entries := by
  refine hf.upward_induction (motive := fun id => ∃ entries, tree.lineage id = .ok entries) ?_ ?_ h
  · intro id hnone
    exact ⟨[], lineage_of_root hnone⟩
  · intro id parent hparent ih
    obtain ⟨entries, hentries⟩ := ih
    obtain ⟨kind, hkind⟩ := exists_kind_of_lt (hf.parent_lt_size hparent)
    exact ⟨(parent, kind) :: entries, by rw [hf.lineage_of_parent hparent hkind, hentries]; rfl⟩

/-- The ancestors of a node are the nodes that it stands below, with their
kinds. -/
theorem mem_lineage_iff {id : NodeId} {entries : List (NodeId × NodeKind)}
    (h : tree.lineage id = .ok entries) {ancestor : NodeId} {kind : NodeKind} :
    (ancestor, kind) ∈ entries ↔ tree.Inside id ancestor ∧ tree.kind ancestor = .ok kind := by
  have hlt : id < tree.size := by
    obtain ⟨parent, hparent, _⟩ := bind_eq_ok_iff.mp h
    exact lt_size_of_parent hparent
  refine hf.upward_induction (motive := fun id => ∀ entries, tree.lineage id = .ok entries →
    ((ancestor, kind) ∈ entries ↔ tree.Inside id ancestor ∧ tree.kind ancestor = .ok kind))
    ?_ ?_ hlt entries h
  · intro id hnone entries h
    rw [lineage_of_root hnone] at h
    cases h
    constructor
    · intro hmem
      cases hmem
    · intro ⟨⟨parent, hparent, _⟩, _⟩
      cases parent_inj hnone hparent
  · intro id parent hparent ih entries h
    obtain ⟨own, hown⟩ := exists_kind_of_lt (hf.parent_lt_size hparent)
    rw [hf.lineage_of_parent hparent hown] at h
    obtain ⟨rest, hrest, rfl⟩ := map_eq_ok_iff.mp h
    rw [List.mem_cons, ih rest hrest]
    constructor
    · intro hmem
      obtain heq | ⟨hinside, hkind⟩ := hmem
      · cases heq
        exact ⟨⟨ancestor, hparent, .refl ancestor⟩, hown⟩
      · exact ⟨⟨parent, hparent, hinside.under⟩, hkind⟩
    · intro ⟨⟨found, hfound, hunder⟩, hkind⟩
      cases parent_inj hparent hfound
      obtain rfl | hinside := under_iff_eq_or_inside.mp hunder
      · cases kind_inj hown hkind
        exact .inl rfl
      · exact .inr ⟨hinside, hkind⟩

theorem lt_size_of_above {id above : NodeId} (h : tree.Under id above) (hid : id < tree.size) :
    above < tree.size := by
  induction h with
  | refl => exact hid
  | tail _ hparent _ => exact hf.parent_lt_size hparent

/-- The ancestors of a node are the nodes that it stands below. -/
theorem mem_lineage_ids_iff {id ancestor : NodeId} {entries : List (NodeId × NodeKind)}
    (h : tree.lineage id = .ok entries) :
    ancestor ∈ entries.map (·.1) ↔ tree.Inside id ancestor := by
  rw [List.mem_map]
  constructor
  · rintro ⟨⟨found, kind⟩, hmem, rfl⟩
    exact ((hf.mem_lineage_iff h).mp hmem).1
  · intro hinside
    obtain ⟨parent, hparent, hunder⟩ := hinside
    have hlt := hf.lt_size_of_above hunder (hf.parent_lt_size hparent)
    obtain ⟨kind, hkind⟩ := exists_kind_of_lt hlt
    exact ⟨(ancestor, kind), (hf.mem_lineage_iff h).mpr ⟨⟨parent, hparent, hunder⟩, hkind⟩, rfl⟩

/-- Going up from a node the ids increase. -/
theorem pairwise_lineage {id : NodeId} (hid : id < tree.size)
    {entries : List (NodeId × NodeKind)} (h : tree.lineage id = .ok entries) :
    (id :: entries.map (·.1)).Pairwise (· < ·) := by
  refine hf.upward_induction (motive := fun id => ∀ entries, tree.lineage id = .ok entries →
    (id :: entries.map (·.1)).Pairwise (· < ·)) ?_ ?_ hid entries h
  · intro id hnone entries h
    rw [lineage_of_root hnone] at h
    cases h
    exact List.pairwise_singleton _ _
  · intro id parent hparent ih entries h
    obtain ⟨kind, hkind⟩ := exists_kind_of_lt (hf.parent_lt_size hparent)
    rw [hf.lineage_of_parent hparent hkind] at h
    obtain ⟨rest, hrest, rfl⟩ := map_eq_ok_iff.mp h
    have habove := ih rest hrest
    have hlt := hf.lt_parent hparent
    rw [List.map_cons, List.pairwise_cons]
    refine ⟨?_, habove⟩
    intro other hmem
    obtain rfl | hmem := List.mem_cons.mp hmem
    · exact hlt
    · exact Nat.lt_trans hlt (List.rel_of_pairwise_cons habove hmem)

/-! ## Ancestors of a sort -/

theorem exists_nearest {id : NodeId} (h : id < tree.size) (sort : NodeKind → Bool) :
    ∃ found, tree.nearest id sort = .ok found := by
  obtain ⟨entries, hentries⟩ := hf.exists_lineage h
  exact ⟨entries.find? (sort ·.2), by unfold nearest; rw [hentries]; rfl⟩

theorem exists_enclosing {id : NodeId} (h : id < tree.size) (sort : NodeKind → Bool) :
    ∃ entries, tree.enclosing id sort = .ok entries := by
  obtain ⟨entries, hentries⟩ := hf.exists_lineage h
  exact ⟨entries.filter (sort ·.2), by unfold enclosing; rw [hentries]; rfl⟩

theorem mem_enclosing_iff {id : NodeId} {sort : NodeKind → Bool}
    {entries : List (NodeId × NodeKind)} (h : tree.enclosing id sort = .ok entries)
    {ancestor : NodeId} {kind : NodeKind} :
    (ancestor, kind) ∈ entries ↔
      tree.Inside id ancestor ∧ tree.kind ancestor = .ok kind ∧ sort kind = true := by
  unfold enclosing at h
  obtain ⟨all, hall, h⟩ := bind_eq_ok_iff.mp h
  cases h
  rw [List.mem_filter, hf.mem_lineage_iff hall, and_assoc]

theorem of_nearest_eq_some {id ancestor : NodeId} {kind : NodeKind} {sort : NodeKind → Bool}
    (h : tree.nearest id sort = .ok (some (ancestor, kind))) :
    tree.Inside id ancestor ∧ tree.kind ancestor = .ok kind ∧ sort kind = true := by
  unfold nearest at h
  obtain ⟨all, hall, h⟩ := bind_eq_ok_iff.mp h
  have hfind := Except.ok.inj h
  have hmem := (hf.mem_lineage_iff hall).mp (List.mem_of_find?_eq_some hfind)
  have hsort := List.find?_some hfind
  exact ⟨hmem.1, hmem.2, hsort⟩

/-- No ancestor of a sort is found only where there is none. -/
theorem nearest_ne_none {id ancestor : NodeId} {kind : NodeKind} {sort : NodeKind → Bool}
    (hinside : tree.Inside id ancestor) (hkind : tree.kind ancestor = .ok kind)
    (hsort : sort kind = true) : tree.nearest id sort ≠ .ok none := by
  intro h
  unfold nearest at h
  obtain ⟨all, hall, h⟩ := bind_eq_ok_iff.mp h
  have hnone := List.find?_eq_none.mp (Except.ok.inj h)
  exact hnone (ancestor, kind) ((hf.mem_lineage_iff hall).mpr ⟨hinside, hkind⟩) hsort

end IsForest

/-! ## Downwards -/

/-- A node and everything below it: the node itself, and then what its
children hold, one child after the other. -/
def preorder (tree : Tree) (id : NodeId) : List (NodeId × NodeKind) :=
  match tree.nodes[id]? with
  | none => []
  | some node =>
    (id, node.kind) :: node.kind.children.flatMap fun child =>
      if child < id then tree.preorder child else []
termination_by id

namespace IsForest

variable (hf : tree.IsForest)
include hf

theorem preorder_eq {id : NodeId} {kind : NodeKind} (hkind : tree.kind id = .ok kind) :
    tree.preorder id = (id, kind) :: kind.children.flatMap tree.preorder := by
  obtain ⟨node, hnode, rfl⟩ := kind_eq_ok_iff.mp hkind
  rw [preorder, hnode]
  refine congrArg _ (List.flatMap_congr ?_)
  intro child hmem
  rw [if_pos (hf.child_lt hkind hmem)]

theorem mem_preorder_iff {root : NodeId} (hroot : root < tree.size) {id : NodeId}
    {kind : NodeKind} :
    (id, kind) ∈ tree.preorder root ↔ tree.Under id root ∧ tree.kind id = .ok kind := by
  induction root using Nat.strongRecOn with
  | ind root ih =>
    obtain ⟨own, hown⟩ := exists_kind_of_lt hroot
    rw [hf.preorder_eq hown, List.mem_cons, List.mem_flatMap]
    constructor
    · intro hmem
      obtain heq | ⟨child, hchild, hmem⟩ := hmem
      · cases heq
        exact ⟨.refl _, hown⟩
      · obtain ⟨hunder, hkind⟩ :=
          (ih child (hf.child_lt hown hchild) (hf.child_lt_size hown hchild)).mp hmem
        exact ⟨hunder.tail (hf.parent_of_child hown hchild), hkind⟩
    · intro ⟨hunder, hkind⟩
      obtain rfl | ⟨child, hunder, hparent⟩ := Relation.ReflTransGen.cases_tail hunder
      · cases kind_inj hown hkind
        exact .inl rfl
      · obtain ⟨found, hfound, hchild⟩ := hf.child_of_parent hparent
        cases kind_inj hown hfound
        exact .inr ⟨child, hchild,
          (ih child (hf.child_lt hown hchild) (hf.child_lt_size hown hchild)).mpr ⟨hunder, hkind⟩⟩

theorem under_of_mem_preorder {root : NodeId} (hroot : root < tree.size) {id : NodeId}
    (h : id ∈ (tree.preorder root).map (·.1)) : tree.Under id root := by
  obtain ⟨⟨found, kind⟩, hfound, rfl⟩ := List.mem_map.mp h
  exact ((hf.mem_preorder_iff hroot).mp hfound).1

/-- What stands under one child of a node stands under no other. -/
theorem child_eq_of_under {id parent first second : NodeId}
    (hfirst : tree.parent first = .ok (some parent))
    (hsecond : tree.parent second = .ok (some parent))
    (hunder : tree.Under id first) (hunder' : tree.Under id second) : first = second := by
  -- If one were properly under the other, so would be their parent.
  have hproper : ∀ {a b : NodeId}, tree.parent a = .ok (some parent) →
      tree.parent b = .ok (some parent) → tree.Under a b → a = b := by
    intro a b ha hb hab
    obtain heq | ⟨found, hfound, hab⟩ := under_iff_eq_or_inside.mp hab
    · exact heq
    · cases parent_inj ha hfound
      exact absurd (hf.lt_parent hb) (Nat.not_lt.mpr (hf.le_of_under hab))
  obtain h | h := under_total hunder hunder'
  · exact hproper hfirst hsecond h
  · exact (hproper hsecond hfirst h).symm

theorem nodup_preorder {root : NodeId} (hroot : root < tree.size) :
    ((tree.preorder root).map (·.1)).Nodup := by
  induction root using Nat.strongRecOn with
  | ind root ih =>
    obtain ⟨own, hown⟩ := exists_kind_of_lt hroot
    -- An id in the walk below a child is under that child.
    have hunder : ∀ {child id : NodeId}, child ∈ own.children →
        id ∈ (tree.preorder child).map (·.1) → tree.Under id child :=
      fun hchild hmem => hf.under_of_mem_preorder (hf.child_lt_size hown hchild) hmem
    rw [hf.preorder_eq hown, List.map_cons, List.map_flatMap, List.nodup_cons]
    refine ⟨?_, List.nodup_flatMap.mpr ⟨?_, ?_⟩⟩
    · intro hmem
      obtain ⟨child, hchild, hmem⟩ := List.mem_flatMap.mp hmem
      have hle := hf.le_of_under (hunder hchild hmem)
      exact absurd (hf.child_lt hown hchild) (Nat.not_lt.mpr hle)
    · intro child hchild
      exact ih child (hf.child_lt hown hchild) (hf.child_lt_size hown hchild)
    · refine (hf.nodup_children hown).imp_of_mem ?_
      intro first second hfirst hsecond hne id hmem hmem'
      exact hne (hf.child_eq_of_under (hf.parent_of_child hown hfirst)
        (hf.parent_of_child hown hsecond) (hunder hfirst hmem) (hunder hsecond hmem'))

theorem length_preorder_le {root : NodeId} (hroot : root < tree.size) :
    (tree.preorder root).length ≤ tree.size := by
  have hsubset : (tree.preorder root).map (·.1) ⊆ List.range tree.size := by
    intro id hmem
    obtain ⟨⟨found, kind⟩, hfound, rfl⟩ := List.mem_map.mp hmem
    exact List.mem_range.mpr (lt_size_of_kind ((hf.mem_preorder_iff hroot).mp hfound).2)
  have hle := (hf.nodup_preorder hroot).length_le_of_subset hsubset
  simpa using hle

/-- A walk over a stack that is allowed enough nodes visits what is under the
nodes of the stack, one after the other. -/
theorem visit_eq_flatMap_preorder {bound : Nat} {stack : List NodeId}
    (hstack : ∀ id ∈ stack, id < tree.size)
    (hbound : (stack.flatMap tree.preorder).length ≤ bound) :
    tree.visit bound stack = .ok (stack.flatMap tree.preorder) := by
  induction bound generalizing stack with
  | zero =>
    cases stack with
    | nil => rfl
    | cons id stack =>
      obtain ⟨kind, hkind⟩ := exists_kind_of_lt (hstack id List.mem_cons_self)
      simp [hf.preorder_eq hkind] at hbound
  | succ bound ih =>
    cases stack with
    | nil => rfl
    | cons id stack =>
      obtain ⟨kind, hkind⟩ := exists_kind_of_lt (hstack id List.mem_cons_self)
      have hwalk : (id :: stack).flatMap tree.preorder =
          (id, kind) :: (kind.children ++ stack).flatMap tree.preorder := by
        rw [List.flatMap_cons, hf.preorder_eq hkind, List.flatMap_append, List.cons_append]
      rw [hwalk, List.length_cons] at hbound
      have hstack' : ∀ other ∈ kind.children ++ stack, other < tree.size := by
        intro other hmem
        obtain hmem | hmem := List.mem_append.mp hmem
        · exact hf.child_lt_size hkind hmem
        · exact hstack other (List.mem_cons_of_mem id hmem)
      rw [visit, hkind, ok_bind, ih hstack' (Nat.le_of_succ_le_succ hbound), hwalk]
      rfl

/-- The walk by a stack is the recursive walk. -/
theorem subtree_eq_preorder {root : NodeId} (hroot : root < tree.size) :
    tree.subtree root = .ok (tree.preorder root) := by
  have hsingle : [root].flatMap tree.preorder = tree.preorder root := by simp
  have hlength := hf.length_preorder_le hroot
  unfold subtree
  rw [hf.visit_eq_flatMap_preorder, hsingle]
  · intro id hmem
    rw [List.mem_singleton.mp hmem]
    exact hroot
  · rw [hsingle]
    exact Nat.le_succ_of_le hlength

end IsForest

/-- A walk downwards begins at a node of the tree. -/
theorem lt_size_of_subtree {tree : Tree} {root : NodeId} {entries : List (NodeId × NodeKind)}
    (h : tree.subtree root = .ok entries) : root < tree.size := by
  rw [subtree, visit] at h
  obtain ⟨kind, hkind, _⟩ := bind_eq_ok_iff.mp h
  exact lt_size_of_kind hkind

end Tree

end Dataflow
