import Mathlib.Data.List.Sort
import Dataflow.Proofs.Walk
import Dataflow.Scope.Visible

/-!
# Dataflow.Proofs.Enclosing

The nodes of a sort around a node.  `Tree.Surrounds` says that a list holds
them, each inside of the next.  Behind each of them the list goes on as the
list around that node (`IsForest.surrounds_behind`).  So the list around a node
ends in the list around every other node that is inside of no more
(`IsForest.surrounds_suffix`).

A scope that takes some declarations from each of these nodes keeps their
order: a name means what the innermost node gives that has it
(`Scope.lookup_flatMap_eq_some_iff`).
-/

namespace Dataflow

namespace Tree

variable {tree : Tree} {sort : NodeKind → Bool} {id : NodeId} {owners : List NodeId}

theorem Inside.trans {a b c : NodeId} (hab : tree.Inside a b) (hbc : tree.Inside b c) :
    tree.Inside a c := by
  obtain ⟨parent, hparent, hunder⟩ := hab
  exact ⟨parent, hparent, hunder.trans hbc.under⟩

theorem IsForest.lt_of_inside (hf : tree.IsForest) {a b : NodeId} (h : tree.Inside a b) :
    a < b := by
  obtain ⟨parent, hparent, hunder⟩ := h
  exact Nat.lt_of_lt_of_le (hf.lt_parent hparent) (hf.le_of_under hunder)

/-! ## The nodes of a sort around a node -/

/-- A node of the tree whose kind is of a sort. -/
def HasSort (tree : Tree) (sort : NodeKind → Bool) (id : NodeId) : Prop :=
  ∃ kind, tree.kind id = .ok kind ∧ sort kind = true

theorem hasSort_iff {kind : NodeKind} (hkind : tree.kind id = .ok kind) :
    tree.HasSort sort id ↔ sort kind = true := by
  simp [HasSort, hkind]

/-- The nodes of a sort that a node is inside of, innermost first. -/
structure Surrounds (tree : Tree) (sort : NodeKind → Bool) (id : NodeId)
    (owners : List NodeId) : Prop where
  mem_iff {owner : NodeId} : owner ∈ owners ↔ tree.Inside id owner ∧ tree.HasSort sort owner
  pairwise : owners.Pairwise tree.Inside

namespace IsForest

variable (hf : tree.IsForest)
include hf

/-- The search upwards finds the nodes of a sort around a node. -/
theorem surrounds_of_enclosing {entries : List (NodeId × NodeKind)}
    (h : tree.enclosing id sort = .ok entries) :
    tree.Surrounds sort id (entries.map (·.1)) := by
  have hmem : ∀ {owner}, owner ∈ entries.map (·.1) ↔
      tree.Inside id owner ∧ tree.HasSort sort owner := by
    intro owner
    rw [List.mem_map]
    constructor
    · rintro ⟨⟨found, kind⟩, hfound, rfl⟩
      obtain ⟨hinside, hkind, hsort⟩ := (hf.mem_enclosing_iff h).mp hfound
      exact ⟨hinside, kind, hkind, hsort⟩
    · rintro ⟨hinside, kind, hkind, hsort⟩
      exact ⟨(owner, kind), (hf.mem_enclosing_iff h).mpr ⟨hinside, hkind, hsort⟩, rfl⟩
  refine ⟨hmem, ?_⟩
  obtain ⟨all, hall, h⟩ := bind_eq_ok_iff.mp h
  obtain ⟨parent, hparent, _⟩ := bind_eq_ok_iff.mp hall
  have hincreasing := (hf.pairwise_lineage (lt_size_of_parent hparent) hall).of_cons
  cases h
  -- Of two nodes around one node, that with the lesser id is inside the other.
  refine (hincreasing.sublist (List.filter_sublist.map _)).imp_of_mem ?_
  intro a b ha hb hlt
  obtain hab | hba := under_total (hmem.mp ha).1.under (hmem.mp hb).1.under
  · obtain rfl | hinside := under_iff_eq_or_inside.mp hab
    · exact absurd hlt (Nat.lt_irrefl a)
    · exact hinside
  · exact absurd hlt (Nat.not_lt.mpr (hf.le_of_under hba))

theorem nodup_of_surrounds (h : tree.Surrounds sort id owners) : owners.Nodup :=
  h.pairwise.imp fun hinside => Nat.ne_of_lt (hf.lt_of_inside hinside)

/-- There is only one list of the nodes of a sort around a node. -/
theorem surrounds_unique {owners' : List NodeId} (h : tree.Surrounds sort id owners)
    (h' : tree.Surrounds sort id owners') : owners = owners' := by
  have hlt : owners.Pairwise (· < ·) := h.pairwise.imp hf.lt_of_inside
  have hlt' : owners'.Pairwise (· < ·) := h'.pairwise.imp hf.lt_of_inside
  refine hlt.eq_of_mem_iff hlt' ?_
  intro owner
  rw [h.mem_iff, h'.mem_iff]

/-- Behind one of the nodes around a node stand the nodes around that one. -/
theorem surrounds_behind {nearer farther : List NodeId} {owner : NodeId}
    (h : tree.Surrounds sort id (nearer ++ owner :: farther)) :
    tree.Surrounds sort owner farther := by
  obtain ⟨_, hfarther, hnearer⟩ := List.pairwise_append.mp h.pairwise
  obtain ⟨hbehind, hfarther⟩ := List.pairwise_cons.mp hfarther
  refine ⟨?_, hfarther⟩
  intro other
  constructor
  · intro hmem
    exact ⟨hbehind other hmem, (h.mem_iff.mp (by simp [hmem])).2⟩
  · rintro ⟨hinside, hsort⟩
    have howner := (h.mem_iff.mp (List.mem_append_right nearer List.mem_cons_self)).1
    have hlt := hf.lt_of_inside hinside
    obtain hmem | hmem := List.mem_append.mp (h.mem_iff.mpr ⟨howner.trans hinside, hsort⟩)
    · exact absurd (hf.lt_of_inside (hnearer other hmem owner List.mem_cons_self)) (by lia)
    · obtain rfl | hmem := List.mem_cons.mp hmem
      · exact absurd hlt (Nat.lt_irrefl other)
      · exact hmem

theorem surrounds_tail {owner : NodeId} {rest : List NodeId}
    (h : tree.Surrounds sort id (owner :: rest)) : tree.Surrounds sort owner rest := by
  rw [← List.nil_append (owner :: rest)] at h
  exact hf.surrounds_behind h

/-- Before one of the nodes around a node stand those that are inside of it. -/
theorem mem_nearer_iff {nearer farther : List NodeId} {owner other : NodeId}
    (h : tree.Surrounds sort id (nearer ++ owner :: farther)) :
    other ∈ nearer ↔
      tree.Inside id other ∧ tree.HasSort sort other ∧ tree.Inside other owner := by
  obtain ⟨_, hfarther, hnearer⟩ := List.pairwise_append.mp h.pairwise
  constructor
  · intro hmem
    obtain ⟨hinside, hsort⟩ := h.mem_iff.mp (List.mem_append_left _ hmem)
    exact ⟨hinside, hsort, hnearer other hmem owner List.mem_cons_self⟩
  · rintro ⟨hinside, hsort, hbefore⟩
    have hlt := hf.lt_of_inside hbefore
    obtain hmem | hmem := List.mem_append.mp (h.mem_iff.mpr ⟨hinside, hsort⟩)
    · exact hmem
    · obtain rfl | hmem := List.mem_cons.mp hmem
      · exact absurd hlt (Nat.lt_irrefl other)
      · exact absurd (hf.lt_of_inside (List.rel_of_pairwise_cons hfarther hmem)) (by lia)

/-- If all nodes of a sort around one node are around another one, then they
are the outermost ones there. -/
theorem surrounds_suffix {other : NodeId} {inner outer : List NodeId}
    (hinner : tree.Surrounds sort id inner) (houter : tree.Surrounds sort other outer)
    (h : ∀ owner, tree.Inside other owner → tree.HasSort sort owner → tree.Inside id owner) :
    outer <:+ inner := by
  cases outer with
  | nil => exact List.nil_suffix
  | cons owner rest =>
    obtain ⟨hinside, hsort⟩ := houter.mem_iff.mp List.mem_cons_self
    obtain ⟨nearer, farther, rfl⟩ :=
      List.append_of_mem (hinner.mem_iff.mpr ⟨h owner hinside hsort, hsort⟩)
    rw [hf.surrounds_unique (hf.surrounds_tail houter) (hf.surrounds_behind hinner)]
    exact ⟨nearer, rfl⟩

end IsForest

end Tree

/-! ## Scopes along such a list -/

/-- A name means what the first part of a scope gives that has it. -/
theorem Scope.lookup_flatMap_eq_some_iff {α : Type} {xs : List α} {f : α → Scope} {name : String}
    {target : NodeId} :
    Scope.lookup (xs.flatMap f) name = some target ↔
      ∃ nearer x farther, xs = nearer ++ x :: farther ∧
        (∀ y ∈ nearer, Scope.lookup (f y) name = none) ∧
          Scope.lookup (f x) name = some target := by
  induction xs with
  | nil => simp
  | cons x xs ih =>
    rw [List.flatMap_cons, Scope.lookup_append]
    constructor
    · intro h
      cases hx : Scope.lookup (f x) name with
      | some found =>
        rw [hx] at h
        exact ⟨[], x, xs, rfl, by simp, hx.trans h⟩
      | none =>
        rw [hx] at h
        obtain ⟨nearer, y, farther, rfl, hnearer, hy⟩ := ih.mp h
        refine ⟨x :: nearer, y, farther, rfl, ?_, hy⟩
        simpa [hx] using hnearer
    · rintro ⟨nearer, y, farther, hsplit, hnearer, hy⟩
      cases nearer with
      | nil =>
        cases hsplit
        rw [hy]
        rfl
      | cons z nearer =>
        cases hsplit
        rw [hnearer x List.mem_cons_self]
        exact ih.mpr ⟨nearer, y, farther, rfl, fun z hz => hnearer z (.tail x hz), hy⟩

end Dataflow
