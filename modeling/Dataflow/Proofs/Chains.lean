import Mathlib.Data.List.Chain
import Dataflow.Proofs.Circles
import Dataflow.Proofs.Positions

/-!
# Dataflow.Proofs.Chains

The nodes that inference passes, as a list.  A node passes its chain on to one node at
most, so inference makes one call for each node of the chain, and all it does on the
way is to hand on what it comes to at the last one (`Tree.RunsThrough.inferWithin_eq`).

A chain that ends visits no node twice, because a node that it came back to would be
in a circle.  A chain that does not end goes on for more nodes than the tree has
(`Tree.exists_chain_or_runsThrough`), so it visits some node twice.
-/

namespace Dataflow

namespace Tree

variable {tree : Tree} {links : Links} {id : NodeId} {passed : List NodeId}

/-! ## One call -/

namespace IsForest

variable (hf : tree.IsForest)
include hf

theorem passesTo_unique {first second : NodeId} (hfirst : tree.PassesTo links id first)
    (hsecond : tree.PassesTo links id second) : first = second := by
  have hstep := hf.typeStep_eq_sameAs_iff.mpr hfirst
  rw [hf.typeStep_eq_sameAs_iff.mpr hsecond] at hstep
  cases hstep
  rfl

/-- A node that passes its chain on makes one more call, for the next node. -/
theorem inferWithin_of_passesTo {next : NodeId} (h : tree.PassesTo links id next) (bound : Nat) :
    tree.inferWithin links (bound + 1) id = tree.inferWithin links bound next := by
  rw [inferWithin, hf.typeStep_eq_sameAs_iff.mpr h, ok_bind]

theorem endsIn_of_last (h : ∀ next, ¬ tree.PassesTo links id next) : tree.EndsIn links 0 id := by
  refine .stop ?_
  intro next hnext
  exact h next (hf.typeStep_eq_sameAs_iff.mp hnext)

/-- A node that does not pass its chain on makes no more calls. -/
theorem inferWithin_of_last (h : ∀ next, ¬ tree.PassesTo links id next) (bound : Nat) :
    tree.inferWithin links (bound + 1) id = tree.infer links id :=
  (hf.endsIn_of_last h).inferWithin_eq (Nat.succ_pos _) (Nat.succ_pos _)

end IsForest

/-! ## Chains that end -/

/-- The chain from a node runs through some others to its last node. -/
structure RunsThrough (tree : Tree) (links : Links) (id : NodeId) (passed : List NodeId)
    (last : NodeId) : Prop where
  isChain : (id :: passed).IsChain (tree.PassesTo links)
  getLast : (id :: passed).getLast? = some last
  ends : ∀ next, ¬ tree.PassesTo links last next

namespace RunsThrough

variable {last next : NodeId}

theorem tail (h : tree.RunsThrough links id (next :: passed) last) :
    tree.PassesTo links id next ∧ tree.RunsThrough links next passed last := by
  obtain ⟨hnext, hrest⟩ := List.isChain_cons_cons.mp h.isChain
  refine ⟨hnext, hrest, ?_, h.ends⟩
  rw [← h.getLast, List.getLast?_cons_cons]

theorem cons (hnext : tree.PassesTo links id next)
    (h : tree.RunsThrough links next passed last) :
    tree.RunsThrough links id (next :: passed) last := by
  refine ⟨List.isChain_cons_cons.mpr ⟨hnext, h.isChain⟩, ?_, h.ends⟩
  rw [List.getLast?_cons_cons, h.getLast]

theorem endsIn (h : tree.RunsThrough links id passed last) (hf : tree.IsForest) :
    tree.EndsIn links passed.length id := by
  induction passed generalizing id with
  | nil =>
    obtain rfl : id = last := by simpa using h.getLast
    exact hf.endsIn_of_last h.ends
  | cons next passed ih =>
    obtain ⟨hnext, hrest⟩ := h.tail
    exact .step (hf.typeStep_eq_sameAs_iff.mpr hnext) (ih hrest)

/-- Inference makes one call for each node of the chain and comes to what it comes to at
the last one. -/
theorem inferWithin_eq (h : tree.RunsThrough links id passed last) (hf : tree.IsForest)
    (bound : Nat) :
    tree.inferWithin links bound id =
      if passed.length < bound then tree.infer links last else abort .endless := by
  induction passed generalizing id bound with
  | nil =>
    obtain rfl : id = last := by simpa using h.getLast
    cases bound with
    | zero => rfl
    | succ bound =>
      rw [hf.inferWithin_of_last h.ends]
      simp
  | cons next passed ih =>
    obtain ⟨hnext, hrest⟩ := h.tail
    cases bound with
    | zero => rfl
    | succ bound =>
      rw [hf.inferWithin_of_passesTo hnext, ih hrest]
      simp

/-- The trail of a node is its whole chain. -/
theorem trailWithin_eq (h : tree.RunsThrough links id passed last) (hf : tree.IsForest)
    {bound : Nat} (hbound : passed.length < bound) :
    tree.trailWithin links bound id = id :: passed := by
  induction passed generalizing id bound with
  | nil =>
    obtain rfl : id = last := by simpa using h.getLast
    obtain ⟨bound, rfl⟩ := Nat.exists_eq_add_of_lt hbound
    rw [trailWithin]
    split
    · next next hnext => exact absurd (hf.typeStep_eq_sameAs_iff.mp hnext) (h.ends next)
    · rfl
  | cons next passed ih =>
    obtain ⟨hnext, hrest⟩ := h.tail
    cases bound with
    | zero => simp at hbound
    | succ bound =>
      rw [trailWithin, hf.typeStep_eq_sameAs_iff.mpr hnext]
      simp [ih hrest (Nat.lt_of_succ_lt_succ hbound)]

end RunsThrough

/-- A chain goes on for as many nodes as one likes, or it ends before. -/
theorem exists_chain_or_runsThrough (tree : Tree) (links : Links) (id : NodeId) (length : Nat) :
    (∃ passed : List NodeId, passed.length = length ∧
      (id :: passed).IsChain (tree.PassesTo links)) ∨
    ∃ passed last, passed.length < length ∧ tree.RunsThrough links id passed last := by
  induction length generalizing id with
  | zero => exact .inl ⟨[], rfl, .singleton id⟩
  | succ length ih =>
    by_cases hnext : ∃ next, tree.PassesTo links id next
    · obtain ⟨next, hnext⟩ := hnext
      obtain ⟨passed, hlength, hchain⟩ | ⟨passed, last, hlt, hruns⟩ := ih next
      · exact .inl ⟨next :: passed, by simp [hlength],
          List.isChain_cons_cons.mpr ⟨hnext, hchain⟩⟩
      · exact .inr ⟨next :: passed, last, by simpa using hlt, hruns.cons hnext⟩
    · refine .inr ⟨[], id, Nat.succ_pos length, .singleton id, rfl, ?_⟩
      intro next hpasses
      exact hnext ⟨next, hpasses⟩

/-! ## Nodes that come up twice -/

namespace IsForest

variable (hf : tree.IsForest)
include hf

/-- A chain that ends visits no node twice. -/
theorem nodup_of_endsIn {length : Nat} (hends : tree.EndsIn links length id)
    (h : (id :: passed).IsChain (tree.PassesTo links)) : (id :: passed).Nodup := by
  -- What comes up twice has its type from itself.
  have hlater : (id :: passed).Pairwise (Relation.TransGen (tree.PassesTo links)) :=
    (h.imp fun _ _ => .single).pairwise
  refine hlater.imp_of_mem ?_
  rintro node _ hmem _ hcircle rfl
  obtain rfl | hmem := List.mem_cons.mp hmem
  · exact InCircle.not_endsIn hf hcircle hends
  · obtain ⟨_, _, hrest⟩ := hends.exists_of_transGen hf (List.rel_of_pairwise_cons hlater hmem)
    exact InCircle.not_endsIn hf hcircle hrest

variable (hlinks : links.Within tree)
include hlinks

theorem lt_size_of_isChain (h : (id :: passed).IsChain (tree.PassesTo links))
    (hid : id < tree.size) : ∀ node ∈ id :: passed, node < tree.size := by
  induction passed generalizing id with
  | nil => simpa using hid
  | cons next passed ih =>
    obtain ⟨hnext, hrest⟩ := List.isChain_cons_cons.mp h
    exact List.forall_mem_cons.mpr ⟨hid, ih hrest (hf.lt_size_of_passesTo hlinks hnext)⟩

/-- A chain that visits no node twice has at most as many nodes as the tree. -/
theorem length_le_size (h : (id :: passed).IsChain (tree.PassesTo links)) (hid : id < tree.size)
    (hnodup : (id :: passed).Nodup) : (id :: passed).length ≤ tree.size := by
  have hsubset : id :: passed ⊆ List.range tree.size :=
    fun node hmem => List.mem_range.mpr (hf.lt_size_of_isChain hlinks h hid node hmem)
  simpa using hnodup.length_le_of_subset hsubset

/-- A chain that visits no node twice comes to its end. -/
theorem exists_runsThrough (hid : id < tree.size)
    (h : ∀ passed, (id :: passed).IsChain (tree.PassesTo links) → (id :: passed).Nodup) :
    ∃ passed last, tree.RunsThrough links id passed last ∧ (id :: passed).length ≤ tree.size := by
  obtain ⟨passed, hlength, hchain⟩ | ⟨passed, last, hlt, hruns⟩ :=
    exists_chain_or_runsThrough tree links id tree.size
  · -- The tree has no room for so many nodes.
    have hle := hf.length_le_size hlinks hchain hid (h passed hchain)
    rw [List.length_cons, hlength] at hle
    exact absurd hle (Nat.not_succ_le_self tree.size)
  · exact ⟨passed, last, hruns, hlt⟩

/-- Inference comes to an end exactly if its chain visits no node twice. -/
theorem faultFree_infer_iff (hid : id < tree.size) :
    FaultFree (tree.infer links id) ↔
      ∀ passed, (id :: passed).IsChain (tree.PassesTo links) → (id :: passed).Nodup := by
  constructor
  · intro h passed hchain
    obtain ⟨length, _, hends⟩ := exists_endsIn_of_inferWithin (h .endless)
    exact hf.nodup_of_endsIn hends hchain
  · intro h
    obtain ⟨passed, last, hruns, _⟩ := hf.exists_runsThrough hlinks hid h
    exact hf.faultFree_infer_of_endsIn hlinks (hruns.endsIn hf) hid

end IsForest

/-! ## Inference in a tree that was built -/

/-- How inference comes to its end, in a tree of any shape and by any table that leads
to nodes of the tree.  A call for a node makes one more call, for a node that the tree, the
table and the node determine, and comes to what that call comes to; or it makes none.  So
inference comes to an end exactly if its chain of nodes visits none twice, and otherwise
never.  If it does, it makes one call for each node of the chain, no more than the tree
has nodes, and comes to what it comes to at the last node of the chain. -/
theorem infer_follows_chain {source : SourceId} {steps : List BuildStep}
    (hbuild : Tree.build source steps = .ok tree) (hlinks : links.Within tree) :
    (∀ id < tree.size,
      (∃ next < tree.size, (∀ other, tree.PassesTo links id other ↔ other = next) ∧
        (∀ bound, tree.inferWithin links (bound + 1) id = tree.inferWithin links bound next) ∧
        tree.infer links id = tree.infer links next) ∨
      (∀ other, ¬ tree.PassesTo links id other) ∧ FaultFree (tree.infer links id) ∧
        ∀ bound, tree.inferWithin links (bound + 1) id = tree.infer links id) ∧
    ∀ id < tree.size,
      (FaultFree (tree.infer links id) ↔
        ∀ passed, (id :: passed).IsChain (tree.PassesTo links) → (id :: passed).Nodup) ∧
      (tree.NeverEnds links id ↔ ¬ FaultFree (tree.infer links id)) ∧
      (FaultFree (tree.infer links id) → ∃ passed last,
        tree.RunsThrough links id passed last ∧ tree.trail links id = id :: passed ∧
        (id :: passed).length ≤ tree.size ∧ tree.infer links id = tree.infer links last ∧
        ∀ bound, tree.inferWithin links bound id =
          if (id :: passed).length ≤ bound then tree.infer links last else abort .endless) := by
  have hf := (isFinished_of_build hbuild).toIsForest
  refine ⟨?_, ?_⟩
  · intro id hid
    by_cases hpasses : ∃ next, tree.PassesTo links id next
    · obtain ⟨next, hnext⟩ := hpasses
      refine .inl ⟨next, hf.lt_size_of_passesTo hlinks hnext, ?_, hf.inferWithin_of_passesTo hnext,
        hf.infer_eq_of_passesTo hnext⟩
      intro other
      constructor
      · intro hother
        exact hf.passesTo_unique hother hnext
      · rintro rfl
        exact hnext
    · have hlast : ∀ other, ¬ tree.PassesTo links id other := not_exists.mp hpasses
      have hfree := hf.faultFree_infer_of_endsIn hlinks (hf.endsIn_of_last hlast) hid
      exact .inr ⟨hlast, hfree, hf.inferWithin_of_last hlast⟩
  · intro id hid
    refine ⟨hf.faultFree_infer_iff hlinks hid, ?_, ?_⟩
    · constructor
      · intro hnever hfree
        exact hfree .endless (hnever (tree.size + 1))
      · intro hfree
        exact (hf.faultFree_or_neverEnds hlinks hid).resolve_left hfree
    · intro hfree
      obtain ⟨passed, last, hruns, hle⟩ :=
        hf.exists_runsThrough hlinks hid ((hf.faultFree_infer_iff hlinks hid).mp hfree)
      have hlt : passed.length < tree.size + 1 := Nat.lt_succ_of_lt hle
      refine ⟨passed, last, hruns, hruns.trailWithin_eq hf hlt, hle, ?_, hruns.inferWithin_eq hf⟩
      rw [infer, hruns.inferWithin_eq hf, if_pos hlt]

/-- An application binds a match variable, which is used in parentheses.  So is another
variable, which nothing binds. -/
def usesInParens : List BuildStep := [
  .node (.type .integer),
  .node (.constructor "Mk" [0]),
  .node (.dataType "Box" [] [1]),
  .node (.expr (.variableDefinition "x")),
  .node (.expr (.apply "Mk" [3])),
  .node (.expr (.variableUsage "x")),
  .node (.expr (.parens 5)),
  .node (.expr (.variableUsage "y")),
  .node (.expr (.parens 7))]

theorem infer_follows_chain_usesInParens :
    ∃ tree links, Tree.build 1 usesInParens = .ok tree ∧ links.Within tree ∧
      links = (((∅ : Links).bind ⟨4, .constructor⟩ 1).bind ⟨5, .matchVariable⟩ 3).bind
        ⟨7, .matchVariable⟩ 8 ∧
      tree.RunsThrough links 6 [5, 3, 0] 0 ∧
      tree.infer links 6 = .ok (.primitive .integer) ∧
      (∀ bound, tree.inferWithin links bound 6 =
        if 4 ≤ bound then .ok (.primitive .integer) else abort .endless) ∧
      tree.NeverEnds links 8 := by
  obtain ⟨tree, hbuild⟩ : ∃ tree, Tree.build 1 usesInParens = .ok tree := ⟨_, rfl⟩
  obtain ⟨links, hlinks⟩ : ∃ links, links = (((∅ : Links).bind ⟨4, .constructor⟩ 1).bind
    ⟨5, .matchVariable⟩ 3).bind ⟨7, .matchVariable⟩ 8 := ⟨_, rfl⟩
  have hsize : tree.size = 9 := by
    cases hbuild
    rfl
  have hwithin : links.Within tree := by
    intro id slot target htarget
    simp only [hlinks, Links.target, Links.get?_bind, Links.get?_empty] at htarget
    grind
  obtain ⟨_, hchains⟩ := infer_follows_chain hbuild hwithin
  -- The chain from the first parentheses ends.
  have hinfer : tree.infer links 6 = .ok (.primitive .integer) := by
    cases hbuild
    rw [hlinks]
    rfl
  have htrail : tree.trail links 6 = [6, 5, 3, 0] := by
    cases hbuild
    rw [hlinks]
    rfl
  have hfree : FaultFree (tree.infer links 6) := by
    rw [hinfer]
    exact faultFree_ok _
  obtain ⟨_, _, hends⟩ := hchains 6 (by lia)
  obtain ⟨passed, last, hruns, hpassed, _, hlast, hbound⟩ := hends hfree
  cases htrail.symm.trans hpassed
  cases hruns.getLast
  rw [← hlast, hinfer] at hbound
  -- The other chain comes back to where it began.
  have hparens : tree.kind 8 = .ok (.expr (.parens 7)) := by
    cases hbuild
    rfl
  have husage : tree.kind 7 = .ok (.expr (.variableUsage "y")) := by
    cases hbuild
    rfl
  have htarget : links.target 7 .matchVariable = some 8 := by
    rw [hlinks]
    rfl
  have hinner : tree.PassesTo links 8 7 := .child hparens rfl
  have houter : tree.PassesTo links 7 8 := .target husage rfl htarget
  obtain ⟨hiff, hnever, _⟩ := hchains 8 (by lia)
  have hcomesBack : ¬ FaultFree (tree.infer links 8) := by
    intro hfree
    have hnodup := hiff.mp hfree [7, 8] (by simp [hinner, houter])
    simp at hnodup
  exact ⟨tree, links, hbuild, hwithin, hlinks, hruns, hinfer, hbound, hnever.mpr hcomesBack⟩

end Tree

end Dataflow
