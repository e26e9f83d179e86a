import Dataflow.Proofs.Construction
import Dataflow.Proofs.Joining

/-!
# Dataflow.Proofs.Adoption

Which calls of a builder go through, and how the others fail.

* The children of a new node are looked at before any of them is adopted, so the
  first one that does not exist is what a call fails at
  (`Builder.coveringSpan_eq_error_iff`).  Joining their spans cannot fail: those
  that count are of one source (`Span.joinAll_of_source`).
* The loop that adopts the children sees what it wrote itself.  It goes through
  exactly if they are distinct and have no parent (`Builder.Adoptable`), and
  otherwise comes to a second parent.

`Builder.calls_fail_exactly` says this of every state that a construction comes
to, together with what a call leaves behind and when a construction cannot be
finished.
-/

namespace Dataflow

namespace Tree

variable {tree : Tree}

/-- The first of some ids that the tree does not have. -/
def FirstMissing (tree : Tree) (ids : List NodeId) (first : NodeId) : Prop :=
  ∃ before after, ids = before ++ first :: after ∧ (∀ id ∈ before, id < tree.size) ∧
    tree.size ≤ first

theorem FirstMissing.mem {ids : List NodeId} {first : NodeId} (h : tree.FirstMissing ids first) :
    first ∈ ids := by
  obtain ⟨before, after, rfl, _⟩ := h
  exact List.mem_append_right before List.mem_cons_self

theorem FirstMissing.size_le {ids : List NodeId} {first : NodeId}
    (h : tree.FirstMissing ids first) : tree.size ≤ first := by
  obtain ⟨_, _, _, _, hge⟩ := h
  exact hge

theorem exists_firstMissing_or (tree : Tree) (ids : List NodeId) :
    (∃ first, tree.FirstMissing ids first) ∨ ∀ id ∈ ids, id < tree.size := by
  induction ids with
  | nil => exact .inr (List.forall_mem_nil _)
  | cons id ids ih =>
    by_cases hlt : id < tree.size
    · obtain ⟨first, before, after, rfl, hbefore, hfirst⟩ | hall := ih
      · refine .inl ⟨first, id :: before, after, rfl, ?_, hfirst⟩
        exact List.forall_mem_cons.mpr ⟨hlt, hbefore⟩
      · exact .inr (List.forall_mem_cons.mpr ⟨hlt, hall⟩)
    · exact .inl ⟨id, [], ids, rfl, List.forall_mem_nil _, Nat.not_lt.mp hlt⟩

theorem span_eq_error_iff {id : NodeId} {halt : Halt} :
    tree.span id = .error halt ↔
      tree.size ≤ id ∧ halt = .fault (.outOfBounds tree.size id) := by
  by_cases hlt : id < tree.size
  · obtain ⟨span, hspan⟩ := exists_span_of_lt hlt
    rw [hspan]
    constructor
    · intro h
      cases h
    · intro h
      exact absurd hlt (Nat.not_lt.mpr h.1)
  · have habort := node_eq_abort_iff.mpr ⟨Nat.not_lt.mp hlt, rfl⟩
    rw [span, habort]
    constructor
    · intro h
      cases h
      exact ⟨Nat.not_lt.mp hlt, rfl⟩
    · rintro ⟨_, rfl⟩
      rfl

end Tree

namespace Builder

open Dataflow.Tree

variable {builder builder' : Builder} {kind : NodeKind} {children : List NodeId}

/-! ## Looking at the children -/

/-- Computing the span of a new node fails exactly at the first child that does
not exist. -/
theorem coveringSpan_eq_error_iff {halt : Halt} :
    builder.coveringSpan children = .error halt ↔ ∃ first, builder.FirstMissing children first ∧
      halt = .fault (.outOfBounds builder.size first) := by
  have hspans : children.mapM builder.toTree.span = .error halt ↔
      ∃ first, builder.FirstMissing children first ∧
        halt = .fault (.outOfBounds builder.size first) := by
    rw [mapM_eq_error_iff]
    constructor
    · rintro ⟨before, first, after, rfl, hbefore, hfirst⟩
      obtain ⟨hmissing, rfl⟩ := span_eq_error_iff.mp hfirst
      refine ⟨first, ⟨before, after, rfl, ?_, hmissing⟩, rfl⟩
      intro child hmem
      obtain ⟨span, hspan⟩ := hbefore child hmem
      obtain ⟨node, hnode, _⟩ := span_eq_ok_iff.mp hspan
      exact lt_size_of_node hnode
    · rintro ⟨first, ⟨before, after, rfl, hbefore, hmissing⟩, rfl⟩
      exact ⟨before, first, after, rfl, fun child hmem => exists_span_of_lt (hbefore child hmem),
        span_eq_error_iff.mpr ⟨hmissing, rfl⟩⟩
  rw [← hspans, coveringSpan]
  cases children.mapM builder.toTree.span with
  | error found => simp only [error_bind, Except.error.injEq]
  | ok spans =>
    -- What is left after the filter is of the current source, and so joins.
    have hsource : ∀ span ∈ spans.filter (·.source = builder.source),
        span.source = builder.source := by
      intro span hmem
      exact of_decide_eq_true (List.mem_filter.mp hmem).2
    rw [ok_bind]
    split
    · constructor <;> intro h <;> cases h
    · next first rest hfilter =>
      rw [hfilter] at hsource
      obtain ⟨hfirst, hrest⟩ := List.forall_mem_cons.mp hsource
      rw [Span.joinAll_of_source fun span hmem => (hrest span hmem).trans hfirst.symm]
      constructor <;> intro h <;> cases h

theorem exists_coveringSpan (h : ∀ child ∈ children, child < builder.size) :
    ∃ span, builder.coveringSpan children = .ok span := by
  cases hspan : builder.coveringSpan children with
  | ok span => exact ⟨span, rfl⟩
  | error halt =>
    obtain ⟨first, hmissing, _⟩ := coveringSpan_eq_error_iff.mp hspan
    exact absurd (h first hmissing.mem) (Nat.not_lt.mpr hmissing.size_le)

/-! ## Adopting the children -/

/-- Nodes that one parent can adopt one after the other. -/
structure Adoptable (nodes : Array Node) (children : List NodeId) : Prop where
  nodup : children.Nodup
  free : ∀ child ∈ children, ∃ node, nodes[child]? = some node ∧ node.parent = none

/-- Once the first child is adopted, the others can be as before. -/
theorem Adoptable.tail {nodes : Array Node} {child : NodeId}
    (h : Adoptable nodes (child :: children)) (adopted : Node) :
    Adoptable (nodes.setIfInBounds child adopted) children := by
  obtain ⟨hnotMem, hnodup⟩ := List.nodup_cons.mp h.nodup
  refine ⟨hnodup, ?_⟩
  intro other hmem
  obtain ⟨node, hnode, hfree⟩ := h.free other (List.mem_cons_of_mem child hmem)
  have hne : child ≠ other := fun he => hnotMem (he ▸ hmem)
  exact ⟨node, by rw [Array.getElem?_setIfInBounds_ne hne, hnode], hfree⟩

theorem exists_foldlM_adopt (parent : NodeId) {nodes : Array Node} (h : Adoptable nodes children) :
    ∃ nodes', children.foldlM (adopt parent) nodes = .ok nodes' := by
  induction children generalizing nodes with
  | nil => exact ⟨nodes, rfl⟩
  | cons child children ih =>
    obtain ⟨node, hnode, hfree⟩ := h.free child List.mem_cons_self
    have hadopt : adopt parent nodes child =
        .ok (nodes.setIfInBounds child { node with parent := some parent }) := by
      simp [adopt, hnode, hfree]
    rw [List.foldlM_cons, hadopt, ok_bind]
    exact ih (h.tail _)

/-- Nodes that exist are not adopted for one reason only. -/
theorem eq_secondParent_of_foldlM {parent : NodeId} {nodes : Array Node} {halt : Halt}
    (hlt : ∀ child ∈ children, child < nodes.size)
    (h : children.foldlM (adopt parent) nodes = .error halt) : halt = .fault .secondParent := by
  induction children generalizing nodes with
  | nil => cases h
  | cons child children ih =>
    obtain ⟨hchild, hrest⟩ := List.forall_mem_cons.mp hlt
    rw [List.foldlM_cons] at h
    cases hadopt : adopt parent nodes child with
    | ok nodes' =>
      rw [hadopt, ok_bind] at h
      rw [← size_adopt hadopt] at hrest
      exact ih hrest h
    | error found =>
      rw [hadopt] at h
      cases h
      simp only [adopt, Array.getElem?_eq_getElem hchild] at hadopt
      split at hadopt <;> cases hadopt
      rfl

/-- The loop over the children of a new node goes through exactly if they were
adoptable before. -/
theorem adoptable_push_iff (hlt : ∀ child ∈ children, child < builder.size) (added : Node) :
    Adoptable (builder.nodes.push added) children ↔
      children.Nodup ∧ ∀ child ∈ children, builder.parent child = .ok none := by
  have hpush : ∀ child ∈ children, (builder.nodes.push added)[child]? = builder.nodes[child]? :=
    fun child hmem => getElem?_push_of_lt (hlt child hmem)
  constructor
  · intro h
    refine ⟨h.nodup, ?_⟩
    intro child hmem
    obtain ⟨node, hnode, hfree⟩ := h.free child hmem
    exact parent_eq_ok_iff.mpr ⟨node, (hpush child hmem).symm.trans hnode, hfree⟩
  · rintro ⟨hnodup, hfree⟩
    refine ⟨hnodup, ?_⟩
    intro child hmem
    obtain ⟨node, hnode, hparent⟩ := parent_eq_ok_iff.mp (hfree child hmem)
    exact ⟨node, (hpush child hmem).trans hnode, hparent⟩

/-! ## Making a node -/

theorem make_of_firstMissing {first : NodeId} (h : builder.FirstMissing kind.children first) :
    builder.make kind = abort (.outOfBounds builder.size first) := by
  rw [make_eq_add, add, coveringSpan_eq_error_iff.mpr ⟨first, h, rfl⟩]
  rfl

section InRange

variable (hlt : ∀ child ∈ kind.children, child < builder.size)
include hlt

theorem exists_make (hnodup : kind.children.Nodup)
    (hfree : ∀ child ∈ kind.children, builder.parent child = .ok none) :
    ∃ builder', builder.make kind = .ok builder' := by
  obtain ⟨span, hspan⟩ := exists_coveringSpan hlt
  obtain ⟨nodes, hnodes⟩ := exists_foldlM_adopt builder.size
    ((adoptable_push_iff hlt { kind, span }).mpr ⟨hnodup, hfree⟩)
  rw [make_eq_add, add, hspan, ok_bind, hnodes]
  exact ⟨_, rfl⟩

theorem make_of_not_adoptable (h : ¬ (kind.children.Nodup ∧
    ∀ child ∈ kind.children, builder.parent child = .ok none)) :
    builder.make kind = abort .secondParent := by
  obtain ⟨span, hspan⟩ := exists_coveringSpan hlt
  rw [make_eq_add, add, hspan, ok_bind]
  cases hnodes : kind.children.foldlM (adopt builder.size) (builder.nodes.push { kind, span }) with
  | ok nodes =>
    obtain ⟨hnodup, hfree, _⟩ := foldlM_adopt_eq_ok hnodes
    exact absurd ((adoptable_push_iff hlt _).mp ⟨hnodup, hfree⟩) h
  | error halt =>
    have hlt' : ∀ child ∈ kind.children, child < (builder.nodes.push { kind, span }).size := by
      intro child hmem
      rw [Array.size_push]
      exact Nat.lt_succ_of_lt (hlt child hmem)
    cases eq_secondParent_of_foldlM hlt' hnodes
    rfl

/-- Children that exist are not adoptable if one comes twice or has a parent. -/
theorem not_adoptable_iff :
    ¬ (kind.children.Nodup ∧ ∀ child ∈ kind.children, builder.parent child = .ok none) ↔
      ¬ kind.children.Nodup ∨
        ∃ child ∈ kind.children, ∃ parent, builder.parent child = .ok (some parent) := by
  rw [not_and_or]
  refine or_congr Iff.rfl ?_
  constructor
  · intro h
    obtain ⟨child, hmem, hparent⟩ := by simpa using h
    obtain ⟨found, hfound⟩ := exists_parent_of_lt (hlt child hmem)
    cases found with
    | none => exact absurd hfound hparent
    | some parent => exact ⟨child, hmem, parent, hfound⟩
  · rintro ⟨child, hmem, parent, hparent⟩ hfree
    cases parent_inj hparent (hfree child hmem)

end InRange

/-- A call that makes a node fails at a child that does not exist or at a second
parent, or it goes through. -/
theorem make_cases (builder : Builder) (kind : NodeKind) :
    (∃ first, builder.FirstMissing kind.children first ∧
        builder.make kind = abort (.outOfBounds builder.size first)) ∨
      (∀ child ∈ kind.children, child < builder.size) ∧
        ((¬ kind.children.Nodup ∨
            ∃ child ∈ kind.children, ∃ parent, builder.parent child = .ok (some parent)) ∧
          builder.make kind = abort .secondParent ∨
        (kind.children.Nodup ∧ ∀ child ∈ kind.children, builder.parent child = .ok none) ∧
          ∃ builder', builder.make kind = .ok builder') := by
  obtain ⟨first, hmissing⟩ | hlt := builder.exists_firstMissing_or kind.children
  · exact .inl ⟨first, hmissing, make_of_firstMissing hmissing⟩
  · refine .inr ⟨hlt, ?_⟩
    by_cases hadoptable : kind.children.Nodup ∧
        ∀ child ∈ kind.children, builder.parent child = .ok none
    · exact .inr ⟨hadoptable, exists_make hlt hadoptable.1 hadoptable.2⟩
    · exact .inl ⟨(not_adoptable_iff hlt).mp hadoptable, make_of_not_adoptable hlt hadoptable⟩

theorem make_eq_outOfBounds_iff {len index : Nat} :
    builder.make kind = abort (.outOfBounds len index) ↔
      len = builder.size ∧ builder.FirstMissing kind.children index := by
  constructor
  · intro h
    obtain ⟨first, hmissing, hmake⟩ | ⟨_, ⟨_, hmake⟩ | ⟨_, _, hmake⟩⟩ := builder.make_cases kind
    all_goals
      rw [hmake] at h
      cases h
    exact ⟨rfl, hmissing⟩
  · rintro ⟨rfl, hmissing⟩
    exact make_of_firstMissing hmissing

theorem make_eq_secondParent_iff :
    builder.make kind = abort .secondParent ↔
      (∀ child ∈ kind.children, child < builder.size) ∧ (¬ kind.children.Nodup ∨
        ∃ child ∈ kind.children, ∃ parent, builder.parent child = .ok (some parent)) := by
  constructor
  · intro h
    obtain ⟨_, _, hmake⟩ | ⟨hlt, ⟨hnot, hmake⟩ | ⟨_, _, hmake⟩⟩ := builder.make_cases kind
    all_goals
      rw [hmake] at h
      cases h
    exact ⟨hlt, hnot⟩
  · rintro ⟨hlt, hnot⟩
    exact make_of_not_adoptable hlt ((not_adoptable_iff hlt).mpr hnot)

theorem exists_make_iff :
    (∃ builder', builder.make kind = .ok builder') ↔
      (∀ child ∈ kind.children, child < builder.size) ∧ kind.children.Nodup ∧
        ∀ child ∈ kind.children, builder.parent child = .ok none := by
  constructor
  · rintro ⟨builder', h⟩
    rw [make_eq_add] at h
    obtain ⟨hlt, hnodup, hfree, _⟩ := add_eq_ok h
    exact ⟨hlt, hnodup, hfree⟩
  · rintro ⟨hlt, hnodup, hfree⟩
    exact exists_make hlt hnodup hfree

/-- What a call that makes a node leaves behind: one more node, which comes last
and has no parent.  Of the others, its children have it as their parent, and all
else is as it was. -/
structure Appends (builder : Builder) (kind : NodeKind) (builder' : Builder) : Prop where
  size : builder'.size = builder.size + 1
  source : builder'.source = builder.source
  added : ∃ span, builder'.nodes[builder.size]? = some ⟨kind, none, span⟩
  kept {id : NodeId} {node : Node} : builder.nodes[id]? = some node →
    builder'.nodes[id]? = some { node with
      parent := if id ∈ kind.children then some builder.size else node.parent }
  files : builder'.files = if kind.isFile then builder.files ++ [builder.size] else builder.files

theorem appends_of_make (h : builder.make kind = .ok builder') : builder.Appends kind builder' := by
  rw [make_eq_add] at h
  obtain ⟨_, _, _, hadded, hold, hfiles⟩ := add_eq_ok h
  refine ⟨size_add h, ?_, hadded, ?_, hfiles⟩
  · obtain ⟨span, _, h⟩ := bind_eq_ok_iff.mp h
    obtain ⟨nodes, _, h⟩ := bind_eq_ok_iff.mp h
    cases h
    rfl
  · intro id node hnode
    rw [hold id (lt_size_of_node hnode), hnode]
    split <;> rfl

/-! ## Whole constructions -/

/-- No call joins spans of different sources. -/
theorem step_ne_mixedSources (builder : Builder) (step : BuildStep) (left right : SourceId) :
    builder.step step ≠ abort (.mixedSources left right) := by
  intro h
  cases step with
  | node kind =>
    rw [step] at h
    obtain ⟨_, _, hmake⟩ | ⟨_, ⟨_, hmake⟩ | ⟨_, _, hmake⟩⟩ := builder.make_cases kind
    all_goals
      rw [hmake] at h
      cases h
  | switchSource source => cases h
  | setSpan id span =>
    rw [step, setSpan] at h
    cases hnode : builder.node id with
    | ok node =>
      rw [hnode] at h
      cases h
    | error halt =>
      rw [hnode] at h
      cases h
      cases (node_eq_abort_iff.mp hnode).2

/-- A construction cannot be finished exactly if a document has a parent. -/
theorem finish_eq_error_iff (hf : builder.IsForest) {halt : Halt} :
    builder.finish = .error halt ↔ halt = .fault .nestedFile ∧
      ∃ root ∈ builder.files, ∃ parent, builder.parent root = .ok (some parent) := by
  have hlt : ∀ root ∈ builder.files, ∃ parent, builder.parent root = .ok parent := by
    intro root hmem
    obtain ⟨_, hkind⟩ := hf.kind_of_file hmem
    exact exists_parent_of_lt (lt_size_of_kind hkind)
  obtain ⟨parents, hparents⟩ := exists_mapM_eq_ok hlt
  rw [finish, hparents, ok_bind]
  constructor
  · intro h
    split at h
    · cases h
    · next hall =>
      cases h
      refine ⟨rfl, ?_⟩
      obtain ⟨parent, hmem, hsome⟩ := by simpa using hall
      obtain ⟨root, hroot, hparent⟩ := exists_of_mem_mapM hparents hmem
      cases parent with
      | none => exact absurd rfl hsome
      | some parent => exact ⟨root, hroot, parent, hparent⟩
  · rintro ⟨rfl, root, hroot, parent, hparent⟩
    obtain ⟨found, hmem, hfound⟩ := exists_of_mem_of_mapM hparents hroot
    cases parent_inj hparent hfound
    rw [if_neg]
    · rfl
    · intro hall
      cases List.all_eq_true.mp hall _ hmem

/-- The nodes that have a parent are those that were handed over by a step. -/
theorem exists_parent_iff {source : SourceId} {steps : List BuildStep}
    (hrun : (new source).run steps = .ok builder) {id : NodeId} :
    (∃ parent, builder.parent id = .ok (some parent)) ↔
      ∃ step ∈ steps, ∃ adopted, step.adopted? = some adopted ∧ id ∈ adopted := by
  have hf := isForest_run hrun
  have hlists : builder.childLists = steps.filterMap BuildStep.adopted? := childLists_run hrun
  have hadopted : ∀ adopted, adopted ∈ builder.childLists ↔
      ∃ step ∈ steps, step.adopted? = some adopted := by
    intro adopted
    rw [hlists, List.mem_filterMap]
  constructor
  · rintro ⟨parent, hparent⟩
    obtain ⟨kind, hkind, hmem⟩ := hf.child_of_parent hparent
    have hchildren := children_eq_ok_iff_getElem?.mp (children_eq_ok_iff.mpr ⟨kind, hkind, rfl⟩)
    obtain ⟨step, hstep, hhanded⟩ := (hadopted _).mp (List.mem_of_getElem? hchildren)
    exact ⟨step, hstep, _, hhanded, hmem⟩
  · rintro ⟨step, hstep, adopted, hhanded, hmem⟩
    obtain ⟨parent, hchildren⟩ :=
      List.mem_iff_getElem?.mp ((hadopted adopted).mpr ⟨step, hstep, hhanded⟩)
    obtain ⟨kind, hkind, rfl⟩ := children_eq_ok_iff.mp (children_eq_ok_iff_getElem?.mpr hchildren)
    exact ⟨parent, hf.parent_of_child hkind hmem⟩

/-- How the calls of a builder end, in every state that a construction comes to.
A call that makes a node fails at the first child that does not exist, if there
is one, before anything is adopted; otherwise it fails at a second parent exactly
if a child comes twice or has a parent; otherwise it goes through and appends one
node.  No call fails at joining spans, whatever sources and spans were set before.
The construction cannot be finished exactly if a document was handed over to
another node. -/
theorem calls_fail_exactly {source : SourceId} {steps : List BuildStep} {builder : Builder}
    (hrun : (new source).run steps = .ok builder) :
    (∀ kind,
      ((∃ len index, builder.make kind = abort (.outOfBounds len index)) ↔
        ∃ child ∈ kind.children, builder.size ≤ child) ∧
      (∀ len index, builder.make kind = abort (.outOfBounds len index) ↔
        len = builder.size ∧ builder.FirstMissing kind.children index) ∧
      (builder.make kind = abort .secondParent ↔
        (∀ child ∈ kind.children, child < builder.size) ∧ (¬ kind.children.Nodup ∨
          ∃ child ∈ kind.children, ∃ parent, builder.parent child = .ok (some parent))) ∧
      ((∃ builder', builder.make kind = .ok builder') ↔
        (∀ child ∈ kind.children, child < builder.size) ∧ kind.children.Nodup ∧
          ∀ child ∈ kind.children, builder.parent child = .ok none) ∧
      ∀ builder', builder.make kind = .ok builder' → builder.Appends kind builder') ∧
    (∀ step left right, builder.step step ≠ abort (.mixedSources left right)) ∧
    (∀ halt, builder.finish = .error halt ↔ halt = .fault .nestedFile ∧
      ∃ root declarations, builder.kind root = .ok (.file declarations) ∧
        ∃ step ∈ steps, ∃ adopted, step.adopted? = some adopted ∧ root ∈ adopted) ∧
    Fault.secondParent.message = "every node has at most one parent" := by
  have hf := isForest_run hrun
  refine ⟨?_, builder.step_ne_mixedSources, ?_, rfl⟩
  · intro kind
    refine ⟨?_, fun len index => make_eq_outOfBounds_iff, make_eq_secondParent_iff,
      exists_make_iff, fun builder' => appends_of_make⟩
    constructor
    · rintro ⟨len, index, h⟩
      obtain ⟨_, hmissing⟩ := make_eq_outOfBounds_iff.mp h
      exact ⟨index, hmissing.mem, hmissing.size_le⟩
    · rintro ⟨child, hmem, hge⟩
      obtain ⟨first, hmissing⟩ | hlt := builder.exists_firstMissing_or kind.children
      · exact ⟨builder.size, first, make_of_firstMissing hmissing⟩
      · exact absurd (hlt child hmem) (Nat.not_lt.mpr hge)
  · intro halt
    rw [finish_eq_error_iff hf]
    refine and_congr_right fun _ => ?_
    constructor
    · rintro ⟨root, hroot, hparent⟩
      obtain ⟨declarations, hkind⟩ := hf.kind_of_file hroot
      exact ⟨root, declarations, hkind, (exists_parent_iff hrun).mp hparent⟩
    · rintro ⟨root, declarations, hkind, hadopted⟩
      exact ⟨root, listsFiles_run hrun root declarations hkind,
        (exists_parent_iff hrun).mpr hadopted⟩

/-- Nodes of two sources, some with spans of the other source, one of them adopted,
and an empty document. -/
def twoSources : List BuildStep := [
  .node (.type .integer),
  .setSpan 0 ⟨1, 4, 9⟩,
  .switchSource 2,
  .node (.type .string),
  .setSpan 1 ⟨2, 7, 3⟩,
  .node (.constructor "Mk" [1]),
  .node (.typeParameter "t"),
  .setSpan 3 ⟨1, 2, 2⟩,
  .node (.file [])]

theorem calls_fail_exactly_twoSources :
    ∃ builder nested, (new 1).run twoSources = .ok builder ∧
      (new 1).run (twoSources ++ [.node (.file [4])]) = .ok nested ∧
      builder.make (.file [1, 9, 7]) = abort (.outOfBounds 5 9) ∧
      builder.make (.link 3 3) = abort .secondParent ∧
      builder.make (.port "p" .input 1) = abort .secondParent ∧
      (∃ builder', builder.make (.dataType "D" [3] [0, 2]) = .ok builder' ∧
        builder.Appends (.dataType "D" [3] [0, 2]) builder') ∧
      nested.finish = abort .nestedFile := by
  obtain ⟨builder, hrun⟩ : ∃ builder, (new 1).run twoSources = .ok builder := ⟨_, rfl⟩
  obtain ⟨nested, hnested⟩ :
      ∃ nested, (new 1).run (twoSources ++ [.node (.file [4])]) = .ok nested := ⟨_, rfl⟩
  obtain ⟨hmake, _, _, _⟩ := calls_fail_exactly hrun
  obtain ⟨_, _, hfinish, _⟩ := calls_fail_exactly hnested
  have hsize : builder.size = 5 := by
    cases hrun
    rfl
  have hparent : builder.parent 1 = .ok (some 2) := by
    cases hrun
    rfl
  have hroots : ∀ id ∈ [3, 0, 2], builder.parent id = .ok none := by
    cases hrun
    decide
  have hfile : nested.kind 4 = .ok (.file []) := by
    cases hnested
    rfl
  have hmissing : builder.make (.file [1, 9, 7]) = abort (.outOfBounds 5 9) :=
    ((hmake (.file [1, 9, 7])).2.1 5 9).mpr
      ⟨hsize.symm, [1], [7], rfl, by rw [hsize]; decide, by rw [hsize]; decide⟩
  have htwice : builder.make (.link 3 3) = abort .secondParent :=
    (hmake (.link 3 3)).2.2.1.mpr ⟨by rw [hsize]; decide, .inl (by decide)⟩
  have hadopted : builder.make (.port "p" .input 1) = abort .secondParent :=
    (hmake (.port "p" .input 1)).2.2.1.mpr
      ⟨by rw [hsize]; decide, .inr ⟨1, by decide, 2, hparent⟩⟩
  obtain ⟨_, _, _, hiff, happends⟩ := hmake (.dataType "D" [3] [0, 2])
  obtain ⟨builder', hmade⟩ := hiff.mpr ⟨by rw [hsize]; decide, by decide, hroots⟩
  exact ⟨builder, nested, hrun, hnested, hmissing, htwice, hadopted,
    ⟨builder', hmade, happends builder' hmade⟩,
    (hfinish _).mpr ⟨rfl, 4, [], hfile, .node (.file [4]), by simp, [4], rfl, by simp⟩⟩

end Builder

end Dataflow
