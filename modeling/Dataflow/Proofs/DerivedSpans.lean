import Mathlib.Data.List.Induction
import Dataflow.Proofs.Adoption
import Dataflow.Proofs.Subtrees

/-!
# Dataflow.Proofs.DerivedSpans

Where the spans of a construction come from.  A new node gets the hull of those of
its children that are in the current source (`Builder.coveringSpan_derives`).  From
then on neither the node nor its children are loose, so a construction that sets the
spans of loose nodes only changes none of them again (`Builder.span_run`).

If all spans are in one source, no child is left out.  A hull of hulls is the hull of
everything in them (`Span.IsHull.of_parts`), so that by induction over the tree every
span is the hull of the childless nodes below (`Tree.IsForest.isHull_leafSpans`).
-/

namespace Dataflow

/-- A step names no other source. -/
def BuildStep.StaysIn (source : SourceId) : BuildStep → Prop
  | node _ => True
  | switchSource other => other = source
  | setSpan _ span => span.source = source

/-- A span of the same source begins and ends within another one. -/
def Span.Covers (outer inner : Span) : Prop :=
  inner.source = outer.source ∧ outer.start ≤ inner.start ∧ inner.stop ≤ outer.stop

namespace Span.IsHull

variable {hull : Span} {spans : Set Span}

/-- The hull of some spans covers that of some of them. -/
theorem covers {inner : Span} {own : Set Span} (h : hull.IsHull spans) (hinner : inner.IsHull own)
    (hsub : own ⊆ spans) : hull.Covers inner := by
  obtain ⟨first, hfirst, hstart⟩ := hinner.start.1
  obtain ⟨last, hlast, hstop⟩ := hinner.stop.1
  refine ⟨?_, ?_, ?_⟩
  · rw [← hinner.source first hfirst, h.source first (hsub hfirst)]
  · rw [← hstart]
    exact h.start_le (hsub hfirst)
  · rw [← hstop]
    exact h.stop_le (hsub hlast)

theorem singleton (span : Span) : span.IsHull {span} := by
  refine ⟨?_, ?_, ?_⟩
  · rintro _ rfl
    rfl
  · simp
  · simp

/-- The hull of some hulls is the hull of everything that these cover. -/
theorem of_parts {parts : Set Span} (h : hull.IsHull parts)
    (hpart : ∀ part ∈ parts, ∃ own ⊆ spans, part.IsHull own)
    (hspan : ∀ span ∈ spans, ∃ part ∈ parts, ∃ own, part.IsHull own ∧ span ∈ own) :
    hull.IsHull spans := by
  refine ⟨?_, ⟨?_, ?_⟩, ?_, ?_⟩
  · intro span hmem
    obtain ⟨part, hparts, own, hown, hmem⟩ := hspan span hmem
    rw [hown.source span hmem, h.source part hparts]
  · obtain ⟨part, hparts, hstart⟩ := h.start.1
    obtain ⟨own, hsub, hown⟩ := hpart part hparts
    rw [← hstart]
    exact Set.image_mono hsub hown.start.1
  · rintro _ ⟨span, hmem, rfl⟩
    obtain ⟨part, hparts, own, hown, hmem⟩ := hspan span hmem
    exact Nat.le_trans (h.start_le hparts) (hown.start_le hmem)
  · obtain ⟨part, hparts, hstop⟩ := h.stop.1
    obtain ⟨own, hsub, hown⟩ := hpart part hparts
    rw [← hstop]
    exact Set.image_mono hsub hown.stop.1
  · rintro _ ⟨span, hmem, rfl⟩
    obtain ⟨part, hparts, own, hown, hmem⟩ := hspan span hmem
    exact Nat.le_trans (hown.stop_le hmem) (h.stop_le hparts)

end Span.IsHull

namespace Tree

variable {tree tree' : Tree} {source : SourceId} {id : NodeId} {children : List NodeId}

/-! ## Loose nodes -/

/-- A node that has neither children nor a parent. -/
def IsLoose (tree : Tree) (id : NodeId) : Prop :=
  tree.children id = .ok [] ∧ tree.parent id = .ok none

theorem isLoose_iff {node : Node} (h : tree.nodes[id]? = some node) :
    tree.IsLoose id ↔ node.kind.children = [] ∧ node.parent = none := by
  have hnode := node_eq_ok_iff.mpr h
  simp [IsLoose, children_of_node hnode, parent_of_node hnode]

/-! ## Derived spans -/

/-- Those spans of some nodes that are in the given source. -/
def spansIn (tree : Tree) (source : SourceId) (ids : List NodeId) : Set Span :=
  {span | ∃ id ∈ ids, tree.span id = .ok span ∧ span.source = source}

/-- A node has the hull of those spans of some others that are in the given source, or
the beginning of the source if there are none. -/
def DerivesSpan (tree : Tree) (source : SourceId) (id : NodeId) (ids : List NodeId) : Prop :=
  ∃ span, tree.span id = .ok span ∧ span.source = source ∧
    (span.IsHull (tree.spansIn source ids) ∨
      tree.spansIn source ids = ∅ ∧ span = .origin source)

theorem spansIn_congr (source : SourceId)
    (h : ∀ child ∈ children, tree'.span child = tree.span child) :
    tree'.spansIn source children = tree.spansIn source children := by
  ext span
  refine exists_congr fun child => and_congr_right fun hmem => ?_
  rw [h child hmem]

end Tree

namespace Builder

open Dataflow.Tree

variable {builder builder' : Builder} {kind : NodeKind} {id : NodeId} {span : Span}
  {steps : List BuildStep}

/-- The span of a new node is derived from those of its children. -/
theorem coveringSpan_derives {children : List NodeId}
    (h : builder.coveringSpan children = .ok span) :
    span.source = builder.source ∧
      (span.IsHull (builder.spansIn builder.source children) ∨
        builder.spansIn builder.source children = ∅ ∧ span = .origin builder.source) := by
  rw [coveringSpan] at h
  obtain ⟨spans, hspans, h⟩ := bind_eq_ok_iff.mp h
  have hset : builder.spansIn builder.source children =
      {span | span ∈ spans.filter (·.source = builder.source)} := by
    ext span
    simp only [spansIn, Set.mem_ofPred_eq, List.mem_filter, decide_eq_true_eq]
    constructor
    · rintro ⟨child, hmem, hspan, hsource⟩
      obtain ⟨found, hfound, hchild⟩ := exists_of_mem_of_mapM hspans hmem
      rw [hspan] at hchild
      cases hchild
      exact ⟨hfound, hsource⟩
    · rintro ⟨hmem, hsource⟩
      obtain ⟨child, hchild, hspan⟩ := exists_of_mem_mapM hspans hmem
      exact ⟨child, hchild, hspan, hsource⟩
  rw [hset]
  split at h
  · next hnone =>
    cases h
    exact ⟨rfl, .inr ⟨by simp [hnone], rfl⟩⟩
  · next first rest hfilter =>
    have hsource : ∀ span ∈ first :: rest, span.source = builder.source := by
      intro span hmem
      rw [← hfilter] at hmem
      exact of_decide_eq_true (List.mem_filter.mp hmem).2
    obtain ⟨hfirst, hrest⟩ := List.forall_mem_cons.mp hsource
    obtain ⟨hull, hjoined, hhull⟩ :=
      Span.exists_joinAll fun span hmem => (hrest span hmem).trans hfirst.symm
    rw [hjoined] at h
    cases h
    rw [hfilter]
    refine ⟨?_, .inl hhull⟩
    rw [← hhull.source first List.mem_cons_self, hfirst]

theorem span_make (h : builder.make kind = .ok builder') :
    builder'.span builder.size = builder.coveringSpan kind.children := by
  rw [make_eq_add, add] at h
  obtain ⟨span, hspan, h⟩ := bind_eq_ok_iff.mp h
  obtain ⟨nodes, hnodes, h⟩ := bind_eq_ok_iff.mp h
  cases h
  have hnotMem : builder.size ∉ kind.children :=
    fun hmem => Nat.lt_irrefl _ (lt_size_of_coveringSpan hspan _ hmem)
  rw [hspan, span_eq_ok_iff]
  refine ⟨⟨kind, none, span⟩, ?_, rfl⟩
  rw [(foldlM_adopt_eq_ok hnodes).2.2, if_neg hnotMem]
  simp [Tree.size]

theorem span_make_of_lt (h : builder.make kind = .ok builder') (hid : id < builder.size) :
    builder'.span id = builder.span id := by
  obtain ⟨node, hnode⟩ := exists_node_of_lt hid
  rw [span_of_node (node_eq_ok_iff.mpr hnode),
    span_of_node (node_eq_ok_iff.mpr ((appends_of_make h).kept hnode))]

/-! ## Spans that stay -/

/-- If a step sets the span of a node, the node is loose. -/
def SetsLoose (builder : Builder) : BuildStep → Prop
  | .setSpan id _ => builder.IsLoose id
  | .node _ | .switchSource _ => True

/-- Some steps set the span of a node only while it is loose. -/
def SetsOnlyLoose (builder : Builder) (steps : List BuildStep) : Prop :=
  ∀ before step after between, steps = before ++ step :: after →
    builder.run before = .ok between → between.SetsLoose step

theorem run_singleton (builder : Builder) (step : BuildStep) :
    builder.run [step] = builder.step step := by
  rw [run, List.foldlM_cons]
  exact bind_pure _

theorem run_cons (builder : Builder) (step : BuildStep) (steps : List BuildStep) :
    builder.run (step :: steps) = builder.step step >>= (·.run steps) := by
  rw [← List.singleton_append, run_append, run_singleton]

theorem SetsOnlyLoose.behind {before : List BuildStep}
    (h : builder.SetsOnlyLoose (before ++ steps)) (hrun : builder.run before = .ok builder') :
    builder'.SetsOnlyLoose steps := by
  intro between step after found hsteps hfound
  refine h (before ++ between) step after found (by rw [hsteps, List.append_assoc]) ?_
  rw [run_append, hrun]
  exact hfound

theorem setsOnlyLoose_nil (builder : Builder) : builder.SetsOnlyLoose [] := by
  intro before step after between hsteps
  simp at hsteps

theorem setsOnlyLoose_cons {step : BuildStep} :
    builder.SetsOnlyLoose (step :: steps) ↔ builder.SetsLoose step ∧
      ∀ between, builder.step step = .ok between → between.SetsOnlyLoose steps := by
  constructor
  · intro h
    refine ⟨h [] step steps builder rfl rfl, ?_⟩
    intro between hstep
    exact SetsOnlyLoose.behind h (by rw [run_singleton, hstep])
  · rintro ⟨hfirst, hrest⟩ before later after between hsteps hrun
    cases before with
    | nil =>
      cases hsteps
      cases hrun
      exact hfirst
    | cons first before =>
      obtain ⟨rfl, rfl⟩ := List.cons.inj hsteps
      rw [run_cons] at hrun
      obtain ⟨next, hnext, hrun⟩ := bind_eq_ok_iff.mp hrun
      exact hrest next hnext before later after between rfl hrun

instance (builder : Builder) : DecidablePred builder.SetsLoose
  | .setSpan _ _ => inferInstanceAs (Decidable (_ ∧ _))
  | .node _ | .switchSource _ => inferInstanceAs (Decidable True)

instance decidableSetsOnlyLoose : (steps : List BuildStep) → (builder : Builder) →
    Decidable (builder.SetsOnlyLoose steps)
  | [], builder => isTrue builder.setsOnlyLoose_nil
  | step :: steps, builder =>
    match hstep : builder.step step with
    | .error _ => decidable_of_iff (builder.SetsLoose step) (by simp [setsOnlyLoose_cons, hstep])
    | .ok between =>
      have := decidableSetsOnlyLoose steps between
      decidable_of_iff (builder.SetsLoose step ∧ between.SetsOnlyLoose steps)
        (by simp [setsOnlyLoose_cons, hstep])

/-- A node that is not loose stays what it is in a step, but for its parent. -/
theorem kept_step {step : BuildStep} {node : Node} (hloose : builder.SetsLoose step)
    (h : builder.step step = .ok builder') (hnode : builder.nodes[id]? = some node)
    (htied : ¬ builder.IsLoose id) :
    ∃ parent, builder'.nodes[id]? = some { node with parent } ∧ ¬ builder'.IsLoose id := by
  cases step with
  | node kind =>
    have hkept := (appends_of_make h).kept hnode
    refine ⟨_, hkept, ?_⟩
    rw [isLoose_iff hnode] at htied
    rw [isLoose_iff hkept]
    rintro ⟨hchildren, hparent⟩
    split at hparent
    · cases hparent
    · exact htied ⟨hchildren, hparent⟩
  | switchSource source =>
    cases h
    exact ⟨node.parent, hnode, htied⟩
  | setSpan other span =>
    have hne : id ≠ other := by
      rintro rfl
      exact htied hloose
    have hkept : builder'.nodes[id]? = some node := by
      simp [(setSpan_eq_ok h).2 id, hnode, hne]
    refine ⟨node.parent, hkept, ?_⟩
    rwa [isLoose_iff hkept, ← isLoose_iff hnode]

/-- The span of a node that is not loose stays in a whole construction. -/
theorem span_run (hloose : builder.SetsOnlyLoose steps) (h : builder.run steps = .ok builder')
    (hid : id < builder.size) (htied : ¬ builder.IsLoose id) :
    builder'.span id = builder.span id := by
  induction steps generalizing builder with
  | nil =>
    cases h
    rfl
  | cons step steps ih =>
    obtain ⟨hfirst, hlater⟩ := setsOnlyLoose_cons.mp hloose
    rw [run_cons] at h
    obtain ⟨between, hstep, hrest⟩ := bind_eq_ok_iff.mp h
    obtain ⟨node, hnode⟩ := exists_node_of_lt hid
    obtain ⟨parent, hkept, htied'⟩ := kept_step hfirst hstep hnode htied
    rw [ih (hlater between hstep) hrest (lt_size_of_node hkept) htied',
      span_of_node (node_eq_ok_iff.mpr hkept), span_of_node (node_eq_ok_iff.mpr hnode)]

/-- A node that was made with children keeps the span that was derived from theirs. -/
theorem derivesSpan_of_make {made final : Builder} (hmake : builder.make kind = .ok made)
    (hloose : made.SetsOnlyLoose steps) (hrun : made.run steps = .ok final)
    (hchildren : kind.children ≠ []) :
    final.DerivesSpan builder.source builder.size kind.children := by
  obtain ⟨hlt, _, _⟩ := exists_make_iff.mp ⟨made, hmake⟩
  obtain ⟨span, hspan⟩ := exists_coveringSpan hlt
  have happends := appends_of_make hmake
  have hown : final.span builder.size = .ok span := by
    obtain ⟨_, hadded⟩ := happends.added
    rw [span_run hloose hrun (lt_size_of_node hadded), span_make hmake, hspan]
    rw [isLoose_iff hadded]
    exact fun h => hchildren h.1
  have hbelow : ∀ child ∈ kind.children, final.span child = builder.span child := by
    intro child hmem
    obtain ⟨node, hnode⟩ := exists_node_of_lt (hlt child hmem)
    have hkept := happends.kept hnode
    rw [span_run hloose hrun (lt_size_of_node hkept), span_make_of_lt hmake (hlt child hmem)]
    -- The new node has adopted the child.
    rw [isLoose_iff hkept]
    simp [hmem]
  rw [DerivesSpan, spansIn_congr builder.source hbelow]
  exact ⟨span, hown, coveringSpan_derives hspan⟩

theorem derivesSpan_of_run {made final : Builder} {before after : List BuildStep}
    (hloose : builder.SetsOnlyLoose (before ++ .node kind :: after))
    (hrun : builder.run (before ++ .node kind :: after) = .ok final)
    (hmade : builder.run before = .ok made) (hchildren : kind.children ≠ []) :
    final.DerivesSpan made.source made.size kind.children := by
  rw [run_append, hmade, ok_bind, run_cons] at hrun
  obtain ⟨next, hmake, hrun⟩ := bind_eq_ok_iff.mp hrun
  have hlater := (setsOnlyLoose_cons.mp (hloose.behind hmade)).2 next hmake
  exact derivesSpan_of_make hmake hlater hrun hchildren

/-- The current source is the given one, and all spans are in it. -/
def IsIn (builder : Builder) (source : SourceId) : Prop :=
  builder.source = source ∧ ∀ id span, builder.span id = .ok span → span.source = source

theorem isIn_step {source : SourceId} {step : BuildStep} (hin : builder.IsIn source)
    (hstays : step.StaysIn source) (h : builder.step step = .ok builder') :
    builder'.IsIn source := by
  obtain ⟨hsource, hspans⟩ := hin
  cases step with
  | node kind =>
    have happends := appends_of_make h
    refine ⟨by rw [happends.source, hsource], ?_⟩
    intro id span hspan
    by_cases hid : id < builder.size
    · rw [span_make_of_lt h hid] at hspan
      exact hspans id span hspan
    · obtain ⟨node, hnode, _⟩ := span_eq_ok_iff.mp hspan
      have hlt := lt_size_of_node hnode
      rw [happends.size] at hlt
      have hnew : id = builder.size := by lia
      rw [hnew, span_make h] at hspan
      rw [(coveringSpan_derives hspan).1, hsource]
  | switchSource other =>
    cases h
    exact ⟨hstays, hspans⟩
  | setSpan other span =>
    refine ⟨?_, ?_⟩
    · obtain ⟨node, _, h⟩ := bind_eq_ok_iff.mp h
      cases h
      exact hsource
    · intro id found hfound
      obtain ⟨node, hnode, rfl⟩ := span_eq_ok_iff.mp hfound
      rw [(setSpan_eq_ok h).2 id] at hnode
      obtain ⟨before, hbefore, rfl⟩ := Option.map_eq_some_iff.mp hnode
      split
      · exact hstays
      · exact hspans id _ (span_eq_ok_iff.mpr ⟨before, hbefore, rfl⟩)

theorem isIn_run {source : SourceId} (hstays : ∀ step ∈ steps, step.StaysIn source)
    (hin : builder.IsIn source) (h : builder.run steps = .ok builder') : builder'.IsIn source := by
  induction steps generalizing builder with
  | nil =>
    cases h
    exact hin
  | cons step steps ih =>
    obtain ⟨hfirst, hrest⟩ := List.forall_mem_cons.mp hstays
    rw [run_cons] at h
    obtain ⟨between, hstep, h⟩ := bind_eq_ok_iff.mp h
    exact ih hrest (isIn_step hin hfirst hstep) h

/-- Every node was made by a step, as many nodes after the beginning as its id says. -/
theorem exists_step_of_kind {source : SourceId} (hrun : (new source).run steps = .ok builder)
    (hkind : builder.kind id = .ok kind) :
    ∃ before after made, steps = before ++ .node kind :: after ∧
      (new source).run before = .ok made ∧ made.size = id := by
  induction steps using List.reverseRecOn generalizing builder with
  | nil =>
    cases hrun
    exact absurd (lt_size_of_kind hkind) (Nat.not_lt_zero id)
  | append_singleton steps step ih =>
    rw [run_append] at hrun
    obtain ⟨between, hbetween, hstep⟩ := bind_eq_ok_iff.mp hrun
    rw [run_singleton] at hstep
    have hold : between.kind id = .ok kind → ∃ before after made,
        steps ++ [step] = before ++ .node kind :: after ∧
          (new source).run before = .ok made ∧ made.size = id := by
      intro hold
      obtain ⟨before, after, made, hsteps, hmade, hsize⟩ := ih hbetween hold
      exact ⟨before, after ++ [step], made, by simp [hsteps], hmade, hsize⟩
    cases step with
    | node found =>
      rw [Builder.step, make] at hstep
      obtain hbefore | ⟨rfl, rfl⟩ := (kind_add_iff hstep).mp hkind
      · exact hold hbefore
      · exact ⟨steps, [], between, rfl, hbetween, rfl⟩
    | switchSource other =>
      cases hstep
      exact hold hkind
    | setSpan other span => exact hold ((kind_setSpan_iff hstep).mp hkind)

end Builder

namespace Tree

variable {tree : Tree} {id : NodeId} {span : Span}

/-! ## Spans of one source -/

/-- The spans of the childless ones of some nodes. -/
def leafSpans (tree : Tree) (entries : List (NodeId × NodeKind)) : Set Span :=
  {span | ∃ entry ∈ entries, entry.2.children = [] ∧ tree.span entry.1 = .ok span}

namespace IsForest

variable (hf : tree.IsForest)
include hf

theorem leafSpans_of_childless {kind : NodeKind} (hkind : tree.kind id = .ok kind)
    (hleaf : kind.children = []) (hspan : tree.span id = .ok span) :
    tree.leafSpans (tree.preorder id) = {span} := by
  ext other
  rw [hf.preorder_eq hkind, hleaf]
  simp [leafSpans, hleaf, hspan, eq_comm (a := span)]

theorem mem_leafSpans_iff {kind : NodeKind} (hkind : tree.kind id = .ok kind)
    (hinner : kind.children ≠ []) :
    span ∈ tree.leafSpans (tree.preorder id) ↔
      ∃ child ∈ kind.children, span ∈ tree.leafSpans (tree.preorder child) := by
  rw [hf.preorder_eq hkind]
  constructor
  · rintro ⟨entry, hmem, hleaf, hspan⟩
    obtain rfl | hmem := List.mem_cons.mp hmem
    · exact absurd hleaf hinner
    · obtain ⟨child, hchild, hmem⟩ := List.mem_flatMap.mp hmem
      exact ⟨child, hchild, entry, hmem, hleaf, hspan⟩
  · rintro ⟨child, hchild, entry, hmem, hleaf, hspan⟩
    exact ⟨entry, List.mem_cons_of_mem _ (List.mem_flatMap.mpr ⟨child, hchild, hmem⟩), hleaf, hspan⟩

/-- If all spans are in one source, every node has the hull of the childless nodes of its
subtree. -/
theorem isHull_leafSpans {source : SourceId}
    (hderived : ∀ id kind, tree.kind id = .ok kind → kind.children ≠ [] →
      ∃ source, tree.DerivesSpan source id kind.children)
    (hsource : ∀ id span, tree.span id = .ok span → span.source = source)
    (hspan : tree.span id = .ok span) : span.IsHull (tree.leafSpans (tree.preorder id)) := by
  induction id using Nat.strongRecOn generalizing span with
  | ind id ih =>
    obtain ⟨node, hnode, _⟩ := span_eq_ok_iff.mp hspan
    obtain ⟨kind, hkind⟩ := exists_kind_of_lt (lt_size_of_node hnode)
    by_cases hleaf : kind.children = []
    · rw [hf.leafSpans_of_childless hkind hleaf hspan]
      exact .singleton span
    · obtain ⟨found, derived, hderived, hfound, hhull⟩ := hderived id kind hkind hleaf
      cases hspan.symm.trans hderived
      -- No child is left out, and there is one.
      have hall : ∀ child ∈ kind.children, ∃ part, tree.span child = .ok part ∧
          part ∈ tree.spansIn found kind.children := by
        intro child hmem
        obtain ⟨part, hpart⟩ := exists_span_of_lt (hf.child_lt_size hkind hmem)
        exact ⟨part, hpart, child, hmem, hpart,
          by rw [hsource _ _ hpart, ← hfound, hsource _ _ hspan]⟩
      obtain hhull | ⟨hnone, _⟩ := hhull
      · refine hhull.of_parts ?_ ?_
        · rintro part ⟨child, hmem, hpart, _⟩
          refine ⟨_, ?_, ih child (hf.child_lt hkind hmem) hpart⟩
          intro leaf hbelow
          exact (hf.mem_leafSpans_iff hkind hleaf).mpr ⟨child, hmem, hbelow⟩
        · intro leaf hmem
          obtain ⟨child, hchild, hbelow⟩ := (hf.mem_leafSpans_iff hkind hleaf).mp hmem
          obtain ⟨part, hpart, hparts⟩ := hall child hchild
          exact ⟨part, hparts, _, ih child (hf.child_lt hkind hchild) hpart, hbelow⟩
      · obtain ⟨child, hchild⟩ := List.exists_mem_of_ne_nil _ hleaf
        obtain ⟨part, _, hparts⟩ := hall child hchild
        rw [hnone] at hparts
        exact hparts.elim

end IsForest

/-! ## Trees that were built -/

/-- The spans of a tree, if its construction set the span of a node only while it had
neither children nor a parent.  A node that was made with children, while some source was
the current one, is in that source; its span is the hull of those of its children that are
in the source, or the beginning of the source if there are none.  If all spans are in one
source, as they are if no step names another one, then the span of every node is the hull
of those of the childless nodes of its subtree, and covers the span of every node there. -/
theorem derived_spans_are_hulls {source : SourceId} {steps : List BuildStep}
    (hbuild : Tree.build source steps = .ok tree)
    (hloose : (Builder.new source).SetsOnlyLoose steps) :
    (∀ id kind, tree.kind id = .ok kind → kind.children ≠ [] →
      ∃ before after made, steps = before ++ .node kind :: after ∧
        (Builder.new source).run before = .ok made ∧ made.size = id ∧
        tree.DerivesSpan made.source id kind.children) ∧
    ((∀ step ∈ steps, step.StaysIn source) →
      ∀ id span, tree.span id = .ok span → span.source = source) ∧
    ∀ one, (∀ id span, tree.span id = .ok span → span.source = one) → ∀ id < tree.size,
      ∃ span entries, tree.span id = .ok span ∧ tree.subtree id = .ok entries ∧
        span.IsHull (tree.leafSpans entries) ∧
        ∀ entry ∈ entries, ∀ inner, tree.span entry.1 = .ok inner → span.Covers inner := by
  have hf := (isFinished_of_build hbuild).toIsForest
  obtain ⟨builder, hrun, hfinish⟩ := bind_eq_ok_iff.mp hbuild
  obtain ⟨rfl, _⟩ := Builder.finish_eq_ok (Builder.isForest_run hrun) hfinish
  have hderived : ∀ id kind, builder.kind id = .ok kind → kind.children ≠ [] →
      ∃ before after made, steps = before ++ .node kind :: after ∧
        (Builder.new source).run before = .ok made ∧ made.size = id ∧
        builder.DerivesSpan made.source id kind.children := by
    intro id kind hkind hchildren
    obtain ⟨before, after, made, rfl, hmade, rfl⟩ := Builder.exists_step_of_kind hrun hkind
    exact ⟨before, after, made, rfl, hmade, rfl,
      Builder.derivesSpan_of_run hloose hrun hmade hchildren⟩
  refine ⟨hderived, ?_, ?_⟩
  · intro hstays
    refine (Builder.isIn_run hstays ⟨rfl, ?_⟩ hrun).2
    intro id span hspan
    obtain ⟨node, hnode, _⟩ := span_eq_ok_iff.mp hspan
    exact absurd (lt_size_of_node hnode) (Nat.not_lt_zero id)
  · intro one hone id hid
    have hhull : ∀ {id span}, builder.span id = .ok span →
        span.IsHull (builder.leafSpans (builder.preorder id)) := by
      refine hf.isHull_leafSpans ?_ hone
      intro id kind hkind hchildren
      obtain ⟨_, _, made, _, _, _, hspan⟩ := hderived id kind hkind hchildren
      exact ⟨made.source, hspan⟩
    obtain ⟨span, hspan⟩ := exists_span_of_lt hid
    refine ⟨span, _, hspan, hf.subtree_eq_preorder hid, hhull hspan, ?_⟩
    intro entry hmem inner hinner
    have hunder := ((hf.mem_preorder_iff hid).mp hmem).1
    refine (hhull hspan).covers (hhull hinner) ?_
    rintro leaf ⟨below, hbelow, hleaf⟩
    exact ⟨below, (hf.preorder_infix hunder).subset hbelow, hleaf⟩

/-- A constructor of source 1, one of whose arguments begins behind its end, in a data
type of source 2, in a document of source 3. -/
def stretches : List BuildStep := [
  .node (.type .integer),
  .setSpan 0 ⟨1, 9, 4⟩,
  .node (.type .string),
  .setSpan 1 ⟨1, 12, 20⟩,
  .node (.constructor "Mk" [0, 1]),
  .switchSource 2,
  .node (.typeParameter "t"),
  .setSpan 3 ⟨2, 5, 6⟩,
  .node (.dataType "D" [3] [2]),
  .switchSource 3,
  .node (.file [4])]

theorem derived_spans_are_hulls_stretches :
    ∃ tree part, Tree.build 1 stretches = .ok tree ∧ (Builder.new 1).SetsOnlyLoose stretches ∧
      tree.span 4 = .ok ⟨2, 5, 6⟩ ∧ tree.DerivesSpan 2 4 [3, 2] ∧
      tree.span 5 = .ok (.origin 3) ∧ tree.DerivesSpan 3 5 [4] ∧
      Tree.build 1 (stretches.take 5) = .ok part ∧ part.span 2 = .ok ⟨1, 9, 20⟩ ∧
      ∃ entries, part.subtree 2 = .ok entries ∧
        Span.IsHull ⟨1, 9, 20⟩ (part.leafSpans entries) := by
  have hloose : (Builder.new 1).SetsOnlyLoose stretches := by decide +kernel
  have hloose' : (Builder.new 1).SetsOnlyLoose (stretches.take 5) := by decide +kernel
  obtain ⟨tree, hbuild⟩ : ∃ tree, Tree.build 1 stretches = .ok tree := ⟨_, rfl⟩
  obtain ⟨part, hbuild'⟩ : ∃ part, Tree.build 1 (stretches.take 5) = .ok part := ⟨_, rfl⟩
  obtain ⟨hderived, _, _⟩ := derived_spans_are_hulls hbuild hloose
  obtain ⟨_, hstays, hhulls⟩ := derived_spans_are_hulls hbuild' hloose'
  -- The source in which a node was made is that of its span.
  have hsource : ∀ id kind span, tree.kind id = .ok kind → kind.children ≠ [] →
      tree.span id = .ok span → tree.DerivesSpan span.source id kind.children := by
    intro id kind span hkind hchildren hspan
    obtain ⟨_, _, made, _, _, _, hmade⟩ := hderived id kind hkind hchildren
    have hsame : span.source = made.source := by
      obtain ⟨found, hfound, hsame, _⟩ := hmade
      cases hspan.symm.trans hfound
      exact hsame
    rw [hsame]
    exact hmade
  have hdata : tree.span 4 = .ok ⟨2, 5, 6⟩ := by
    cases hbuild
    rfl
  have hfile : tree.span 5 = .ok (.origin 3) := by
    cases hbuild
    rfl
  have hmixed : part.span 2 = .ok ⟨1, 9, 20⟩ := by
    cases hbuild'
    rfl
  refine ⟨tree, part, hbuild, hloose, hdata, ?_, hfile, ?_, hbuild', hmixed, ?_⟩
  · exact hsource 4 (.dataType "D" [3] [2]) _ (by cases hbuild; rfl) (by decide) hdata
  · exact hsource 5 (.file [4]) _ (by cases hbuild; rfl) (by decide) hfile
  · have hone := hstays (by simp [stretches, BuildStep.StaysIn])
    obtain ⟨span, entries, hspan, hentries, hhull, _⟩ :=
      hhulls 1 hone 2 (by cases hbuild'; decide)
    cases hmixed.symm.trans hspan
    exact ⟨entries, hentries, hhull⟩

end Tree

end Dataflow
