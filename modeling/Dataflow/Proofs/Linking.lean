import Dataflow.Proofs.Resolving

/-!
# Dataflow.Proofs.Linking

What linking leaves behind.  Each document is linked once, in two lots, by the
table as it is then.  Still the finished table resolves every reference of the
linked documents to what was taken down for it (`Workspace.Linked`): what is
bound later lies in other documents or is the port of an instance, and no
scope looks at either.  `Workspace.Linked.exists_link` is the step for one
document, `Workspace.Linked.exists_linkAll` the run over many.
-/

namespace Dataflow

/-! ## The two lots of a document -/

namespace Tree

variable {tree : Tree}

/-- The references below a node that are not the port of an instance. -/
def firstLot (tree : Tree) (root : NodeId) : List Reference :=
  (tree.referencesBelow root).filter (·.site.slot ≠ .nodePort)

/-- The references below a node that are the port of an instance. -/
def portLot (tree : Tree) (root : NodeId) : List Reference :=
  (tree.referencesBelow root).filter (·.site.slot = .nodePort)

/-- The references below a node in the order in which they are bound. -/
def linkOrder (tree : Tree) (root : NodeId) : List Reference :=
  tree.firstLot root ++ tree.portLot root

theorem mem_linkOrder_iff {root : NodeId} {reference : Reference} :
    reference ∈ tree.linkOrder root ↔ reference ∈ tree.referencesBelow root := by
  simp only [linkOrder, firstLot, portLot, List.mem_append, List.mem_filter, decide_eq_true_eq]
  by_cases h : reference.site.slot = .nodePort <;> simp [h]

theorem perm_linkOrder (tree : Tree) (root : NodeId) :
    (tree.linkOrder root).Perm (tree.referencesBelow root) := by
  have hperm := List.filter_append_perm
    (fun reference : Reference => decide (reference.site.slot ≠ .nodePort))
    (tree.referencesBelow root)
  simpa [linkOrder, firstLot, portLot] using hperm

namespace IsFinished

variable (hf : tree.IsFinished) {roots : List NodeId}
include hf

theorem mem_flatMap_linkOrder (hroots : ∀ root ∈ roots, root ∈ tree.files)
    {reference : Reference} (h : reference ∈ roots.flatMap tree.linkOrder) :
    tree.IsReference reference ∧ ∃ root ∈ roots, tree.Under reference.site.node root := by
  obtain ⟨root, hroot, hmem⟩ := List.mem_flatMap.mp h
  have hbelow := mem_linkOrder_iff.mp hmem
  exact ⟨hf.isReference_of_mem (hroots root hroot) hbelow, root, hroot,
    ((hf.mem_referencesBelow_iff (hroots root hroot)).mp hbelow).1⟩

/-- No site comes twice in the documents. -/
theorem nodup_linkOrder (hroots : ∀ root ∈ roots, root ∈ tree.files) (hnodup : roots.Nodup) :
    ((roots.flatMap tree.linkOrder).map (·.site)).Nodup := by
  rw [List.map_flatMap, List.nodup_flatMap]
  refine ⟨?_, ?_⟩
  · intro root hroot
    have hnodup := hf.nodup_referencesBelow (hf.file_lt_size (hroots root hroot))
    exact ((tree.perm_linkOrder root).map _).nodup_iff.mpr hnodup
  · refine hnodup.imp_of_mem ?_
    intro first second hfirst hsecond hne site hsite hsite'
    obtain ⟨a, ha, rfl⟩ := List.mem_map.mp hsite
    obtain ⟨b, hb, heq⟩ := List.mem_map.mp hsite'
    have ha := (hf.mem_referencesBelow_iff (hroots first hfirst)).mp (mem_linkOrder_iff.mp ha)
    have hb := (hf.mem_referencesBelow_iff (hroots second hsecond)).mp (mem_linkOrder_iff.mp hb)
    rw [heq] at hb
    exact hne (hf.file_eq (hroots first hfirst) (hroots second hsecond) ha.1 hb.1)

theorem nodup_sites {resolved : List (Reference × Resolution)}
    (horder : resolved.map (·.1) = roots.flatMap tree.linkOrder)
    (hroots : ∀ root ∈ roots, root ∈ tree.files) (hnodup : roots.Nodup) :
    (resolved.map (·.1.site)).Nodup := by
  have hsites : resolved.map (·.1.site) = (roots.flatMap tree.linkOrder).map (·.site) := by
    rw [← horder, List.map_map]
    rfl
  rw [hsites]
  exact hf.nodup_linkOrder hroots hnodup

end IsFinished

end Tree

/-! ## Linking documents -/

namespace Workspace

variable {ws : Workspace}

theorem lots_eq (hf : ws.tree.IsForest) {root : NodeId} (hroot : root < ws.tree.size) :
    ws.lots root = .ok (ws.tree.firstLot root, ws.tree.portLot root) := by
  rw [lots, hf.references_eq hroot, ok_bind, List.partition_eq_filter_filter]
  simp only [pure_eq_ok, Tree.firstLot, Tree.portLot]
  congr 3
  ext reference
  simp

theorem lots_file (hf : ws.tree.IsFinished) {root : NodeId} (hroot : root ∈ ws.tree.files) :
    ws.lots root = .ok (ws.tree.firstLot root, ws.tree.portLot root) :=
  lots_eq hf.toIsForest (hf.file_lt_size hroot)

theorem link_file (hf : ws.tree.IsFinished) {root : NodeId} (hroot : root ∈ ws.tree.files)
    (analysis : Analysis) :
    ws.link root analysis =
      ws.bindAll (ws.tree.firstLot root) analysis >>= ws.bindAll (ws.tree.portLot root) := by
  rw [link, lots_file hf hroot]
  rfl

/-- Linking a document binds its two lots. -/
theorem link_of_binds (hf : ws.tree.IsFinished) {root : NodeId} (hroot : root ∈ ws.tree.files)
    {analysis : Analysis} {first ports : List (Reference × Resolution)}
    (hfirst : ws.Binds (ws.tree.firstLot root) analysis first)
    (hports : ws.Binds (ws.tree.portLot root) (analysis.record first) ports) :
    ws.link root analysis = .ok (analysis.record (first ++ ports)) := by
  rw [link_file hf hroot, hfirst.bindAll, ok_bind, hports.bindAll, analysis.record_append]

/-- Some documents were linked: their references, in order, came to what the
table resolves them to, and nothing else is bound or reported. -/
structure Linked (ws : Workspace) (roots : List NodeId) (analysis : Analysis)
    (resolved : List (Reference × Resolution)) : Prop
    extends ws.Resolves analysis.links (roots.flatMap ws.tree.linkOrder) resolved where
  recorded : analysis = (∅ : Analysis).record resolved
  supports : ws.Supports analysis.links

theorem linked_nil (ws : Workspace) : ws.Linked [] ∅ [] where
  order := rfl
  resolve _ hmem := absurd hmem List.not_mem_nil
  recorded := rfl
  supports := ws.supports_empty

/-- What is bound in other documents, or to the port of an instance, does not
change a scope. -/
theorem scope_bindAll (hw : ws.tree.WellShaped) {links : Links} (hs : ws.Supports links)
    {root : NodeId} (hroot : root ∈ ws.tree.files) {site : Site}
    (hunder : ws.tree.Under site.node root) {later : List (Reference × Resolution)}
    (hlater : ∀ entry ∈ later, ws.tree.Under entry.1.site.node root →
      entry.1.site.slot = .nodePort) :
    ws.scope (links.bindAll later) site = ws.scope links site := by
  refine (scope_congr hw hs hroot hunder site.slot ?_).symm
  intro id slot hid hslot
  refine (Links.get?_bindAll_of_not_mem ?_).symm
  intro hmem
  obtain ⟨entry, hentry, hsite⟩ := List.mem_map.mp hmem
  refine hslot ?_
  have hport := hlater entry hentry
  rw [hsite] at hport
  exact hport hid

namespace Linked

variable {roots : List NodeId} {analysis : Analysis} {resolved : List (Reference × Resolution)}

theorem links (h : ws.Linked roots analysis resolved) :
    analysis.links = (∅ : Links).bindAll resolved :=
  congrArg Analysis.links h.recorded

theorem of_mem (hf : ws.tree.IsFinished) (h : ws.Linked roots analysis resolved)
    (hroots : ∀ root ∈ roots, root ∈ ws.tree.files) {entry : Reference × Resolution}
    (hmem : entry ∈ resolved) :
    ws.tree.IsReference entry.1 ∧ ∃ root ∈ roots, ws.tree.Under entry.1.site.node root :=
  hf.mem_flatMap_linkOrder hroots (h.mem hmem)

/-- What is bound in a new document does not change the scopes of those that
are linked. -/
theorem scope_record (hw : ws.tree.WellShaped) (h : ws.Linked roots analysis resolved)
    (hroots : ∀ root ∈ roots, root ∈ ws.tree.files) {root : NodeId}
    (hroot : root ∈ ws.tree.files) (hnew : root ∉ roots) {later : List (Reference × Resolution)}
    (hlater : ∀ entry ∈ later, ws.tree.Under entry.1.site.node root)
    {entry : Reference × Resolution} (hmem : entry ∈ resolved) :
    ws.scope (analysis.record later).links entry.1.site =
      ws.scope analysis.links entry.1.site := by
  obtain ⟨_, other, hother, hunder⟩ := h.of_mem hw.toIsFinished hroots hmem
  refine scope_bindAll hw h.supports (hroots other hother) hunder ?_
  intro new hnew' hunder'
  have heq := hw.file_eq (hroots other hother) hroot hunder' (hlater new hnew')
  exact absurd (heq ▸ hother) hnew

/-- Linking one more document.  The references that were bound before keep what
they came to, because the new ones lie in another document; those of the first
lot do so because their scopes look at no table, and the ports of instances
because their scopes look at the first lot only. -/
theorem exists_link (hr : ws.IsRegular) (h : ws.Linked roots analysis resolved)
    (hroots : ∀ root ∈ roots, root ∈ ws.tree.files) {root : NodeId}
    (hroot : root ∈ ws.tree.files) (hnew : root ∉ roots) :
    ∃ first ports, ws.Binds (ws.tree.firstLot root) analysis first ∧
      ws.Binds (ws.tree.portLot root) (analysis.record first) ports ∧
      ws.Linked (roots ++ [root]) (analysis.record (first ++ ports))
        (resolved ++ (first ++ ports)) := by
  have hw := hr.wellShaped
  have hbelow : ∀ reference ∈ ws.tree.linkOrder root,
      ws.tree.IsReference reference ∧ ws.tree.Under reference.site.node root := by
    intro reference hmem
    have hmem := Tree.mem_linkOrder_iff.mp hmem
    exact ⟨hw.isReference_of_mem hroot hmem, ((hw.mem_referencesBelow_iff hroot).mp hmem).1⟩
  obtain ⟨first, hfirst⟩ := hr.exists_binds analysis h.supports
    fun reference hmem => (hbelow reference (List.mem_append_left _ hmem)).1
  obtain ⟨ports, hports⟩ := hr.exists_binds (analysis.record first) hfirst.supports
    fun reference hmem => (hbelow reference (List.mem_append_right _ hmem)).1
  have horder : (first ++ ports).map (·.1) = ws.tree.linkOrder root := by
    rw [List.map_append, hfirst.order, hports.order, Tree.linkOrder]
  have hunder : ∀ entry ∈ first ++ ports, ws.tree.Under entry.1.site.node root :=
    fun entry hmem => (hbelow entry.1 (horder ▸ List.mem_map_of_mem hmem)).2
  refine ⟨first, ports, hfirst, hports, ?_, ?_, ?_⟩
  · rw [List.flatMap_append, List.flatMap_singleton]
    refine .append (h.toResolves.congr ?_) (.append (hfirst.toResolves.congr ?_) ?_)
    · intro entry hmem
      exact h.scope_record hw hroots hroot hnew hunder hmem
    · intro entry hmem
      have hslot := (List.mem_filter.mp (hfirst.mem hmem)).2
      exact scope_eq_of_ne_nodePort (of_decide_eq_true hslot) _ _
    · rw [Analysis.record_append]
      refine hports.toResolves.congr ?_
      intro entry hmem
      refine scope_bindAll hw hfirst.supports hroot (hunder entry (List.mem_append_right _ hmem)) ?_
      intro later hlater _
      exact of_decide_eq_true (List.mem_filter.mp (hports.mem hlater)).2
  · rw [(∅ : Analysis).record_append, ← h.recorded]
  · rw [Analysis.record_append]
    exact hports.supports

/-- Linking some more documents. -/
theorem exists_linkAll (hr : ws.IsRegular) {more : List NodeId}
    (h : ws.Linked roots analysis resolved)
    (hroots : ∀ root ∈ roots ++ more, root ∈ ws.tree.files) (hnodup : (roots ++ more).Nodup) :
    ∃ added, ws.linkAll more analysis = .ok (analysis.record added) ∧
      ws.Linked (roots ++ more) (analysis.record added) (resolved ++ added) := by
  induction more generalizing roots analysis resolved with
  | nil =>
    refine ⟨[], rfl, ?_⟩
    rw [List.append_nil, List.append_nil]
    exact h
  | cons root more ih =>
    have hroot : root ∈ ws.tree.files := hroots root (by simp)
    have hnew : root ∉ roots := by
      intro hmem
      exact (List.nodup_append.mp hnodup).2.2 root hmem root List.mem_cons_self rfl
    obtain ⟨first, ports, hfirst, hports, hlinked⟩ :=
      h.exists_link hr (fun other hother => hroots other (List.mem_append_left _ hother)) hroot hnew
    have happend : roots ++ [root] ++ more = roots ++ root :: more := by simp
    rw [← happend] at hroots hnodup
    obtain ⟨added, hrest, hlinked⟩ := ih hlinked hroots hnodup
    refine ⟨first ++ ports ++ added, ?_, ?_⟩
    · rw [linkAll, List.foldlM_cons, link_of_binds hr.wellShaped.toIsFinished hroot hfirst hports,
        analysis.record_append (first ++ ports)]
      exact hrest
    · rw [← happend, ← List.append_assoc, analysis.record_append (first ++ ports)]
      exact hlinked

/-- What linking more documents adds, it adds in their order. -/
theorem order_append {more : List NodeId} {last : Analysis}
    {added : List (Reference × Resolution)} (h : ws.Linked roots analysis resolved)
    (hmore : ws.Linked (roots ++ more) last (resolved ++ added)) :
    added.map (·.1) = more.flatMap ws.tree.linkOrder := by
  have horder := hmore.order
  rw [List.map_append, h.order, List.flatMap_append] at horder
  exact List.append_cancel_left horder

/-- Every reference of the linked documents came to something. -/
theorem exists_entry (hf : ws.tree.IsFinished) (h : ws.Linked roots analysis resolved)
    (hroots : ∀ root ∈ roots, root ∈ ws.tree.files) {reference : Reference}
    (href : ws.tree.IsReference reference) {root : NodeId} (hroot : root ∈ roots)
    (hunder : ws.tree.Under reference.site.node root) :
    ∃ resolution, (reference, resolution) ∈ resolved := by
  have hbelow : reference ∈ ws.tree.referencesBelow root :=
    (hf.mem_referencesBelow_iff (hroots root hroot)).mpr ⟨hunder, href.2⟩
  have hmem : reference ∈ resolved.map (·.1) := by
    rw [h.order]
    exact List.mem_flatMap.mpr ⟨root, hroot, Tree.mem_linkOrder_iff.mpr hbelow⟩
  obtain ⟨⟨_, resolution⟩, hentry, rfl⟩ := List.mem_map.mp hmem
  exact ⟨resolution, hentry⟩

theorem nodup_sites (hf : ws.tree.IsFinished) (h : ws.Linked roots analysis resolved)
    (hroots : ∀ root ∈ roots, root ∈ ws.tree.files) (hnodup : roots.Nodup) :
    (resolved.map (·.1.site)).Nodup :=
  hf.nodup_sites h.order hroots hnodup

/-- The table holds what the references came to. -/
theorem get?_of_mem (hf : ws.tree.IsFinished) (h : ws.Linked roots analysis resolved)
    (hroots : ∀ root ∈ roots, root ∈ ws.tree.files) (hnodup : roots.Nodup)
    {entry : Reference × Resolution} (hmem : entry ∈ resolved) :
    analysis.links.get? entry.1.site = entry.2.target? := by
  rw [h.links, Links.get?_bindAll_of_mem (h.nodup_sites hf hroots hnodup) hmem,
    Links.get?_empty, Option.or_none]

/-- Nothing else is bound. -/
theorem exists_of_get? (h : ws.Linked roots analysis resolved) {site : Site} {target : NodeId}
    (htarget : analysis.links.get? site = some target) :
    ∃ entry ∈ resolved, entry.1.site = site := by
  rw [h.links] at htarget
  obtain hempty | ⟨entry, hmem, hsite, _⟩ := Links.of_get?_bindAll htarget
  · rw [Links.get?_empty] at hempty
    cases hempty
  · exact ⟨entry, hmem, hsite⟩

end Linked

theorem linkAll_append (before after : List NodeId) (analysis : Analysis) :
    ws.linkAll (before ++ after) analysis =
      ws.linkAll before analysis >>= ws.linkAll after :=
  List.foldlM_append

/-- One more document is linked. -/
theorem linkAll_concat {before : List NodeId} {root : NodeId} {analysis linked next : Analysis}
    (hlinked : ws.linkAll before analysis = .ok linked) (hnext : ws.link root linked = .ok next) :
    ws.linkAll (before ++ [root]) analysis = .ok next := by
  rw [linkAll_append, hlinked, ok_bind, linkAll, List.foldlM_cons, hnext]
  rfl

/-- A document is linked by the table that the documents before it left, and
the ports of its instances by that table and its own first lot.  They see then
what they see in the end. -/
theorem IsRegular.exists_stage (hr : ws.IsRegular) {before after : List NodeId} {root : NodeId}
    (hfiles : ws.tree.files = before ++ root :: after) :
    ∃ earlier first last, ws.linkAll before ∅ = .ok earlier ∧ ws.Supports earlier.links ∧
      ws.Binds (ws.tree.firstLot root) earlier first ∧
      ws.linkAll ws.tree.files ∅ = .ok last ∧
      ∀ reference ∈ ws.tree.portLot root,
        ws.scope (earlier.record first).links reference.site =
          ws.scope last.links reference.site := by
  have hw := hr.wellShaped
  have hsplit : ws.tree.files = before ++ [root] ++ after := by simp [hfiles]
  have hall : ∀ other ∈ before ++ [root] ++ after, other ∈ ws.tree.files := by simp [hsplit]
  have hroot : root ∈ ws.tree.files := hall root (by simp)
  have hbefore : ∀ other ∈ before, other ∈ ws.tree.files := fun other h => hall other (by simp [h])
  have hafter : ∀ other ∈ after, other ∈ ws.tree.files := fun other h => hall other (by simp [h])
  have hnodup : (before ++ [root] ++ after).Nodup := hsplit ▸ hw.nodup_files
  obtain ⟨hnodupBefore, _, hdistinct⟩ := List.nodup_append.mp hnodup
  have hnew : root ∉ before :=
    fun hmem => (List.nodup_append.mp hnodupBefore).2.2 root hmem root (by simp) rfl
  obtain ⟨resolved, hearlier, hlinkedBefore⟩ := ws.linked_nil.exists_linkAll hr
    hbefore (List.nodup_append.mp hnodupBefore).1
  generalize (∅ : Analysis).record resolved = earlier at hearlier hlinkedBefore
  obtain ⟨first, ports, hfirst, hports, hlinked⟩ := hlinkedBefore.exists_link hr hbefore hroot hnew
  obtain ⟨added, hlast, hlinkedAll⟩ := hlinked.exists_linkAll hr hall hnodup
  have hlinkAll : ws.linkAll ws.tree.files ∅ = .ok (earlier.record (first ++ ports ++ added)) := by
    rw [hsplit, linkAll_append, linkAll_append, hearlier, ok_bind, linkAll, List.foldlM_cons,
      link_of_binds hw.toIsFinished hroot hfirst hports, earlier.record_append (first ++ ports)]
    exact hlast
  refine ⟨earlier, first, _, hearlier, hlinkedBefore.supports, hfirst, hlinkAll, ?_⟩
  intro reference hmem
  have hunder := ((hw.mem_referencesBelow_iff hroot).mp (List.mem_filter.mp hmem).1).1
  rw [List.append_assoc, earlier.record_append]
  refine (scope_bindAll hw hfirst.supports hroot hunder ?_).symm
  intro entry hentry hunder'
  obtain hentry | hentry := List.mem_append.mp hentry
  · exact of_decide_eq_true (List.mem_filter.mp (hports.mem hentry)).2
  · -- What is linked afterwards lies in other documents.
    have hmore : entry.1 ∈ after.flatMap ws.tree.linkOrder :=
      hlinked.order_append hlinkedAll ▸ List.mem_map_of_mem hentry
    obtain ⟨_, other, hother, hunderOther⟩ := hw.mem_flatMap_linkOrder hafter hmore
    have heq := hw.file_eq hroot (hafter other hother) hunder' hunderOther
    exact absurd heq (hdistinct root (by simp) other hother)

end Workspace

end Dataflow
