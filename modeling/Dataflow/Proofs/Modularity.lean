import Mathlib.Tactic.Choose
import Dataflow.Proofs.Linking

/-!
# Dataflow.Proofs.Modularity

Documents of a regular workspace can be linked alone and in any order
(`Workspace.linkAll_perm_files`).  They share the declarations of the index and
one table, but no document looks at what the table holds for another: two
linkings that have a document in common agree on what is visible in it
(`Workspace.Linked.scope_eq`), so its references come to the same in both.
-/

namespace Dataflow

/-! ## Tables put together -/

namespace Links

/-- A table put together from tables that bind different sites. -/
structure IsDisjointUnion (links : Links) (parts : List Links) : Prop where
  get?_eq_some_iff (site : Site) (target : NodeId) :
    links.get? site = some target ↔ ∃ part ∈ parts, part.get? site = some target
  disjoint : parts.Pairwise fun first second =>
    ∀ site, first.get? site = none ∨ second.get? site = none

/-- The order of the parts does not count. -/
theorem IsDisjointUnion.eq_of_perm {links links' : Links} {parts parts' : List Links}
    (h : links.IsDisjointUnion parts) (h' : links'.IsDisjointUnion parts')
    (hperm : parts.Perm parts') : links = links' := by
  ext1 site
  ext target
  simp only [h.get?_eq_some_iff, h'.get?_eq_some_iff, hperm.mem_iff]

end Links

theorem Analysis.messages_record (analysis : Analysis)
    (resolved : List (Reference × Resolution)) :
    (analysis.record resolved).diagnostics.messages =
      analysis.diagnostics.messages ++ resolved.filterMap (·.2.diagnostic?) :=
  analysis.diagnostics.messages_addAll _

namespace Workspace

variable {ws : Workspace}

/-! ## Two linkings -/

/-- A table determines what references come to. -/
theorem Resolves.resolveAll {links : Links} {references : List Reference}
    {resolved : List (Reference × Resolution)} (h : ws.Resolves links references resolved) :
    ws.resolveAll links references = .ok resolved := by
  rw [← h.order, Workspace.resolveAll, mapM_eq_ok_iff, List.forall₂_map_left_iff,
    List.forall₂_same]
  intro entry hmem
  rw [h.resolve entry hmem]
  rfl

theorem Resolves.eq {links : Links} {references : List Reference}
    {resolved resolved' : List (Reference × Resolution)}
    (h : ws.Resolves links references resolved) (h' : ws.Resolves links references resolved') :
    resolved = resolved' :=
  Except.ok.inj (h.resolveAll.symm.trans h'.resolveAll)

namespace Linked

/-- The table binds the references of the linked documents to what they came to,
and nothing else. -/
theorem get?_eq_some_iff {roots : List NodeId} {analysis : Analysis}
    {resolved : List (Reference × Resolution)} (hf : ws.tree.IsFinished)
    (h : ws.Linked roots analysis resolved) (hroots : ∀ root ∈ roots, root ∈ ws.tree.files)
    (hnodup : roots.Nodup) {site : Site} {target : NodeId} :
    analysis.links.get? site = some target ↔
      ∃ entry ∈ resolved, entry.1.site = site ∧ entry.2.target? = some target := by
  constructor
  · intro htarget
    obtain ⟨entry, hmem, rfl⟩ := h.exists_of_get? htarget
    rw [h.get?_of_mem hf hroots hnodup hmem] at htarget
    exact ⟨entry, hmem, rfl, htarget⟩
  · rintro ⟨entry, hmem, rfl, htarget⟩
    rw [h.get?_of_mem hf hroots hnodup hmem, htarget]

section

variable {roots roots' : List NodeId} {analysis analysis' : Analysis}
  {resolved resolved' : List (Reference × Resolution)} {root : NodeId}
  (hw : ws.tree.WellShaped) (h : ws.Linked roots analysis resolved)
  (hroots : ∀ root ∈ roots, root ∈ ws.tree.files) (hnodup : roots.Nodup)
  (h' : ws.Linked roots' analysis' resolved')
  (hroots' : ∀ root ∈ roots', root ∈ ws.tree.files) (hnodup' : roots'.Nodup)
include hw h hroots hnodup h' hroots' hnodup'

/-- References that are not the port of an instance are bound alike wherever
their document is linked: their scopes look at no table. -/
theorem get?_of_get? (hroot' : root ∈ roots') {site : Site}
    (hunder : ws.tree.Under site.node root) (hslot : site.slot ≠ .nodePort) {target : NodeId}
    (htarget : analysis.links.get? site = some target) :
    analysis'.links.get? site = some target := by
  obtain ⟨⟨reference, resolution⟩, hmem, rfl, hresolution⟩ :=
    (h.get?_eq_some_iff hw.toIsFinished hroots hnodup).mp htarget
  have href := (h.of_mem hw.toIsFinished hroots hmem).1
  obtain ⟨other, hmem'⟩ := h'.exists_entry hw.toIsFinished hroots' href hroot' hunder
  -- The other linking came to something for the same reference, and it can only be this.
  have hsame : ws.resolve analysis.links reference = ws.resolve analysis'.links reference :=
    resolve_congr (scope_eq_of_ne_nodePort hslot _ _)
  rw [h.resolve _ hmem, h'.resolve _ hmem'] at hsame
  cases hsame
  exact (h'.get?_eq_some_iff hw.toIsFinished hroots' hnodup').mpr ⟨_, hmem', rfl, hresolution⟩

/-- What is visible in a document hangs on that document and the index alone. -/
theorem scope_eq (hroot : root ∈ roots) (hroot' : root ∈ roots') {site : Site}
    (hunder : ws.tree.Under site.node root) :
    ws.scope analysis.links site = ws.scope analysis'.links site := by
  refine scope_congr hw h.supports (hroots root hroot) hunder site.slot ?_
  intro id slot hid hslot
  ext target
  constructor
  · exact h.get?_of_get? hw hroots hnodup h' hroots' hnodup' hroot' hid hslot
  · exact h'.get?_of_get? hw hroots' hnodup' h hroots hnodup hroot hid hslot

end

end Linked

/-! ## Linking alone -/

theorem linkAll_singleton (root : NodeId) (analysis : Analysis) :
    ws.linkAll [root] analysis = ws.link root analysis := by
  rw [linkAll, List.foldlM_cons]
  exact bind_pure _

theorem IsRegular.exists_linked (hr : ws.IsRegular) {roots : List NodeId}
    (hroots : ∀ root ∈ roots, root ∈ ws.tree.files) (hnodup : roots.Nodup) :
    ∃ resolved, ws.linkAll roots ∅ = .ok ((∅ : Analysis).record resolved) ∧
      ws.Linked roots ((∅ : Analysis).record resolved) resolved := by
  obtain ⟨resolved, hlinkAll, hlinked⟩ := ws.linked_nil.exists_linkAll hr hroots hnodup
  exact ⟨resolved, hlinkAll, hlinked⟩

theorem Linked.under_of_mem {root : NodeId} {analysis : Analysis}
    {resolved : List (Reference × Resolution)} (hf : ws.tree.IsFinished)
    (hroot : root ∈ ws.tree.files) (h : ws.Linked [root] analysis resolved)
    {entry : Reference × Resolution} (hmem : entry ∈ resolved) :
    ws.tree.Under entry.1.site.node root := by
  obtain ⟨_, other, hother, hunder⟩ := h.of_mem hf (by simpa using hroot) hmem
  exact List.mem_singleton.mp hother ▸ hunder

section

variable {own : NodeId → List (Reference × Resolution)} (hr : ws.IsRegular)
  (hown : ∀ root ∈ ws.tree.files,
    ws.Linked [root] ((∅ : Analysis).record (own root)) (own root))
  {roots : List NodeId} (hroots : ∀ root ∈ roots, root ∈ ws.tree.files) (hnodup : roots.Nodup)
include hr hown hroots hnodup

/-- Wherever a document is linked, its references come to what they come to when
it is linked alone. -/
theorem Linked.eq_flatMap {analysis : Analysis} {resolved : List (Reference × Resolution)}
    (h : ws.Linked roots analysis resolved) : resolved = roots.flatMap own := by
  -- By this table a document sees what it sees by the table of its own.
  have hsame : ∀ root ∈ roots,
      ws.Resolves analysis.links (ws.tree.linkOrder root) (own root) := by
    intro root hroot
    have halone := hown root (hroots root hroot)
    have hresolves := halone.toResolves
    rw [List.flatMap_singleton] at hresolves
    refine hresolves.congr ?_
    intro entry hmem
    exact h.scope_eq hr.wellShaped hroots hnodup halone (by simpa using hroots root hroot)
      (List.nodup_singleton root) hroot (List.mem_singleton_self root)
      (halone.under_of_mem hr.wellShaped.toIsFinished (hroots root hroot) hmem)
  refine h.toResolves.eq ⟨?_, ?_⟩
  · rw [List.map_flatMap]
    exact List.flatMap_congr fun root hroot => (hsame root hroot).order
  · intro entry hmem
    obtain ⟨root, hroot, hmem⟩ := List.mem_flatMap.mp hmem
    exact (hsame root hroot).resolve entry hmem

theorem linkAll_eq_flatMap :
    ws.linkAll roots ∅ = .ok ((∅ : Analysis).record (roots.flatMap own)) := by
  obtain ⟨resolved, hlinkAll, hlinked⟩ := hr.exists_linked hroots hnodup
  rw [hlinkAll, hlinked.eq_flatMap hr hown hroots hnodup]

theorem isDisjointUnion_flatMap :
    ((∅ : Analysis).record (roots.flatMap own)).links.IsDisjointUnion
      (roots.map fun root => ((∅ : Analysis).record (own root)).links) := by
  have hf := hr.wellShaped.toIsFinished
  obtain ⟨resolved, _, hlinked⟩ := hr.exists_linked hroots hnodup
  have heq := hlinked.eq_flatMap hr hown hroots hnodup
  subst heq
  have hpart : ∀ root ∈ roots, ∀ site target,
      ((∅ : Analysis).record (own root)).links.get? site = some target ↔
        ∃ entry ∈ own root, entry.1.site = site ∧ entry.2.target? = some target :=
    fun root hroot _ _ => (hown root (hroots root hroot)).get?_eq_some_iff hf
      (by simpa using hroots root hroot) (List.nodup_singleton root)
  refine ⟨?_, ?_⟩
  · intro site target
    rw [hlinked.get?_eq_some_iff hf hroots hnodup]
    constructor
    · rintro ⟨entry, hmem, hentry⟩
      obtain ⟨root, hroot, hmem⟩ := List.mem_flatMap.mp hmem
      exact ⟨_, List.mem_map_of_mem hroot, (hpart root hroot site target).mpr ⟨entry, hmem, hentry⟩⟩
    · rintro ⟨part, hmem, htarget⟩
      obtain ⟨root, hroot, rfl⟩ := List.mem_map.mp hmem
      obtain ⟨entry, hmem, hentry⟩ := (hpart root hroot site target).mp htarget
      exact ⟨entry, List.mem_flatMap.mpr ⟨root, hroot, hmem⟩, hentry⟩
  · refine List.pairwise_map.mpr (hnodup.imp_of_mem ?_)
    intro first second hfirst hsecond hne site
    rw [or_iff_not_imp_left]
    intro hbound
    obtain ⟨target, htarget⟩ := Option.ne_none_iff_exists'.mp hbound
    refine Option.eq_none_iff_forall_ne_some.mpr ?_
    intro other hother
    -- A site that both tables bind would lie in both documents.
    obtain ⟨entry, hmem, rfl, _⟩ := (hpart first hfirst site target).mp htarget
    obtain ⟨entry', hmem', hsite, _⟩ := (hpart second hsecond _ other).mp hother
    have hunder := (hown first (hroots first hfirst)).under_of_mem hf (hroots first hfirst) hmem
    have hunder' :=
      (hown second (hroots second hsecond)).under_of_mem hf (hroots second hsecond) hmem'
    rw [hsite] at hunder'
    exact hne (hf.file_eq (hroots first hfirst) (hroots second hsecond) hunder hunder')

end

/-- What was linked before does not count. -/
theorem linkAll_record_flatMap {own : NodeId → List (Reference × Resolution)} (hr : ws.IsRegular)
    (hown : ∀ root ∈ ws.tree.files,
      ws.Linked [root] ((∅ : Analysis).record (own root)) (own root))
    {before after : List NodeId} (hroots : ∀ root ∈ before ++ after, root ∈ ws.tree.files)
    (hnodup : (before ++ after).Nodup) :
    ws.linkAll after ((∅ : Analysis).record (before.flatMap own)) =
      .ok ((∅ : Analysis).record ((before ++ after).flatMap own)) := by
  have hbefore := linkAll_eq_flatMap hr hown
    (fun root hroot => hroots root (List.mem_append_left after hroot)) hnodup.of_append_left
  have hall := linkAll_eq_flatMap hr hown hroots hnodup
  rw [linkAll_append, hbefore, ok_bind] at hall
  exact hall

/-! ## Linking in any order -/

theorem isRegular_of_build {source : SourceId} {steps : List BuildStep} {tree : Tree}
    {index : Index} (hbuild : Tree.build source steps = .ok tree)
    (hgrammar : tree.isGrammatical = true)
    (hindex : ∀ kind, ∀ definition ∈ index.declarations kind, definition < tree.size) :
    IsRegular { tree, index } := by
  refine ⟨Tree.wellShaped_of_build hbuild hgrammar, ?_, rfl⟩
  intro definition h
  obtain h | h := h
  · exact hindex .dataType definition h
  · exact hindex .nodeType definition h

/-- Documents of a grammatical tree can be linked in any order, by an index of its
nodes.  The table is always the same: it is put together from the tables of the
documents linked alone, which have no site in common.  And whatever was linked
before it, a document adds the messages that it has when it is linked alone. -/
theorem linkAll_perm_files {source : SourceId} {steps : List BuildStep} {tree : Tree}
    {index : Index} (hbuild : Tree.build source steps = .ok tree)
    (hgrammar : tree.isGrammatical = true)
    (hindex : ∀ kind, ∀ definition ∈ index.declarations kind, definition < tree.size) :
    ∃ alone : NodeId → Analysis, ∃ links : Links,
      (∀ root ∈ tree.files, link { tree, index } root ∅ = .ok (alone root)) ∧
      links.IsDisjointUnion (tree.files.map fun root => (alone root).links) ∧
      ∀ roots : List NodeId, roots.Perm tree.files →
        ∃ analysis, linkAll { tree, index } roots ∅ = .ok analysis ∧ analysis.links = links ∧
          ∀ before root after, roots = before ++ root :: after →
            ∃ earlier later, linkAll { tree, index } before ∅ = .ok earlier ∧
              link { tree, index } root earlier = .ok later ∧
              linkAll { tree, index } after later = .ok analysis ∧
              later.diagnostics.messages =
                earlier.diagnostics.messages ++ (alone root).diagnostics.messages := by
  have hr := isRegular_of_build hbuild hgrammar hindex
  have hdistinct := hr.wellShaped.nodup_files
  choose! own hlink hown using fun root (hroot : root ∈ tree.files) =>
    hr.exists_linked (by simpa using hroot) (List.nodup_singleton root)
  have hunion := isDisjointUnion_flatMap hr hown (fun _ hroot => hroot) hdistinct
  refine ⟨fun root => (∅ : Analysis).record (own root), _, ?_, hunion, ?_⟩
  · intro root hroot
    rw [← linkAll_singleton, hlink root hroot]
  · intro roots hperm
    have hroots : ∀ root ∈ roots, root ∈ tree.files := fun root => hperm.mem_iff.mp
    have hnodup : roots.Nodup := hperm.nodup_iff.mpr hdistinct
    refine ⟨_, linkAll_eq_flatMap hr hown hroots hnodup, ?_, ?_⟩
    · exact (isDisjointUnion_flatMap hr hown hroots hnodup).eq_of_perm hunion (hperm.map _)
    · rintro before root after rfl
      rw [List.append_cons] at hroots hnodup ⊢
      have hsome : ∀ other ∈ before ++ [root], other ∈ tree.files :=
        fun other hother => hroots other (List.mem_append_left after hother)
      have hearlier := linkAll_eq_flatMap hr hown
        (fun other hother => hsome other (List.mem_append_left [root] hother))
        hnodup.of_append_left.of_append_left
      have hlater := linkAll_record_flatMap hr hown hsome hnodup.of_append_left
      have hlast := linkAll_record_flatMap hr hown hroots hnodup
      have halone : ((∅ : Analysis).record (own root)).diagnostics.messages =
          (own root).filterMap (·.2.diagnostic?) := Analysis.messages_record ∅ (own root)
      rw [linkAll_singleton] at hlater
      refine ⟨_, _, hearlier, hlater, hlast, ?_⟩
      rw [List.flatMap_append, List.flatMap_singleton, Analysis.record_append,
        Analysis.messages_record, halone]

/-- Two documents.  In the first an instance re-exposes a port whose type is
declared in the second; each of them has a name that means nothing. -/
def acrossDocuments : List BuildStep := [
  .node (.type (.apply "Inner" [])),
  .node (.port "inner" .input 0),
  .node (.source (.selfPort "inner")),
  .node (.instanceDecl "a" 2),
  .node (.expr (.nodePort "a" "value")),
  .node (.expr (.nodePort "a" "lost")),
  .node (.link 4 5),
  .node (.body [3] [6] []),
  .node (.nodeType "Outer" [] [1] none (some 7)),
  .node (.file [8]),
  .switchSource 2,
  .node (.type .float),
  .node (.port "value" .output 10),
  .node (.nodeType "Inner" [] [11] (some "Missing") none),
  .node (.file [12])]

theorem linkAll_perm_files_acrossDocuments :
    ∃ tree forward backward, Tree.build 1 acrossDocuments = .ok tree ∧
      tree.isGrammatical = true ∧
      linkAll { tree, index := ⟨[], [8, 12]⟩ } [9, 13] ∅ = .ok forward ∧
      linkAll { tree, index := ⟨[], [8, 12]⟩ } [13, 9] ∅ = .ok backward ∧
      forward.links = backward.links ∧ forward.links.target 4 .nodePort = some 11 ∧
      forward.diagnostics.messages.map (·.node) = [some 5, some 12] ∧
      backward.diagnostics.messages.map (·.node) = [some 12, some 5] := by
  obtain ⟨tree, hbuild⟩ : ∃ tree, Tree.build 1 acrossDocuments = .ok tree := ⟨_, rfl⟩
  have hgrammar : tree.isGrammatical = true := by
    cases hbuild
    rfl
  have hfiles : tree.files = [9, 13] := by
    cases hbuild
    rfl
  have hindex : ∀ kind, ∀ definition ∈ (⟨[], [8, 12]⟩ : Index).declarations kind,
      definition < tree.size := by
    cases hbuild
    intro kind
    cases kind <;> decide
  obtain ⟨_, links, _, _, hall⟩ := linkAll_perm_files hbuild hgrammar hindex
  obtain ⟨forward, hforward, hlinks, _⟩ := hall [9, 13] (hfiles ▸ .refl _)
  obtain ⟨backward, hbackward, hlinks', _⟩ := hall [13, 9] (hfiles ▸ .swap 9 13 [])
  refine ⟨tree, forward, backward, hbuild, hgrammar, hforward, hbackward,
    hlinks.trans hlinks'.symm, ?_, ?_, ?_⟩
  · cases hbuild
    cases hforward
    rfl
  · cases hbuild
    cases hforward
    rfl
  · cases hbuild
    cases hbackward
    rfl

end Workspace

end Dataflow
