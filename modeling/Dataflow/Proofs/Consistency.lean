import Dataflow.Proofs.Checking

/-!
# Dataflow.Proofs.Consistency

Linking is a single pass, and yet its table is consistent with itself: each
reference is bound to what its name means by the finished table, nothing else
is bound, and linking the documents again changes nothing
(`Workspace.check_isConsistent`).
-/

namespace Dataflow

namespace Workspace

variable {ws : Workspace} {links : Links}

/-- A table that holds what the references of the documents mean by the table
itself, and nothing else. -/
structure IsConsistent (ws : Workspace) (links : Links) : Prop where
  target_iff {id : NodeId} {kind : NodeKind} {slot : Slot} {name : String} :
    ws.tree.DocumentNode id kind → (slot, name) ∈ kind.references →
      ∀ target, links.target id slot = some target ↔
        ∃ scope, ws.scope links ⟨id, slot⟩ = .ok scope ∧ Scope.lookup scope name = some target
  exists_reference {id : NodeId} {slot : Slot} {target : NodeId} :
    links.target id slot = some target →
      ∃ kind name, ws.tree.DocumentNode id kind ∧ (slot, name) ∈ kind.references

theorem Checked.isConsistent {checks : Checks} {analysis : Analysis}
    {resolved : List (Reference × Resolution)} {findings : List Finding}
    (hw : ws.tree.WellShaped) (h : ws.Checked checks analysis resolved findings) :
    ws.IsConsistent analysis.links where
  target_iff {id kind slot name} hnode hmem target := by
    obtain ⟨hdocument, hkind⟩ := hw.documentNode_iff.mp hnode
    have href : ws.tree.IsReference ⟨⟨id, slot⟩, name⟩ := ⟨hdocument, kind, hkind, hmem⟩
    obtain ⟨resolution, _, hresolve, htarget⟩ := h.exists_entry hw href
    rw [Links.target, htarget]
    exact target?_eq_some_iff hresolve
  exists_reference htarget := by
    rw [Links.target, h.links] at htarget
    obtain ⟨entry, hentry, hsite⟩ := h.linked.exists_of_get? htarget
    obtain ⟨hdocument, kind, hkind, hmem⟩ := h.isReference_of_mem hw hentry
    rw [hsite] at hdocument hkind hmem
    exact ⟨kind, _, hw.documentNode_iff.mpr ⟨hdocument, hkind⟩, hmem⟩

/-! ## Linking again -/

namespace IsConsistent

variable (hr : ws.IsRegular) (hs : ws.Supports links) (hc : ws.IsConsistent links)
include hr hs hc

theorem exists_bindAll {references : List Reference}
    (hrefs : ∀ reference ∈ references, ws.tree.IsReference reference) (store : Diagnostics) :
    ∃ store', ws.bindAll references ⟨links, store⟩ = .ok ⟨links, store'⟩ := by
  obtain ⟨resolved, hbinds⟩ := hr.exists_binds ⟨links, store⟩ hs hrefs
  refine ⟨store.addAll (resolved.filterMap (·.2.diagnostic?)), ?_⟩
  rw [hbinds.bindAll, Analysis.record, Links.bindAll_eq_self]
  intro entry hmem target htarget
  obtain ⟨hdocument, kind, hkind, href⟩ := hrefs entry.1 (hbinds.mem hmem)
  refine (hc.target_iff (hr.wellShaped.documentNode_iff.mpr ⟨hdocument, hkind⟩) href target).mpr ?_
  exact (target?_eq_some_iff (hbinds.resolve entry hmem)).mp htarget

theorem exists_link {root : NodeId} (hroot : root ∈ ws.tree.files) (store : Diagnostics) :
    ∃ store', ws.link root ⟨links, store⟩ = .ok ⟨links, store'⟩ := by
  have hrefs : ∀ reference ∈ ws.tree.linkOrder root, ws.tree.IsReference reference :=
    fun reference hmem =>
      hr.wellShaped.isReference_of_mem hroot (Tree.mem_linkOrder_iff.mp hmem)
  obtain ⟨between, hfirst⟩ :=
    hc.exists_bindAll hr hs (fun r hmem => hrefs r (List.mem_append_left _ hmem)) store
  obtain ⟨store', hports⟩ :=
    hc.exists_bindAll hr hs (fun r hmem => hrefs r (List.mem_append_right _ hmem)) between
  refine ⟨store', ?_⟩
  rw [link_file hr.wellShaped.toIsFinished hroot, hfirst, ok_bind, hports]

/-- Linking documents again by a consistent table leaves it as it is. -/
theorem exists_linkAll {roots : List NodeId} (hroots : ∀ root ∈ roots, root ∈ ws.tree.files)
    (store : Diagnostics) :
    ∃ store', ws.linkAll roots ⟨links, store⟩ = .ok ⟨links, store'⟩ := by
  induction roots generalizing store with
  | nil => exact ⟨store, rfl⟩
  | cons root roots ih =>
    obtain ⟨between, hlink⟩ := hc.exists_link hr hs (hroots root List.mem_cons_self) store
    obtain ⟨store', hrest⟩ :=
      ih (fun other hother => hroots other (List.mem_cons_of_mem root hother)) between
    refine ⟨store', ?_⟩
    rw [linkAll, List.foldlM_cons, hlink]
    exact hrest

end IsConsistent

/-- Checking a grammatical tree by an index of its nodes gives a consistent
table.  Linking documents again, in any order, leaves it as it is; and the
ports of instances, which were bound before the documents after their own were
linked, see by the finished table what they saw then. -/
theorem check_isConsistent {source : SourceId} {steps : List BuildStep} {tree : Tree}
    {index : Index} (hbuild : Tree.build source steps = .ok tree)
    (hgrammar : tree.isGrammatical = true)
    (hindex : ∀ kind, ∀ definition ∈ index.declarations kind, definition < tree.size)
    (checks : Checks) :
    ∃ analysis, check { tree, index } checks = .ok analysis ∧
      IsConsistent { tree, index } analysis.links ∧
      (∀ roots store, (∀ root ∈ roots, root ∈ tree.files) →
        ∃ store', linkAll { tree, index } roots ⟨analysis.links, store⟩ =
          .ok ⟨analysis.links, store'⟩) ∧
      ∀ before root after, tree.files = before ++ root :: after →
        ∃ earlier first ports between,
          linkAll { tree, index } before ∅ = .ok earlier ∧
          lots { tree, index } root = .ok (first, ports) ∧
          bindAll { tree, index } first earlier = .ok between ∧
          ∀ reference ∈ ports, scope { tree, index } between.links reference.site =
            scope { tree, index } analysis.links reference.site := by
  have hw := Tree.wellShaped_of_build hbuild hgrammar
  have hr : IsRegular { tree, index } := by
    refine ⟨hw, ?_, rfl⟩
    intro definition h
    obtain h | h := h
    · exact hindex .dataType definition h
    · exact hindex .nodeType definition h
  obtain ⟨analysis, resolved, findings, hchecked⟩ := hr.exists_check checks
  have hconsistent := hchecked.isConsistent hw
  refine ⟨analysis, hchecked.check, hconsistent, ?_, ?_⟩
  · intro roots store hroots
    exact hconsistent.exists_linkAll hr hchecked.supports hroots store
  · intro before root after hfiles
    obtain ⟨earlier, first, last, hearlier, _, hfirst, hlast, hscope⟩ := hr.exists_stage hfiles
    cases hlast.symm.trans hchecked.linkAll
    rw [← hchecked.links] at hscope
    exact ⟨earlier, _, _, _, hearlier, lots_file hw.toIsFinished (hfiles ▸ by simp),
      hfirst.bindAll, hscope⟩

/-- Two documents.  In the first an instance re-exposes a port of its node
type, and the type of that port is declared in the second. -/
def reexposing : Tree where
  nodes := #[
    ⟨.type (.apply "Inner" []), some 1, .origin 1⟩,
    ⟨.port "inner" .input 0, some 10, .origin 1⟩,
    ⟨.type .float, some 3, .origin 1⟩,
    ⟨.port "result" .output 2, some 10, .origin 1⟩,
    ⟨.source (.selfPort "inner"), some 5, .origin 1⟩,
    ⟨.instanceDecl "a" 4, some 9, .origin 1⟩,
    ⟨.expr (.nodePort "a" "value"), some 8, .origin 1⟩,
    ⟨.expr (.selfPort "result"), some 8, .origin 1⟩,
    ⟨.link 6 7, some 9, .origin 1⟩,
    ⟨.body [5] [8] [], some 10, .origin 1⟩,
    ⟨.nodeType "Outer" [] [1, 3] none (some 9), some 11, .origin 1⟩,
    ⟨.file [10], none, .origin 1⟩,
    ⟨.type .float, some 13, .origin 1⟩,
    ⟨.port "value" .output 12, some 14, .origin 1⟩,
    ⟨.nodeType "Inner" [] [13] none none, some 15, .origin 1⟩,
    ⟨.file [14], none, .origin 1⟩]
  files := [11, 15]

theorem check_isConsistent_reexposing :
    Tree.build 1 (reexposing.nodes.toList.map (.node ·.kind)) = .ok reexposing ∧
      reexposing.isGrammatical = true ∧
      ∃ analysis, check { tree := reexposing, index := ⟨[], [10, 14]⟩ } {} = .ok analysis ∧
        IsConsistent { tree := reexposing, index := ⟨[], [10, 14]⟩ } analysis.links ∧
        analysis.links.target 6 .nodePort = some 13 := by
  have hbuild : Tree.build 1 (reexposing.nodes.toList.map (.node ·.kind)) = .ok reexposing := rfl
  have hindex : ∀ kind, ∀ definition ∈ (⟨[], [10, 14]⟩ : Index).declarations kind,
      definition < reexposing.size := by
    intro kind
    cases kind <;> decide
  obtain ⟨analysis, hcheck, hconsistent, _⟩ := check_isConsistent hbuild rfl hindex {}
  refine ⟨hbuild, rfl, analysis, hcheck, hconsistent, ?_⟩
  cases hcheck
  rfl

end Workspace

end Dataflow
