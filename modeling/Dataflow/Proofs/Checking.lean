import Dataflow.Checking
import Dataflow.Proofs.Index
import Dataflow.Proofs.Linking
import Dataflow.Proofs.Validation

/-!
# Dataflow.Proofs.Checking

A whole check, taken apart.  In a regular workspace it always answers, and its
answer is the table of the linker with the messages of the linker before the
findings of the validator (`Workspace.IsRegular.exists_check`).  With a sound
index the findings are the problems of the nodes
(`Workspace.Checked.mem_findings_iff`), and a reference is bound or has exactly
one message (`Workspace.Checked.bound_or_reported`).
-/

namespace Dataflow

/-! ## Stores of messages -/

namespace Diagnostics

/-- Messages that were put into a store of their own are merged as they are. -/
theorem merge_report (store : Diagnostics) (findings : List Finding) :
    store.merge ((∅ : Diagnostics).report findings) =
      store.addAll (findings.map Finding.diagnostic) := by
  rw [merge, report, messages_addAll, messages_empty, List.nil_append]

/-- Messages that are reported in portions are reported as if at once. -/
theorem foldl_report (store : Diagnostics) (found : List (List Finding)) :
    found.foldl report store = store.report found.flatten := by
  induction found generalizing store with
  | nil => rfl
  | cons first rest ih =>
    rw [List.foldl_cons, ih, List.flatten_cons, report, report, report, List.map_append,
      addAll_append]

theorem get_tally_addAll (store : Diagnostics) (diagnostics : List Diagnostic)
    (severity : Severity) :
    (store.addAll diagnostics).tally.get severity =
      store.tally.get severity + (diagnostics.filter (·.severity = severity)).length := by
  induction diagnostics generalizing store with
  | nil => rfl
  | cons diagnostic diagnostics ih =>
    rw [addAll, List.foldl_cons, ← addAll, ih]
    simp only [add, Tally.get_count, List.filter_cons, decide_eq_true_eq]
    split
    · rw [List.length_cons]
      lia
    · rfl

/-- A store that counts its messages is perfect exactly if all of them are mere
information. -/
theorem isPerfect_iff_of_tally {store : Diagnostics}
    (htally : ∀ severity, store.tally.get severity =
      (store.messages.filter (·.severity = severity)).length) :
    store.isPerfect = true ↔ ∀ diagnostic ∈ store.messages, diagnostic.severity = .info := by
  have herrors := htally .error
  have hwarnings := htally .warning
  have hperfect : store.isPerfect = true ↔
      store.messages.filter (·.severity = .error) = [] ∧
        store.messages.filter (·.severity = .warning) = [] := by
    rw [isPerfect, Bool.and_eq_true, beq_iff_eq, beq_iff_eq, ← List.length_eq_zero_iff,
      ← List.length_eq_zero_iff, ← herrors, ← hwarnings]
    rfl
  rw [hperfect, List.filter_eq_nil_iff, List.filter_eq_nil_iff, ← forall₂_and]
  refine forall₂_congr ?_
  intro diagnostic _
  cases diagnostic.severity <;> simp

theorem isPerfect_addAll_empty {diagnostics : List Diagnostic} :
    ((∅ : Diagnostics).addAll diagnostics).isPerfect = true ↔
      ∀ diagnostic ∈ diagnostics, diagnostic.severity = .info := by
  have hmessages : ((∅ : Diagnostics).addAll diagnostics).messages = diagnostics := by simp
  rw [isPerfect_iff_of_tally, hmessages]
  intro severity
  rw [get_tally_addAll, hmessages]
  cases severity <;> exact Nat.zero_add _

/-- The messages about the name in a slot of a node. -/
def nameErrorsAt (store : Diagnostics) (node : NodeId) (slot : Slot) : List Diagnostic :=
  store.messages.filter fun diagnostic =>
    diagnostic.kind = .name ∧ diagnostic.node = some node ∧ diagnostic.property = some slot

end Diagnostics

/-! ## A check, taken apart -/

namespace Workspace

variable {ws : Workspace} {checks : Checks}

/-- What a check consists of. -/
structure Checked (ws : Workspace) (checks : Checks) (analysis : Analysis)
    (resolved : List (Reference × Resolution)) (findings : List Finding) : Prop where
  check : ws.check checks = .ok analysis
  linkAll : ws.linkAll ws.tree.files ∅ = .ok ((∅ : Analysis).record resolved)
  linked : ws.Linked ws.tree.files ((∅ : Analysis).record resolved) resolved
  validated : ∃ found, ws.tree.files.mapM (ws.tree.validate analysis.links checks) = .ok found ∧
    found.flatten = findings
  links : analysis.links = ((∅ : Analysis).record resolved).links
  diagnostics : analysis.diagnostics = (∅ : Diagnostics).addAll
    (resolved.filterMap (·.2.diagnostic?) ++ findings.map Finding.diagnostic)

theorem foldl_merge_report (store : Diagnostics) (found : List (List Finding)) :
    (found.map (∅ : Diagnostics).report).foldl Diagnostics.merge store =
      store.addAll (found.flatten.map Finding.diagnostic) := by
  have hmerge : (fun store findings =>
      Diagnostics.merge store ((∅ : Diagnostics).report findings)) = Diagnostics.report := by
    funext store findings
    exact Diagnostics.merge_report store findings
  rw [List.foldl_map, hmerge, Diagnostics.foldl_report, Diagnostics.report]

/-- A check links the documents, validates them by the table that this leaves,
and adds what it finds to the messages. -/
theorem check_eq_ok_iff {analysis : Analysis} :
    ws.check checks = .ok analysis ↔ ∃ linked found,
      ws.linkAll ws.tree.files ∅ = .ok linked ∧
      ws.tree.files.mapM (ws.tree.validate linked.links checks) = .ok found ∧
      analysis = ⟨linked.links,
        linked.diagnostics.addAll (found.flatten.map Finding.diagnostic)⟩ := by
  simp only [check, validateAll, mapM_map_answer, bind_eq_ok_iff, map_eq_ok_iff]
  constructor
  · rintro ⟨linked, hlinked, _, ⟨found, hfound, rfl⟩, h⟩
    rw [foldl_merge_report] at h
    cases h
    exact ⟨linked, found, hlinked, hfound, rfl⟩
  · rintro ⟨linked, found, hlinked, hfound, rfl⟩
    refine ⟨linked, hlinked, _, ⟨found, hfound, rfl⟩, ?_⟩
    rw [foldl_merge_report]
    rfl

/-- Checking a regular workspace answers. -/
theorem IsRegular.exists_check (hr : ws.IsRegular) (checks : Checks) :
    ∃ analysis resolved findings, ws.Checked checks analysis resolved findings := by
  have hw := hr.wellShaped
  obtain ⟨resolved, hlinkAll, hlinked⟩ := ws.linked_nil.exists_linkAll hr
    (fun root hroot => hroot) hw.nodup_files
  rw [List.nil_append, List.nil_append] at hlinked
  have hlinks := hlinked.supports.within hw hr.boundedIndex
  obtain ⟨found, hfound⟩ : ∃ found,
      ws.tree.files.mapM (ws.tree.validate ((∅ : Analysis).record resolved).links checks) =
        .ok found := by
    refine exists_mapM_eq_ok ?_
    intro root hroot
    exact Tree.exists_validate hw.toIsForest hlinks
      (fun id hid => hlinked.supports.faultFree_infer hw hr.boundedIndex hid)
      (hw.file_lt_size hroot)
  refine ⟨⟨((∅ : Analysis).record resolved).links, (∅ : Diagnostics).addAll
      (resolved.filterMap (·.2.diagnostic?) ++ found.flatten.map Finding.diagnostic)⟩,
    resolved, found.flatten, ?_, hlinkAll, hlinked, ⟨found, hfound, rfl⟩, rfl, rfl⟩
  refine check_eq_ok_iff.mpr ⟨_, found, hlinkAll, hfound, ?_⟩
  rw [Diagnostics.addAll_append]
  rfl

/-! ## References in the result -/

theorem filter_filterMap_of_nodup {α β κ : Type} {key : α → κ} {f : α → Option β} {p : β → Bool}
    {xs : List α} (hnodup : (xs.map key).Nodup) {x : α} (hx : x ∈ xs)
    (hp : ∀ y ∈ xs, ∀ b, f y = some b → (p b = true ↔ key y = key x)) :
    (xs.filterMap f).filter p = (f x).toList := by
  induction xs with
  | nil => cases hx
  | cons y ys ih =>
    rw [List.map_cons, List.nodup_cons] at hnodup
    obtain ⟨hnot, hnodup⟩ := hnodup
    obtain rfl | hx := List.mem_cons.mp hx
    · have hrest : (ys.filterMap f).filter p = [] := by
        rw [List.filter_eq_nil_iff]
        intro b hb hpb
        obtain ⟨z, hz, hfz⟩ := List.mem_filterMap.mp hb
        have hkey := (hp z (List.mem_cons_of_mem _ hz) b hfz).mp hpb
        exact hnot (hkey ▸ List.mem_map_of_mem hz)
      cases hf : f x with
      | none => simp [hf, hrest]
      | some b => simp [hf, hrest, (hp x List.mem_cons_self b hf).mpr rfl]
    · have hkey : key y ≠ key x := by
        intro heq
        exact hnot (heq ▸ List.mem_map_of_mem hx)
      have hrest := ih hnodup hx fun z hz => hp z (List.mem_cons_of_mem _ hz)
      cases hf : f y with
      | none => simp [hf, hrest]
      | some b =>
        have hpb : p b = false := by
          rw [← Bool.not_eq_true]
          exact fun hpb => hkey ((hp y List.mem_cons_self b hf).mp hpb)
        simp [hf, hrest, hpb]

namespace Checked

variable {analysis : Analysis} {resolved : List (Reference × Resolution)}
  {findings : List Finding} (h : ws.Checked checks analysis resolved findings)
include h

theorem supports : ws.Supports analysis.links :=
  h.links ▸ h.linked.supports

theorem resolve {entry : Reference × Resolution} (hmem : entry ∈ resolved) :
    ws.resolve analysis.links entry.1 = .ok entry.2 :=
  h.links ▸ h.linked.resolve entry hmem

theorem messages : analysis.diagnostics.messages =
    resolved.filterMap (·.2.diagnostic?) ++ findings.map Finding.diagnostic := by
  rw [h.diagnostics, Diagnostics.messages_addAll, Diagnostics.messages_empty, List.nil_append]

/-- Every reference came to what the table resolves it to, and that is what
the table holds. -/
theorem exists_entry (hw : ws.tree.WellShaped) {reference : Reference}
    (href : ws.tree.IsReference reference) :
    ∃ resolution, (reference, resolution) ∈ resolved ∧
      ws.resolve analysis.links reference = .ok resolution ∧
      analysis.links.get? reference.site = resolution.target? := by
  obtain ⟨root, hroot, hunder⟩ := href.1
  obtain ⟨resolution, hmem⟩ :=
    h.linked.exists_entry hw.toIsFinished (fun _ hfile => hfile) href hroot hunder
  refine ⟨resolution, hmem, h.resolve hmem, ?_⟩
  rw [h.links]
  exact h.linked.get?_of_mem hw.toIsFinished (fun _ hfile => hfile) hw.nodup_files hmem

theorem isReference_of_mem (hw : ws.tree.WellShaped) {entry : Reference × Resolution}
    (hmem : entry ∈ resolved) : ws.tree.IsReference entry.1 :=
  (h.linked.of_mem hw.toIsFinished (fun _ hfile => hfile) hmem).1

/-- The messages about a name are those that its reference came to. -/
theorem nameErrorsAt_eq (hw : ws.tree.WellShaped) {reference : Reference}
    {resolution : Resolution} (hmem : (reference, resolution) ∈ resolved) :
    analysis.diagnostics.nameErrorsAt reference.site.node reference.site.slot =
      resolution.diagnostic?.toList := by
  have hnodup := h.linked.nodup_sites hw.toIsFinished (fun _ hfile => hfile) hw.nodup_files
  rw [Diagnostics.nameErrorsAt, h.messages, List.filter_append,
    filter_filterMap_of_nodup hnodup hmem]
  · -- The findings are of another kind.
    rw [List.append_right_eq_self, List.filter_eq_nil_iff]
    intro diagnostic hdiagnostic
    obtain ⟨finding, _, rfl⟩ := List.mem_map.mp hdiagnostic
    simp [Finding.diagnostic, Diagnostic.at]
  · intro entry hentry diagnostic hdiagnostic
    obtain ⟨span, nothingVisible, rfl⟩ := exists_unknownName (h.resolve hentry) hdiagnostic
    obtain ⟨⟨⟨node, slot⟩, name⟩, found⟩ := entry
    obtain ⟨⟨node', slot'⟩, name'⟩ := reference
    simp [unknownName, Diagnostic.at]

/-- By a sound index a reference is bound, or a message says that its name is
unknown. -/
theorem bound_or_reported (hr : ws.IsRegular) (hindex : ws.HasSoundIndex) {reference : Reference}
    (href : ws.tree.IsReference reference) :
    (∃ target, analysis.links.get? reference.site = some target ∧
        analysis.diagnostics.nameErrorsAt reference.site.node reference.site.slot = []) ∨
      (analysis.links.get? reference.site = none ∧ ∃ diagnostic, diagnostic.severity = .error ∧
        analysis.diagnostics.nameErrorsAt reference.site.node reference.site.slot =
          [diagnostic]) := by
  obtain ⟨resolution, hmem, hresolve, htarget⟩ := h.exists_entry hr.wellShaped href
  rw [htarget, h.nameErrorsAt_eq hr.wellShaped hmem]
  cases resolution with
  | bound target => exact .inl ⟨target, rfl, rfl⟩
  | unresolved diagnostic =>
    obtain ⟨span, nothingVisible, hunknown⟩ := exists_unknownName (h.resolve hmem) rfl
    exact .inr ⟨rfl, diagnostic, by rw [hunknown]; rfl, rfl⟩
  | skipped error =>
    obtain ⟨scope, hscope⟩ := (hr.yields_scope h.supports href).exists_ok hindex
    rw [resolve_eq_skipped_iff.mp hresolve] at hscope
    cases hscope

/-- By a sound index a name has a message exactly if it is not bound. -/
theorem nameErrorsAt_eq_nil_iff (hr : ws.IsRegular) (hindex : ws.HasSoundIndex)
    {reference : Reference} (href : ws.tree.IsReference reference) :
    analysis.diagnostics.nameErrorsAt reference.site.node reference.site.slot = [] ↔
      analysis.links.get? reference.site ≠ none := by
  obtain ⟨target, htarget, hnil⟩ | ⟨hnone, diagnostic, _, hone⟩ :=
    h.bound_or_reported hr hindex href
  · simp [htarget, hnil]
  · simp [hnone, hone]

/-! ## Findings in the result -/

/-- The findings are those at the nodes of the documents. -/
theorem mem_findings {finding : Finding} : finding ∈ findings ↔
    ∃ id kind, ws.tree.DocumentNode id kind ∧ ∃ found,
      ws.tree.findingsAt analysis.links checks id kind = .ok found ∧ finding ∈ found := by
  obtain ⟨lists, hlists, rfl⟩ := h.validated
  constructor
  · intro hmem
    obtain ⟨list, hlist, hmem⟩ := List.mem_flatten.mp hmem
    obtain ⟨root, hroot, hvalidate⟩ := exists_of_mem_mapM hlists hlist
    obtain ⟨entries, hentries, hvalidate⟩ := bind_eq_ok_iff.mp hvalidate
    obtain ⟨founds, hfounds, hvalidate⟩ := bind_eq_ok_iff.mp hvalidate
    cases hvalidate
    obtain ⟨found, hfound, hmem⟩ := List.mem_flatten.mp hmem
    obtain ⟨⟨id, kind⟩, hentry, hfindingsAt⟩ := exists_of_mem_mapM hfounds hfound
    exact ⟨id, kind, ⟨root, hroot, entries, hentries, hentry⟩, found, hfindingsAt, hmem⟩
  · intro ⟨id, kind, ⟨root, hroot, entries, hentries, hentry⟩, found, hfindingsAt, hmem⟩
    obtain ⟨list, hlist, hvalidate⟩ := exists_of_mem_of_mapM hlists hroot
    refine List.mem_flatten.mpr ⟨list, hlist, ?_⟩
    rw [Tree.validate, hentries, ok_bind] at hvalidate
    obtain ⟨founds, hfounds, hvalidate⟩ := bind_eq_ok_iff.mp hvalidate
    cases hvalidate
    obtain ⟨other, hother, hfindingsAt'⟩ := exists_of_mem_of_mapM hfounds hentry
    cases hfindingsAt.symm.trans hfindingsAt'
    exact List.mem_flatten.mpr ⟨found, hother, hmem⟩

/-- By a sound index every inspection runs to its end and finds the problems
of its node. -/
theorem exists_inspect (hr : ws.IsRegular) (hindex : ws.HasSoundIndex) {id : NodeId}
    {kind : NodeKind} (hnode : ws.tree.DocumentNode id kind) :
    ∃ problems, ws.tree.inspect analysis.links checks id kind = .ok { problems } ∧
      ∀ problem, problem ∈ problems ↔
        ws.tree.HasProblem analysis.links checks id kind problem := by
  have hw := hr.wellShaped
  have hdocument := (hw.documentNode_iff.mp hnode).1
  obtain ⟨ty, hty⟩ := h.supports.exists_infer hw hindex hdocument
  exact Tree.exists_inspect_of_sound checks kind hw.toIsForest (h.supports.sound hw hindex)
    (hw.lt_size_of_inDocument hdocument) hty

/-- By a sound index the findings are the problems of the nodes. -/
theorem mem_findings_iff (hr : ws.IsRegular) (hindex : ws.HasSoundIndex) {finding : Finding} :
    finding ∈ findings ↔ ∃ id kind span, ws.tree.DocumentNode id kind ∧
      ws.tree.span id = .ok span ∧
      ws.tree.HasProblem analysis.links checks id kind finding.problem ∧
      finding.location = ⟨id, finding.problem.property, span⟩ := by
  rw [h.mem_findings]
  constructor
  · intro ⟨id, kind, hnode, found, hfound, hmem⟩
    obtain ⟨problems, hinspect, hproblems⟩ := h.exists_inspect hr hindex hnode
    obtain ⟨span, hspan, hfound⟩ := bind_eq_ok_iff.mp hfound
    rw [hinspect, ok_bind] at hfound
    cases hfound
    obtain ⟨problem, hproblem, rfl⟩ := List.mem_map.mp hmem
    exact ⟨id, kind, span, hnode, hspan, (hproblems problem).mp hproblem, rfl⟩
  · intro ⟨id, kind, span, hnode, hspan, hproblem, hlocation⟩
    obtain ⟨problems, hinspect, hproblems⟩ := h.exists_inspect hr hindex hnode
    refine ⟨id, kind, hnode, _, by rw [Tree.findingsAt, hspan, ok_bind, hinspect]; rfl, ?_⟩
    refine List.mem_map.mpr ⟨finding.problem, (hproblems _).mpr hproblem, ?_⟩
    rw [← hlocation]

theorem exists_finding (hr : ws.IsRegular) (hindex : ws.HasSoundIndex) {id : NodeId}
    {kind : NodeKind} {problem : Problem} (hnode : ws.tree.DocumentNode id kind)
    (hproblem : ws.tree.HasProblem analysis.links checks id kind problem) :
    ∃ span, ⟨problem, ⟨id, problem.property, span⟩⟩ ∈ findings := by
  have hw := hr.wellShaped
  obtain ⟨span, hspan⟩ :=
    Tree.exists_span_of_lt (hw.lt_size_of_inDocument (hw.documentNode_iff.mp hnode).1)
  exact ⟨span, (h.mem_findings_iff hr hindex).mpr ⟨id, kind, span, hnode, hspan, hproblem, rfl⟩⟩

/-! ## Clean results -/

/-- Whatever a check reports is an error. -/
theorem severity_eq_error {diagnostic : Diagnostic}
    (hmem : diagnostic ∈ analysis.diagnostics.messages) : diagnostic.severity = .error := by
  rw [h.messages] at hmem
  obtain hmem | hmem := List.mem_append.mp hmem
  · obtain ⟨entry, hentry, hdiagnostic⟩ := List.mem_filterMap.mp hmem
    obtain ⟨span, nothingVisible, rfl⟩ := exists_unknownName (h.resolve hentry) hdiagnostic
    rfl
  · obtain ⟨finding, _, rfl⟩ := List.mem_map.mp hmem
    rfl

theorem isPerfect_iff_nil : analysis.diagnostics.isPerfect = true ↔
    resolved.filterMap (·.2.diagnostic?) = [] ∧ findings = [] := by
  have hperfect : analysis.diagnostics.isPerfect = true ↔ analysis.diagnostics.messages = [] := by
    rw [List.eq_nil_iff_forall_not_mem, h.diagnostics, Diagnostics.isPerfect_addAll_empty,
      ← h.diagnostics, ← h.messages]
    refine forall_congr' fun diagnostic => imp_congr_right ?_
    intro hmem
    simp [h.severity_eq_error hmem]
  rw [hperfect, h.messages, List.append_eq_nil_iff, List.map_eq_nil_iff]

/-- By a sound index the linker has no message exactly if all references are
bound. -/
theorem linker_silent_iff (hr : ws.IsRegular) (hindex : ws.HasSoundIndex) :
    resolved.filterMap (·.2.diagnostic?) = [] ↔
      ∀ reference, ws.tree.IsReference reference → analysis.links.get? reference.site ≠ none := by
  have hw := hr.wellShaped
  rw [List.filterMap_eq_nil_iff]
  constructor
  · intro hsilent reference href
    obtain ⟨resolution, hmem, _⟩ := h.exists_entry hw href
    rw [← h.nameErrorsAt_eq_nil_iff hr hindex href, h.nameErrorsAt_eq hw hmem]
    exact Option.toList_eq_nil_iff.mpr (hsilent _ hmem)
  · intro hbound ⟨reference, resolution⟩ hmem
    have href := h.isReference_of_mem hw hmem
    have hnil := (h.nameErrorsAt_eq_nil_iff hr hindex href).mpr (hbound reference href)
    rw [h.nameErrorsAt_eq hw hmem] at hnil
    exact Option.toList_eq_nil_iff.mp hnil

/-- By a sound index the validator finds nothing exactly if no node has a
problem. -/
theorem findings_eq_nil_iff (hr : ws.IsRegular) (hindex : ws.HasSoundIndex) :
    findings = [] ↔ ∀ id kind, ws.tree.DocumentNode id kind →
      ∀ problem, ¬ ws.tree.HasProblem analysis.links checks id kind problem := by
  rw [List.eq_nil_iff_forall_not_mem]
  constructor
  · intro hnone id kind hnode problem hproblem
    obtain ⟨span, hfinding⟩ := h.exists_finding hr hindex hnode hproblem
    exact hnone _ hfinding
  · intro hnone finding hmem
    obtain ⟨id, kind, _, hnode, _, hproblem, _⟩ := (h.mem_findings_iff hr hindex).mp hmem
    exact hnone id kind hnode finding.problem hproblem

/-- By a sound index a check is clean exactly if all references are bound and
no node has a problem. -/
theorem isPerfect_iff (hr : ws.IsRegular) (hindex : ws.HasSoundIndex) :
    analysis.diagnostics.isPerfect = true ↔
      (∀ reference, ws.tree.IsReference reference →
        analysis.links.get? reference.site ≠ none) ∧
      ∀ id kind, ws.tree.DocumentNode id kind →
        ∀ problem, ¬ ws.tree.HasProblem analysis.links checks id kind problem := by
  rw [h.isPerfect_iff_nil, h.linker_silent_iff hr hindex, h.findings_eq_nil_iff hr hindex]

end Checked

end Workspace

/-- Checking a grammatical tree by the declarations of its documents. -/
theorem Tree.WellShaped.exists_check {tree : Tree} (hw : tree.WellShaped) (checks : Checks) :
    ∃ index analysis resolved findings, tree.workspace = .ok { tree, index } ∧
      tree.check checks = .ok analysis ∧
      Workspace.IsRegular { tree, index } ∧ Workspace.HasSoundIndex { tree, index } ∧
      Workspace.Checked { tree, index } checks analysis resolved findings := by
  obtain ⟨index, hworkspace, hindex⟩ := hw.exists_workspace
  have hr : Workspace.IsRegular { tree, index } := ⟨hw, hindex.hasBoundedIndex hw.toIsFinished, rfl⟩
  obtain ⟨analysis, resolved, findings, hchecked⟩ := hr.exists_check checks
  refine ⟨index, analysis, resolved, findings, hworkspace, ?_, hr, hindex, hchecked⟩
  rw [check, hworkspace]
  exact hchecked.check

end Dataflow
