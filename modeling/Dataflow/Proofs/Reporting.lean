import Dataflow.Proofs.Binding
import Dataflow.Proofs.Checking
import Dataflow.Proofs.Findings

/-!
# Dataflow.Proofs.Reporting

What a check reports, in which order and under which numbers.  Nothing is
asked of the workspace: the tree need not follow the grammar, the index may
list any nodes, and declarations may be visible under other names or stand for
other declarations.

* `Workspace.check_reports_in_order`: validating every document into a store
  of its own and merging the stores comes to the same as one pass that hands
  every finding over to the store of the linker.
* `Workspace.check_reports_once`: no two messages are about the same thing,
  and none contradicts the table.
-/

namespace Dataflow

/-! ## One pass -/

/-- Hand some findings over to a store, one after the other. -/
def Diagnostics.acceptAll (store : Diagnostics) (findings : List Finding) : Diagnostics :=
  findings.foldl
    (fun store finding => store.accept .error finding.problem.message finding.location) store

/-- Validate a document straight into a store: what is found at a node is
handed over before the next node is inspected. -/
def Tree.validateInto (tree : Tree) (links : Links) (checks : Checks) (store : Diagnostics)
    (root : NodeId) : Result Diagnostics := do
  (← tree.subtree root).foldlM
    (fun store (id, kind) => do
      return store.acceptAll (← tree.findingsAt links checks id kind)) store

/-- Check every document in one pass: after linking, the documents are
validated in order, straight into the store of the linker. -/
def Workspace.checkInOnePass (ws : Workspace) (checks : Checks) : Result Analysis := do
  let linked ← ws.linkAll ws.tree.files ∅
  let diagnostics ←
    ws.tree.files.foldlM (ws.tree.validateInto linked.links checks) linked.diagnostics
  return { linked with diagnostics }

theorem Diagnostics.acceptAll_eq_addAll (store : Diagnostics) (findings : List Finding) :
    store.acceptAll findings = store.addAll (findings.map Finding.diagnostic) := by
  rw [addAll, List.foldl_map]
  rfl

theorem Diagnostics.foldl_acceptAll (store : Diagnostics) (found : List (List Finding)) :
    found.foldl acceptAll store = store.acceptAll found.flatten := by
  rw [acceptAll, List.foldl_flatten]
  rfl

theorem Tree.validateInto_eq (tree : Tree) (links : Links) (checks : Checks)
    (store : Diagnostics) (root : NodeId) :
    tree.validateInto links checks store root = do
      return store.acceptAll (← tree.validate links checks root) := by
  rw [validateInto, validate]
  cases tree.subtree root with
  | error halt => rfl
  | ok entries =>
    have hfold := foldlM_answers (fun entry : NodeId × NodeKind =>
      tree.findingsAt links checks entry.1 entry.2) Diagnostics.acceptAll store entries
    rw [ok_bind, ok_bind, hfold]
    cases entries.mapM fun entry => tree.findingsAt links checks entry.1 entry.2 with
    | error halt => rfl
    | ok found => simp [Diagnostics.foldl_acceptAll]

/-- A store for each document, merged in the end, or one store for all comes to
the same. -/
theorem Workspace.check_eq_checkInOnePass (ws : Workspace) (checks : Checks) :
    ws.check checks = ws.checkInOnePass checks := by
  rw [check, checkInOnePass]
  cases ws.linkAll ws.tree.files ∅ with
  | error halt => rfl
  | ok linked =>
    have hinto : ws.tree.validateInto linked.links checks = fun store root => do
        return store.acceptAll (← ws.tree.validate linked.links checks root) := by
      funext store root
      exact ws.tree.validateInto_eq linked.links checks store root
    rw [ok_bind, ok_bind, validateAll, mapM_map_answer, hinto, foldlM_answers]
    cases ws.tree.files.mapM (ws.tree.validate linked.links checks) with
    | error halt => rfl
    | ok found =>
      simp only [map_ok, ok_bind, foldl_merge_report, Diagnostics.foldl_acceptAll,
        Diagnostics.acceptAll_eq_addAll]

/-! ## A check, taken apart -/

/-- What a message is about: what part of the work it comes from, and the node
and the slot that it points at. -/
def Diagnostic.subject (diagnostic : Diagnostic) : DiagnosticKind × Option NodeId × Option Slot :=
  (diagnostic.kind, diagnostic.node, diagnostic.property)

/-- The numbers of a new store count from 1. -/
theorem Diagnostics.map_fst_toList (diagnostics : List Diagnostic) :
    ((∅ : Diagnostics).addAll diagnostics).toList.map (·.1) =
      List.range' 1 ((∅ : Diagnostics).addAll diagnostics).size := by
  have hcounter : (∅ : Diagnostics).counter = 0 := rfl
  have hnone : (∅ : Diagnostics).toList = [] := rfl
  have hlist : ((∅ : Diagnostics).addAll diagnostics).toList =
      diagnostics.mapIdx fun place diagnostic => (place + 1, diagnostic) := by
    simp only [toList_addAll, hcounter, hnone, Nat.zero_add, List.nil_append]
  have hsize : ((∅ : Diagnostics).addAll diagnostics).size = diagnostics.length := by
    rw [size, ← Array.length_toList, ← toList, hlist, List.length_mapIdx]
  rw [hlist, hsize]
  refine List.ext_getElem (by simp) ?_
  intro place _ _
  simp [Nat.add_comm]

theorem map_filterMap_sublist {α β κ : Type} {f : α → Option β} {g : β → κ} {key : α → κ}
    {xs : List α} (h : ∀ x ∈ xs, ∀ b, f x = some b → g b = key x) :
    ((xs.filterMap f).map g).Sublist (xs.map key) := by
  induction xs with
  | nil => exact .refl []
  | cons x xs ih =>
    have hrest := ih fun y hy => h y (List.mem_cons_of_mem x hy)
    cases hx : f x with
    | none => simpa [hx] using hrest.cons (key x)
    | some b => simpa [hx, h x List.mem_cons_self b hx] using hrest

/-- No node comes twice in the documents. -/
theorem Tree.IsFinished.nodup_documents {tree : Tree} (hf : tree.IsFinished) :
    (tree.files.flatMap fun root => (tree.preorder root).map (·.1)).Nodup := by
  refine List.nodup_flatMap.mpr ⟨fun root hroot => hf.nodup_preorder (hf.file_lt_size hroot), ?_⟩
  refine hf.nodup_files.imp_of_mem ?_
  intro first second hfirst hsecond hne id hmem hmem'
  exact hne (hf.file_eq hfirst hsecond
    (hf.under_of_mem_preorder (hf.file_lt_size hfirst) hmem)
    (hf.under_of_mem_preorder (hf.file_lt_size hsecond) hmem'))

/-- A node of a document that is no document itself stands below its root. -/
theorem Tree.IsFinished.inside_file {tree : Tree} (hf : tree.IsFinished) {root id : NodeId}
    {kind : NodeKind} (hroot : root ∈ tree.files) (hunder : tree.Under id root)
    (hkind : tree.kind id = .ok kind) (hne : kind.isFile = false) : tree.Inside id root := by
  obtain rfl | hinside := under_iff_eq_or_inside.mp hunder
  · obtain ⟨declarations, hfile⟩ := hf.kind_of_file hroot
    cases kind_inj hkind hfile
    cases hne
  · exact hinside

namespace Workspace

variable {ws : Workspace} {checks : Checks} {analysis : Analysis}

/-- What a check that answers consists of: the references of the documents, each
with what it came to, and the findings of each document. -/
structure Reported (ws : Workspace) (checks : Checks) (analysis : Analysis)
    (resolved : List (Reference × Resolution)) (found : List (List Finding)) : Prop where
  order : resolved.map (·.1) = ws.tree.files.flatMap ws.tree.linkOrder
  resolve : ∀ entry ∈ resolved, ∃ links, ws.resolve links entry.1 = .ok entry.2
  links : analysis.links = (∅ : Links).bindAll resolved
  validated : List.Forall₂
    (fun root findings => ws.tree.validate analysis.links checks root = .ok findings)
    ws.tree.files found
  diagnostics : analysis.diagnostics = (∅ : Diagnostics).addAll
    (resolved.filterMap (·.2.diagnostic?) ++ found.flatten.map Finding.diagnostic)

theorem exists_reported (hf : ws.tree.IsForest) (h : ws.check checks = .ok analysis) :
    ∃ resolved found, ws.Reported checks analysis resolved found := by
  obtain ⟨linked, found, hlinked, hfound, rfl⟩ := check_eq_ok_iff.mp h
  obtain ⟨resolved, rfl, horder, hresolved⟩ := exists_of_linkAll hf hlinked
  refine ⟨resolved, found, horder, hresolved, rfl, mapM_eq_ok_iff.mp hfound, ?_⟩
  rw [Diagnostics.addAll_append]
  rfl

namespace Reported

variable {resolved : List (Reference × Resolution)} {found : List (List Finding)}
  (h : ws.Reported checks analysis resolved found)
include h

theorem messages : analysis.diagnostics.messages =
    resolved.filterMap (·.2.diagnostic?) ++ found.flatten.map Finding.diagnostic := by
  rw [h.diagnostics, Diagnostics.messages_addAll, Diagnostics.messages_empty, List.nil_append]

theorem nodup_sites (hf : ws.tree.IsFinished) : (resolved.map (·.1.site)).Nodup :=
  hf.nodup_sites h.order (fun _ hroot => hroot) hf.nodup_files

/-- A message of the linker is about a reference below the root of a document
that is not bound. -/
theorem of_mem_nameErrors (hf : ws.tree.IsFinished) {diagnostic : Diagnostic}
    (hmem : diagnostic ∈ resolved.filterMap (·.2.diagnostic?)) :
    ∃ reference span nothingVisible,
      (∃ root ∈ ws.tree.files, ws.tree.Inside reference.site.node root) ∧
      ws.tree.span reference.site.node = .ok span ∧
      analysis.links.get? reference.site = none ∧
      diagnostic = unknownName reference span nothingVisible := by
  obtain ⟨⟨reference, resolution⟩, hentry, hdiagnostic⟩ := List.mem_filterMap.mp hmem
  obtain ⟨links, hresolve⟩ := h.resolve _ hentry
  cases resolution with
  | unresolved found =>
    cases hdiagnostic
    obtain ⟨scope, span, _, _, hspan, hunknown⟩ := resolve_eq_unresolved_iff.mp hresolve
    have href : reference ∈ ws.tree.files.flatMap ws.tree.linkOrder :=
      h.order ▸ List.mem_map_of_mem hentry
    refine ⟨reference, span, scope.isEmpty, ?_, hspan, ?_, hunknown.symm⟩
    · obtain ⟨⟨root, hroot, hunder⟩, kind, hkind, hslot⟩ :=
        (hf.mem_flatMap_linkOrder (fun _ hroot => hroot) href).1
      refine ⟨root, hroot, hf.inside_file hroot hunder hkind ?_⟩
      cases kind with
      | file _ => cases hslot
      | _ => rfl
    · rw [h.links, Links.get?_bindAll_of_mem (h.nodup_sites hf) hentry]
      simp [Resolution.target?]
  | bound _ | skipped _ => cases hdiagnostic

/-- A message of the validator is about a problem of a node below the root of a
document. -/
theorem of_mem_findings (hf : ws.tree.IsFinished) {finding : Finding}
    (hmem : finding ∈ found.flatten) :
    ∃ id kind span, (∃ root ∈ ws.tree.files, ws.tree.Inside id root) ∧
      ws.tree.span id = .ok span ∧
      ws.tree.HasProblem analysis.links checks id kind finding.problem ∧
      finding.location = ⟨id, finding.problem.property, span⟩ := by
  obtain ⟨findings, hfindings, hmem⟩ := List.mem_flatten.mp hmem
  obtain ⟨root, hroot, hvalidate⟩ := exists_of_mem_mapM (mapM_eq_ok_iff.mpr h.validated) hfindings
  obtain ⟨id, kind, span, hunder, hkind, hspan, hproblem, hlocation⟩ :=
    Tree.exists_of_mem_validate hf.toIsForest hvalidate hmem
  have hterm := hproblem.isTerm
  refine ⟨id, kind, span, ⟨root, hroot, hf.inside_file hroot hunder hkind ?_⟩, hspan, hproblem,
    hlocation⟩
  cases kind with
  | file _ => cases hterm
  | _ => rfl

theorem sublist_documents (hf : ws.tree.IsForest) :
    (found.flatten.map (·.location.node)).Sublist
      (ws.tree.files.flatMap fun root => (ws.tree.preorder root).map (·.1)) := by
  have hall := h.validated
  clear h
  generalize ws.tree.files = files at hall
  induction hall with
  | nil => exact .refl []
  | cons hvalidate _ ih =>
    simpa using (Tree.sublist_preorder_of_validate hf hvalidate).append ih

end Reported

/-! ## The order of the messages -/

/-- A check that answers comes to what one pass comes to.  Its messages are
numbered from 1; those about names come first, then those of the validator, one
document after the other and in each in preorder of the nodes. -/
theorem check_reports_in_order {source : SourceId} {steps : List BuildStep}
    (hbuild : Tree.build source steps = .ok ws.tree) (hcheck : ws.check checks = .ok analysis) :
    ws.checkInOnePass checks = .ok analysis ∧
      analysis.diagnostics.toList.map (·.1) = List.range' 1 analysis.diagnostics.size ∧
      ∃ names groups, analysis.diagnostics.messages = names ++ groups.flatten ∧
        (∀ diagnostic ∈ names, diagnostic.kind = .name) ∧
        List.Forall₂ (fun root group =>
          (∀ diagnostic ∈ group, diagnostic.kind = .validation) ∧
            (group.map (·.node)).Sublist ((ws.tree.preorder root).map (some ·.1)))
          ws.tree.files groups := by
  have hf := (Tree.isFinished_of_build hbuild).toIsForest
  obtain ⟨resolved, found, h⟩ := exists_reported hf hcheck
  refine ⟨(ws.check_eq_checkInOnePass checks).symm.trans hcheck, ?_,
    resolved.filterMap (·.2.diagnostic?), found.map (·.map Finding.diagnostic), ?_, ?_, ?_⟩
  · rw [h.diagnostics]
    exact Diagnostics.map_fst_toList _
  · rw [h.messages, List.map_flatten]
  · intro diagnostic hmem
    obtain ⟨entry, hentry, hdiagnostic⟩ := List.mem_filterMap.mp hmem
    obtain ⟨links, hresolve⟩ := h.resolve entry hentry
    obtain ⟨span, nothingVisible, rfl⟩ := exists_unknownName hresolve hdiagnostic
    rfl
  · rw [List.forall₂_map_right_iff]
    refine h.validated.imp ?_
    intro root findings hvalidate
    refine ⟨?_, ?_⟩
    · intro diagnostic hmem
      obtain ⟨finding, _, rfl⟩ := List.mem_map.mp hmem
      rfl
    · have hnodes := (Tree.sublist_preorder_of_validate hf hvalidate).map some
      rw [List.map_map, List.map_map] at hnodes
      rw [List.map_map]
      exact hnodes

/-- Two documents that do not follow the grammar: expressions stand beside the
declarations, and one of them names a port with no node type around it. -/
def looseExpressions : List BuildStep := [
  .node (.type .integer),
  .node (.constructor "One" [0]),
  .node (.dataType "D" [] [1]),
  .node (.expr (.apply "Uno" [])),
  .node (.expr (.variableDefinition "x")),
  .node (.expr (.apply "Gone" [4])),
  .node (.file [2, 3, 5]),
  .switchSource 2,
  .node (.type (.apply "Missing" [])),
  .node (.expr (.selfPort "out")),
  .node (.expr (.apply "One" [])),
  .node (.file [7, 8, 9])]

/-- A workspace in which the constructor `One` is visible as `Uno`. -/
def ofRenamed (tree : Tree) : Workspace where
  tree := tree
  index := { dataTypes := [2] }
  naming := .adjusted [(1, "Uno")] []

theorem check_reports_in_order_looseExpressions :
    ∃ tree analysis, Tree.build 1 looseExpressions = .ok tree ∧
      (ofRenamed tree).check {} = .ok analysis ∧
      (ofRenamed tree).checkInOnePass {} = .ok analysis ∧
      analysis.diagnostics.toList.map (·.1) = List.range' 1 9 ∧
      analysis.diagnostics.messages.map (fun message => (message.kind, message.node)) =
        [(.name, some 5), (.name, some 7), (.name, some 9), (.validation, some 3),
          (.validation, some 5), (.validation, some 4), (.validation, some 7),
          (.validation, some 8), (.validation, some 9)] := by
  obtain ⟨tree, hbuild⟩ : ∃ tree, Tree.build 1 looseExpressions = .ok tree := ⟨_, rfl⟩
  obtain ⟨analysis, hcheck⟩ : ∃ analysis, (ofRenamed tree).check {} = .ok analysis := by
    cases hbuild
    exact ⟨_, rfl⟩
  obtain ⟨hpass, hids, _⟩ := check_reports_in_order hbuild hcheck
  have hsize : analysis.diagnostics.size = 9 := by
    cases hbuild
    cases hcheck
    rfl
  refine ⟨tree, analysis, hbuild, hcheck, hpass, hsize ▸ hids, ?_⟩
  cases hbuild
  cases hcheck
  rfl

/-! ## What the messages are about -/

namespace Reported

variable {resolved : List (Reference × Resolution)} {found : List (List Finding)}
  (hf : ws.tree.IsFinished) (h : ws.Reported checks analysis resolved found)
include hf h

/-- The messages of the linker are about different references. -/
theorem nodup_nameErrors :
    ((resolved.filterMap (·.2.diagnostic?)).map Diagnostic.subject).Nodup := by
  have hinjective : Function.Injective fun site : Site =>
      (DiagnosticKind.name, some site.node, some site.slot) := by
    rintro ⟨node, slot⟩ ⟨node', slot'⟩ heq
    cases heq
    rfl
  have hsites := (h.nodup_sites hf).map hinjective
  rw [List.map_map] at hsites
  refine hsites.sublist (map_filterMap_sublist ?_)
  intro entry hentry diagnostic hdiagnostic
  obtain ⟨links, hresolve⟩ := h.resolve entry hentry
  obtain ⟨span, nothingVisible, rfl⟩ := exists_unknownName hresolve hdiagnostic
  rfl

/-- The messages of the validator point at different nodes. -/
theorem nodup_findings :
    ((found.flatten.map Finding.diagnostic).map Diagnostic.subject).Nodup := by
  have hnodes := (hf.nodup_documents.sublist (h.sublist_documents hf.toIsForest)).map
    fun _ _ => Option.some.inj
  refine List.Nodup.of_map (fun subject => subject.2.1) ?_
  rw [List.map_map] at hnodes
  rw [List.map_map, List.map_map]
  exact hnodes

theorem nodup_subjects : (analysis.diagnostics.messages.map Diagnostic.subject).Nodup := by
  rw [h.messages, List.map_append, List.nodup_append]
  refine ⟨h.nodup_nameErrors hf, h.nodup_findings hf, ?_⟩
  intro subject hname other hfinding heq
  obtain ⟨diagnostic, hdiagnostic, rfl⟩ := List.mem_map.mp hname
  obtain ⟨_, _, _, _, _, _, rfl⟩ := h.of_mem_nameErrors hf hdiagnostic
  rw [List.map_map] at hfinding
  obtain ⟨finding, _, rfl⟩ := List.mem_map.mp hfinding
  cases heq

end Reported

/-- Nothing is reported twice: no two messages agree in the part of the work that
they come from, in the node and in the slot.  Every message points at a node
below the root of a document and at the span of that node.  No message
contradicts the table: a name that is reported is not bound, and arguments are
counted only where a constructor is bound. -/
theorem check_reports_once {source : SourceId} {steps : List BuildStep}
    (hbuild : Tree.build source steps = .ok ws.tree) (hcheck : ws.check checks = .ok analysis) :
    (analysis.diagnostics.messages.map Diagnostic.subject).Nodup ∧
      ∀ diagnostic ∈ analysis.diagnostics.messages,
        ∃ id, diagnostic.node = some id ∧ ws.tree.span id = .ok diagnostic.span ∧
          (∃ root ∈ ws.tree.files, ws.tree.Inside id root) ∧
          (diagnostic.kind = .name → ∃ slot, diagnostic.property = some slot ∧
            analysis.links.target id slot = none) ∧
          (diagnostic.kind = .validation → diagnostic.property = some .constructor →
            ∃ constructor name args, analysis.links.target id .constructor = some constructor ∧
              ws.tree.kind constructor = .ok (.constructor name args)) := by
  have hf := Tree.isFinished_of_build hbuild
  obtain ⟨resolved, found, h⟩ := exists_reported hf.toIsForest hcheck
  refine ⟨h.nodup_subjects hf, ?_⟩
  intro diagnostic hmem
  rw [h.messages] at hmem
  obtain hmem | hmem := List.mem_append.mp hmem
  · obtain ⟨reference, span, nothingVisible, hinside, hspan, hunbound, rfl⟩ :=
      h.of_mem_nameErrors hf hmem
    refine ⟨reference.site.node, rfl, hspan, hinside, ?_, ?_⟩
    · intro _
      exact ⟨reference.site.slot, rfl, hunbound⟩
    · intro hvalidation
      cases hvalidation
  · obtain ⟨⟨problem, location⟩, hfinding, rfl⟩ := List.mem_map.mp hmem
    obtain ⟨id, kind, span, hinside, hspan, hproblem, hlocation⟩ := h.of_mem_findings hf hfinding
    obtain rfl : location = ⟨id, problem.property, span⟩ := hlocation
    refine ⟨id, rfl, hspan, hinside, ?_, ?_⟩
    · intro hname
      cases hname
    · intro _ hproperty
      exact hproblem.exists_constructor hproperty

theorem check_reports_once_looseExpressions :
    ∃ tree analysis, Tree.build 1 looseExpressions = .ok tree ∧
      (ofRenamed tree).check {} = .ok analysis ∧
      (analysis.diagnostics.messages.map Diagnostic.subject).Nodup ∧
      analysis.diagnostics.messages.map Diagnostic.subject =
        [(.name, some 5, some .constructor), (.name, some 7, some .dataType),
          (.name, some 9, some .constructor), (.validation, some 3, some .constructor),
          (.validation, some 5, none), (.validation, some 4, none), (.validation, some 7, none),
          (.validation, some 8, none), (.validation, some 9, none)] ∧
      analysis.links.toList = [(⟨3, .constructor⟩, 1)] := by
  obtain ⟨tree, hbuild⟩ : ∃ tree, Tree.build 1 looseExpressions = .ok tree := ⟨_, rfl⟩
  obtain ⟨analysis, hcheck⟩ : ∃ analysis, (ofRenamed tree).check {} = .ok analysis := by
    cases hbuild
    exact ⟨_, rfl⟩
  refine ⟨tree, analysis, hbuild, hcheck, (check_reports_once hbuild hcheck).1, ?_, ?_⟩
  · cases hbuild
    cases hcheck
    rfl
  · cases hbuild
    cases hcheck
    rfl

end Workspace

end Dataflow
