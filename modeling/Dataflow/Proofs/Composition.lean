import Dataflow.Proofs.Checking
import Dataflow.Proofs.Findings

/-!
# Dataflow.Proofs.Composition

How the findings of a subtree are put together.  The walk by a stack inspects one
node after the other, and what is found at a node hangs on the node alone and not
on where the walk began.  So validation is recursive: first comes what is found
at the root, and then what is found below each child
(`Tree.IsForest.validate_eq`).  What it finds at some of the nodes is what is
found at these by themselves (`Tree.filter_findings`), so that the shape error
that cuts the inspection of a node short is of no consequence for the others.
-/

namespace Dataflow

/-- A shape error cuts an inspection short and does not end it. -/
theorem Report.ofChecks_ne_malformed (checks : List (Result (List Problem))) (error : ShapeError) :
    ofChecks checks ≠ malformed error := by
  induction checks with
  | nil => exact nofun
  | cons check checks ih =>
    intro h
    rw [ofChecks] at h
    cases check with
    | ok problems =>
      rw [attempt_ok, ok_bind] at h
      cases hrest : ofChecks checks with
      | ok report =>
        rw [hrest] at h
        cases h
      | error halt =>
        rw [hrest] at h
        cases h
        exact ih hrest
    | error halt => cases halt <;> cases h

namespace Tree

variable {tree : Tree} {links : Links} {checks : Checks} {root id : NodeId} {kind : NodeKind}
  {findings : List Finding}

/-! ## Validation by recursion -/

namespace IsForest

variable (hf : tree.IsForest)
include hf

theorem validate_eq_mapM (links : Links) (checks : Checks) (hroot : root < tree.size) :
    tree.validate links checks root = List.flatten <$> (tree.preorder root).mapM fun entry =>
      tree.findingsAt links checks entry.1 entry.2 := by
  rw [validate, hf.subtree_eq_preorder hroot, ok_bind]
  exact bind_pure_comp _ _

/-- Validation of a node: what is found at the node itself, and then what is found
below its children, one child after the other. -/
theorem validate_eq (links : Links) (checks : Checks) (hkind : tree.kind root = .ok kind) :
    tree.validate links checks root = do
      let own ← tree.findingsAt links checks root kind
      let below ← kind.children.mapM (tree.validate links checks)
      return own ++ below.flatten := by
  have hbelow : kind.children.mapM (tree.validate links checks) =
      List.map List.flatten <$> kind.children.mapM fun child =>
        (tree.preorder child).mapM fun entry => tree.findingsAt links checks entry.1 entry.2 := by
    rw [← mapM_map_answer]
    refine mapM_congr fun child hmem => ?_
    rw [hf.validate_eq_mapM links checks (hf.child_lt_size hkind hmem)]
    exact (bind_pure_comp _ _).symm
  rw [hf.validate_eq_mapM links checks (lt_size_of_kind hkind), hf.preorder_eq hkind,
    List.mapM_cons, mapM_flatMap, hbelow]
  cases tree.findingsAt links checks root kind with
  | error halt => rfl
  | ok own =>
    cases kind.children.mapM fun child =>
        (tree.preorder child).mapM fun entry => tree.findingsAt links checks entry.1 entry.2 with
    | error halt => rfl
    | ok below => simp [List.flatten_flatten]

/-- No shape error ends validation. -/
theorem validate_ne_malformed (links : Links) (checks : Checks) (root : NodeId)
    (error : ShapeError) : tree.validate links checks root ≠ malformed error := by
  intro h
  by_cases hroot : root < tree.size
  · rw [hf.validate_eq_mapM links checks hroot] at h
    cases hall : (tree.preorder root).mapM fun entry =>
        tree.findingsAt links checks entry.1 entry.2 with
    | ok found =>
      rw [hall] at h
      cases h
    | error halt =>
      rw [hall] at h
      cases h
      obtain ⟨before, entry, after, hsplit, _, hentry⟩ := mapM_eq_error_iff.mp hall
      have hmem : entry ∈ tree.preorder root :=
        hsplit ▸ List.mem_append_right before List.mem_cons_self
      obtain ⟨span, hspan⟩ := exists_span_of_lt
        (lt_size_of_kind ((hf.mem_preorder_iff hroot).mp hmem).2)
      rw [findingsAt, hspan, ok_bind] at hentry
      cases hreport : tree.inspect links checks entry.1 entry.2 with
      | ok report =>
        rw [hreport] at hentry
        cases hentry
      | error halt =>
        rw [hreport] at hentry
        cases hentry
        exact Report.ofChecks_ne_malformed _ _ hreport
  · have hnode := node_eq_abort_iff.mpr ⟨Nat.not_lt.mp hroot, rfl⟩
    rw [validate, subtree, visit, Tree.kind, hnode] at h
    cases h

/-- What is found below a node is found in one piece wherever validation begins above
it. -/
theorem validate_infix (hunder : tree.Under id root)
    (h : tree.validate links checks root = .ok findings) :
    ∃ part, tree.validate links checks id = .ok part ∧ part <:+: findings := by
  induction hunder generalizing findings with
  | refl => exact ⟨findings, h, List.infix_refl findings⟩
  | tail _ hparent ih =>
    obtain ⟨kind, hkind, hmem⟩ := hf.child_of_parent hparent
    rw [hf.validate_eq links checks hkind] at h
    obtain ⟨own, _, h⟩ := bind_eq_ok_iff.mp h
    obtain ⟨below, hbelow, h⟩ := bind_eq_ok_iff.mp h
    cases h
    obtain ⟨whole, hwhole, hchild⟩ := exists_of_mem_of_mapM hbelow hmem
    obtain ⟨part, hpart, hinfix⟩ := ih hchild
    refine ⟨part, hpart, hinfix.trans ((List.infix_of_mem_flatten hwhole).trans ?_)⟩
    exact (List.suffix_append own below.flatten).isInfix

end IsForest

/-! ## The nodes by themselves -/

theorem node_of_mem_findingsAt (h : tree.findingsAt links checks id kind = .ok findings) :
    ∀ finding ∈ findings, finding.location.node = id := by
  obtain ⟨span, report, _, _, rfl⟩ := exists_of_findingsAt h
  intro finding hmem
  obtain ⟨problem, _, rfl⟩ := List.mem_map.mp hmem
  rfl

/-- What is found at some of the nodes that are inspected is what is found at these
by themselves, in their order. -/
theorem filter_findings {entries : List (NodeId × NodeKind)} {found : List (List Finding)}
    (h : List.Forall₂ (fun entry list => tree.findingsAt links checks entry.1 entry.2 = .ok list)
      entries found) (p : NodeId → Bool) :
    ∃ kept, ((entries.filter fun entry => p entry.1).mapM fun entry =>
        tree.findingsAt links checks entry.1 entry.2) = .ok kept ∧
      found.flatten.filter (fun finding => p finding.location.node) = kept.flatten := by
  induction h with
  | nil => exact ⟨[], rfl, rfl⟩
  | @cons entry list entries found hentry _ ih =>
    obtain ⟨kept, hkept, hfilter⟩ := ih
    have hnode := node_of_mem_findingsAt hentry
    rw [List.flatten_cons, List.filter_append, hfilter]
    cases hp : p entry.1 with
    | true =>
      have hall : list.filter (fun finding => p finding.location.node) = list := by
        rw [List.filter_eq_self]
        intro finding hmem
        rw [hnode finding hmem, hp]
      refine ⟨list :: kept, ?_, by rw [hall, List.flatten_cons]⟩
      rw [List.filter_cons, if_pos hp, List.mapM_cons, hentry, hkept]
      rfl
    | false =>
      have hnone : list.filter (fun finding => p finding.location.node) = [] := by
        rw [List.filter_eq_nil_iff]
        intro finding hmem
        simp [hnode finding hmem, hp]
      refine ⟨kept, ?_, by rw [hnone, List.nil_append]⟩
      rw [List.filter_cons, if_neg (by simp [hp]), hkept]

/-- What validation finds at a node is what is found when the node is inspected by
itself. -/
theorem IsForest.findings_of_node (hf : tree.IsForest)
    (h : tree.validate links checks root = .ok findings) (hunder : tree.Under id root)
    (hkind : tree.kind id = .ok kind) :
    tree.findingsAt links checks id kind = .ok (findings.filter (·.location.node = id)) := by
  obtain ⟨hroot, found, rfl, hall⟩ := exists_of_validate hf h
  obtain ⟨kept, hkept, hfilter⟩ := filter_findings hall (· = id)
  have hmem := (hf.mem_preorder_iff hroot).mpr ⟨hunder, hkind⟩
  have hsingle : (tree.preorder root).filter (·.1 = id) = [(id, kind)] := by
    simpa using Workspace.filter_filterMap_of_nodup (f := some) (p := (·.1 = id))
      (hf.nodup_preorder hroot) hmem (by simp)
  rw [hsingle] at hkept
  cases mapM_eq_ok_iff.mp hkept with
  | cons hown hnone =>
    cases hnone
    rw [hfilter, List.flatten_singleton]
    exact hown

/-! ## Compositional validation -/

/-- Validation is put together from the nodes and isolates their failures, in a
tree of any shape and by any table.  It never ends in a shape error.  Where it
answers, it finds what is found at the root, and then what validation of each
child finds, in order, and the messages come in this order to any store; so what
validation of any node of the subtree finds is one piece of it.  At each of these
nodes it finds what the inspection of that node comes to, be it cut short by a
shape error, and elsewhere what the inspections of the other nodes come to, in
their order. -/
theorem validate_composes {source : SourceId} {steps : List BuildStep}
    (hbuild : Tree.build source steps = .ok tree) (links : Links) (checks : Checks)
    (root : NodeId) :
    (∀ error, tree.validate links checks root ≠ malformed error) ∧
    ∀ findings, tree.validate links checks root = .ok findings →
      (∃ kind own below, tree.kind root = .ok kind ∧
        tree.findingsAt links checks root kind = .ok own ∧
        kind.children.mapM (tree.validate links checks) = .ok below ∧
        findings = own ++ below.flatten ∧
        ∀ store : Diagnostics, store.report findings =
          below.foldl Diagnostics.report (store.report own)) ∧
      ∃ entries, tree.subtree root = .ok entries ∧ ∀ id kind, (id, kind) ∈ entries →
        (∃ part, tree.validate links checks id = .ok part ∧ part <:+: findings) ∧
        ∃ span report others, tree.span id = .ok span ∧
          tree.inspect links checks id kind = .ok report ∧
          findings.filter (·.location.node = id) = report.problems.map
            (fun problem => ⟨problem, ⟨id, problem.property, span⟩⟩) ∧
          ((entries.filter (·.1 ≠ id)).mapM fun entry =>
            tree.findingsAt links checks entry.1 entry.2) = .ok others ∧
          findings.filter (·.location.node ≠ id) = others.flatten := by
  have hf := (isFinished_of_build hbuild).toIsForest
  refine ⟨hf.validate_ne_malformed links checks root, ?_⟩
  intro findings h
  obtain ⟨hroot, found, hfound, hall⟩ := exists_of_validate hf h
  refine ⟨?_, tree.preorder root, hf.subtree_eq_preorder hroot, ?_⟩
  · obtain ⟨kind, hkind⟩ := exists_kind_of_lt hroot
    rw [hf.validate_eq links checks hkind] at h
    obtain ⟨own, hown, h⟩ := bind_eq_ok_iff.mp h
    obtain ⟨below, hbelow, h⟩ := bind_eq_ok_iff.mp h
    cases h
    refine ⟨kind, own, below, hkind, hown, hbelow, rfl, ?_⟩
    intro store
    exact (Diagnostics.foldl_report store (own :: below)).symm
  · intro id kind hmem
    obtain ⟨hunder, hkind⟩ := (hf.mem_preorder_iff hroot).mp hmem
    obtain ⟨span, report, hspan, hreport, hown⟩ :=
      exists_of_findingsAt (hf.findings_of_node h hunder hkind)
    obtain ⟨others, hothers, hfilter⟩ := filter_findings hall (· ≠ id)
    exact ⟨hf.validate_infix hunder h, span, report, others, hspan, hreport, hown, hothers,
      hfound ▸ hfilter⟩

/-- An application that refers to a body, between expressions that refer to
nothing. -/
def bodyAsConstructor : List BuildStep := [
  .node (.expr (.variableUsage "x")),
  .node (.body [] [] []),
  .node (.expr (.apply "Mk" [0])),
  .node (.expr (.variableUsage "y")),
  .node (.expr (.binary 2 .add 3))]

theorem validate_composes_bodyAsConstructor :
    ∃ tree links findings, Tree.build 1 bodyAsConstructor = .ok tree ∧
      links = (∅ : Links).bind ⟨2, .constructor⟩ 1 ∧
      tree.validate links {} 4 = .ok findings ∧
      (∃ own below, [2, 3].mapM (tree.validate links {}) = .ok below ∧
        findings = own ++ below.flatten) ∧
      (∃ part, tree.validate links {} 2 = .ok part ∧ part <:+: findings) ∧
      tree.inspect links {} 2 (.expr (.apply "Mk" [0])) =
        .ok ⟨[.untypedExpression], some (.unexpectedNode 1 .constructor)⟩ ∧
      findings.filter (·.location.node = 2) = [⟨.untypedExpression, ⟨2, none, .origin 1⟩⟩] ∧
      (∃ others : List (List Finding), findings.filter (·.location.node ≠ 2) = others.flatten) ∧
      findings.map (·.location.node) = [4, 2, 0, 3] := by
  obtain ⟨tree, hbuild⟩ : ∃ tree, Tree.build 1 bodyAsConstructor = .ok tree := ⟨_, rfl⟩
  obtain ⟨links, hlinks⟩ : ∃ links, links = (∅ : Links).bind ⟨2, .constructor⟩ 1 := ⟨_, rfl⟩
  obtain ⟨findings, hvalidate⟩ : ∃ findings, tree.validate links {} 4 = .ok findings := by
    cases hbuild
    cases hlinks
    exact ⟨_, rfl⟩
  have hinspect : tree.inspect links {} 2 (.expr (.apply "Mk" [0])) =
      .ok ⟨[.untypedExpression], some (.unexpectedNode 1 .constructor)⟩ := by
    cases hbuild
    cases hlinks
    rfl
  have hkind : tree.kind 4 = .ok (.expr (.binary 2 .add 3)) := by
    cases hbuild
    rfl
  have hspan : tree.span 2 = .ok (.origin 1) := by
    cases hbuild
    rfl
  have hnodes : findings.map (·.location.node) = [4, 2, 0, 3] := by
    cases hbuild
    cases hlinks
    cases hvalidate
    rfl
  obtain ⟨⟨kind, own, below, hroot, _, hbelow, hparts, _⟩, entries, hentries, hall⟩ :=
    (validate_composes hbuild links {} 4).2 findings hvalidate
  cases kind_inj hkind hroot
  have hmem : (2, NodeKind.expr (.apply "Mk" [0])) ∈ entries := by
    cases hbuild
    cases hentries
    decide
  obtain ⟨hpart, span, report, others, hspan', hreport, hown, _, hothers⟩ := hall 2 _ hmem
  cases hspan.symm.trans hspan'
  cases hinspect.symm.trans hreport
  exact ⟨tree, links, findings, hbuild, hlinks, hvalidate, ⟨own, below, hbelow, hparts⟩, hpart,
    hinspect, hown, ⟨others, hothers⟩, hnodes⟩

end Tree

end Dataflow
