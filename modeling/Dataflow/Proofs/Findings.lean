import Dataflow.Proofs.Validation

/-!
# Dataflow.Proofs.Findings

What validation finds, in trees that need not follow the grammar and by tables
that may bind anything to anything.

Whatever is found at a node is a problem of the node
(`Tree.hasProblem_of_inspect`), and at most one check finds something there
(`Tree.length_problems_le_one`).  So the findings of a document are in preorder
and no node comes twice (`Tree.sublist_preorder_of_validate`).
-/

namespace Dataflow

/-! ## What a node is found to have -/

namespace Report

/-- What a check found, if it came to an answer. -/
def found : Result (List Problem) → List Problem
  | .ok problems => problems
  | .error _ => []

@[simp] theorem found_ok (problems : List Problem) : found (.ok problems) = problems := rfl

@[simp] theorem found_error (halt : Halt) : found (.error halt) = [] := rfl

/-- An inspection finds what its checks find, up to the first shape error. -/
theorem sublist_of_ofChecks {checks : List (Result (List Problem))} {report : Report}
    (h : ofChecks checks = .ok report) : report.problems.Sublist (checks.flatMap found) := by
  induction checks generalizing report with
  | nil =>
    cases h
    exact .refl []
  | cons check checks ih =>
    rw [ofChecks] at h
    cases check with
    | ok problems =>
      rw [attempt_ok, ok_bind] at h
      obtain ⟨rest, hrest, h⟩ := bind_eq_ok_iff.mp h
      cases h
      exact (List.Sublist.refl problems).append (ih hrest)
    | error halt =>
      cases halt with
      | shape error =>
        cases h
        exact List.nil_sublist _
      | fault fault => cases h

theorem eq_ok_of_mem_found {check : Result (List Problem)} {problem : Problem}
    (h : problem ∈ found check) : ∃ problems, check = .ok problems ∧ problem ∈ problems := by
  cases check with
  | ok problems => exact ⟨problems, rfl, h⟩
  | error halt => cases h

end Report

namespace Tree

variable {tree : Tree} {links : Links} {checks : Checks} {id : NodeId} {kind : NodeKind}

theorem of_mem_checkType {problem : Problem}
    (h : problem ∈ Report.found (tree.checkType links checks id kind)) :
    checks.untyped? kind = some problem ∧ tree.HasType links id .untyped := by
  obtain ⟨problems, hcheck, hmem⟩ := Report.eq_ok_of_mem_found h
  unfold checkType at hcheck
  split at hcheck
  · cases hcheck
    cases hmem
  · rename_i found huntyped
    obtain ⟨ty, hty, hcheck⟩ := bind_eq_ok_iff.mp hcheck
    cases hcheck
    split at hmem
    · rename_i hnone
      rw [Ty.isUntyped_iff.mp hnone] at hty
      rw [List.mem_singleton.mp hmem]
      exact ⟨huntyped, infer_eq_ok_iff.mp hty⟩
    · cases hmem

theorem of_mem_checkArity {problem : Problem}
    (h : problem ∈ Report.found (tree.checkArity links checks id kind)) :
    ∃ applied args constructor name declared, kind = .expr (.apply applied args) ∧
      checks.constructorArity = true ∧ links.target id .constructor = some constructor ∧
      tree.kind constructor = .ok (.constructor name declared) ∧
      declared.length ≠ args.length ∧
      problem = .constructorArity name declared.length args.length := by
  obtain ⟨problems, hcheck, hmem⟩ := Report.eq_ok_of_mem_found h
  unfold checkArity at hcheck
  split at hcheck
  · split at hcheck
    · rename_i hon htarget
      obtain ⟨ckind, hckind, hcheck⟩ := bind_eq_ok_iff.mp hcheck
      split at hcheck
      · cases hcheck
        split at hmem
        · cases hmem
        · rename_i hne
          exact ⟨_, _, _, _, _, rfl, hon, htarget, hckind, hne, List.mem_singleton.mp hmem⟩
      · cases hcheck
    · cases hcheck
      cases hmem
  · cases hcheck
    cases hmem

theorem of_mem_checkVariable {problem : Problem}
    (h : problem ∈ Report.found (tree.checkVariable checks id kind)) :
    ∃ name ancestors, kind = .expr (.variableDefinition name) ∧ checks.matchVariables = true ∧
      tree.lineage id = .ok ancestors ∧
      variableProblem? (ancestors.map (·.2)) = some problem := by
  obtain ⟨problems, hcheck, hmem⟩ := Report.eq_ok_of_mem_found h
  unfold checkVariable at hcheck
  split at hcheck
  · split at hcheck
    · rename_i hon
      obtain ⟨ancestors, hancestors, hcheck⟩ := bind_eq_ok_iff.mp hcheck
      cases hcheck
      exact ⟨_, ancestors, rfl, hon, hancestors, Option.mem_toList.mp hmem⟩
    · cases hcheck
      cases hmem
  · cases hcheck
    cases hmem

/-- Whatever an inspection finds is a problem of the node. -/
theorem hasProblem_of_inspect {report : Report} {problem : Problem}
    (h : tree.inspect links checks id kind = .ok report) (hmem : problem ∈ report.problems) :
    tree.HasProblem links checks id kind problem := by
  have hfound := (Report.sublist_of_ofChecks h).subset hmem
  simp only [List.flatMap_cons, List.flatMap_nil, List.append_nil, List.mem_append] at hfound
  obtain hfound | hfound | hfound := hfound
  · obtain ⟨hcheck, htype⟩ := of_mem_checkType hfound
    exact .untyped hcheck htype
  · obtain ⟨_, _, _, _, _, rfl, hcheck, htarget, hconstructor, hne, rfl⟩ := of_mem_checkArity hfound
    exact .arity hcheck htarget hconstructor hne
  · obtain ⟨_, _, rfl, hcheck, hancestors, hproblem⟩ := of_mem_checkVariable hfound
    exact .misplaced hcheck hancestors hproblem

/-- Only the number of arguments is a problem of a reference. -/
theorem property_of_untyped? {problem : Problem} (h : checks.untyped? kind = some problem) :
    problem.property = none := by
  unfold Checks.untyped? at h
  grind [Problem.property]

theorem property_of_variableProblem? {ancestors : List NodeKind} {problem : Problem}
    (h : variableProblem? ancestors = some problem) : problem.property = none := by
  unfold variableProblem? at h
  grind [Problem.property]

/-- Only expressions and type expressions have problems. -/
theorem HasProblem.isTerm {problem : Problem} (h : tree.HasProblem links checks id kind problem) :
    kind.isTerm = true := by
  cases h with
  | untyped hcheck _ => exact isTerm_of_untyped? hcheck
  | arity _ _ _ _ | misplaced _ _ _ => rfl

/-- Arguments are counted only where a constructor is bound. -/
theorem HasProblem.exists_constructor {problem : Problem}
    (h : tree.HasProblem links checks id kind problem)
    (hproperty : problem.property = some .constructor) :
    ∃ constructor name declared, links.target id .constructor = some constructor ∧
      tree.kind constructor = .ok (.constructor name declared) := by
  cases h with
  | untyped hcheck _ => cases (property_of_untyped? hcheck).symm.trans hproperty
  | arity _ htarget hconstructor _ => exact ⟨_, _, _, htarget, hconstructor⟩
  | misplaced _ _ hproblem => cases (property_of_variableProblem? hproblem).symm.trans hproperty

/-! ## At most one problem -/

/-- An application that is bound to a constructor does not go without a type. -/
theorem not_hasType_untyped_of_constructor {applied name : String} {args declared : List NodeId}
    {constructor : NodeId} (hkind : tree.kind id = .ok (.expr (.apply applied args)))
    (htarget : links.target id .constructor = some constructor)
    (hconstructor : tree.kind constructor = .ok (.constructor name declared)) :
    ¬ tree.HasType links id .untyped := by
  have hstep : tree.typeStep links id = .ok (.sameAs constructor) := by
    simp [typeStep, hkind, exprStep, htarget, TypeStep.ofTarget]
  have hlast : tree.typeStep links constructor = .settled <$> tree.constructorType constructor := by
    simp [typeStep, hconstructor]
  have hnamed : tree.constructorType constructor ≠ .ok .untyped := by
    intro h
    obtain ⟨owner, _, h⟩ := bind_eq_ok_iff.mp h
    cases owner with
    | none => cases h
    | some owner =>
      obtain ⟨okind, _, h⟩ := bind_eq_ok_iff.mp h
      cases okind <;> cases h
  intro h
  cases h with
  | settled h => simp [hstep] at h
  | sameAs h hnext =>
    rw [hstep] at h
    cases h
    cases hnext with
    | settled h =>
      rw [hlast, map_eq_ok_iff] at h
      obtain ⟨ty, hty, h⟩ := h
      cases h
      exact hnamed hty
    | sameAs h _ =>
      rw [hlast, map_eq_ok_iff] at h
      obtain ⟨ty, _, h⟩ := h
      cases h

/-- Each check finds at most one thing. -/
theorem length_found_checkType (tree : Tree) (links : Links) (checks : Checks) (id : NodeId)
    (kind : NodeKind) :
    (Report.found (tree.checkType links checks id kind)).length ≤ 1 := by
  unfold checkType
  cases checks.untyped? kind with
  | none => simp
  | some problem =>
    cases tree.infer links id with
    | error halt => simp
    | ok ty => by_cases hty : ty = .untyped <;> simp [hty]

theorem length_found_checkArity (tree : Tree) (links : Links) (checks : Checks) (id : NodeId)
    (kind : NodeKind) :
    (Report.found (tree.checkArity links checks id kind)).length ≤ 1 := by
  unfold checkArity
  split
  · split
    · rename_i constructor _ _
      cases tree.kind constructor with
      | error halt => simp
      | ok ckind =>
        simp only [ok_bind]
        split
        · simp only [pure_eq_ok, Report.found_ok]
          split <;> simp
        · simp [malformed]
    · simp
  · simp

theorem length_found_checkVariable (tree : Tree) (checks : Checks) (id : NodeId)
    (kind : NodeKind) :
    (Report.found (tree.checkVariable checks id kind)).length ≤ 1 := by
  unfold checkVariable
  split
  · split
    · cases tree.lineage id with
      | error halt => simp
      | ok ancestors => exact Option.length_toList_le
    · simp
  · simp

/-- Where an application is found to pass too many or too few arguments, it is
bound to a constructor and so has a type. -/
theorem found_checkType_of_checkArity (hkind : tree.kind id = .ok kind)
    (h : Report.found (tree.checkArity links checks id kind) ≠ []) :
    Report.found (tree.checkType links checks id kind) = [] := by
  obtain ⟨_, harity⟩ := List.exists_mem_of_ne_nil _ h
  obtain ⟨_, _, _, _, _, rfl, _, htarget, hconstructor, _⟩ := of_mem_checkArity harity
  rw [List.eq_nil_iff_forall_not_mem]
  intro problem hproblem
  exact not_hasType_untyped_of_constructor hkind htarget hconstructor
    (of_mem_checkType hproblem).2

/-- At most one check finds something at a node: its kind says which of them
can, and an application has a type or the right number of arguments. -/
theorem length_problems_le_one (hkind : tree.kind id = .ok kind) {report : Report}
    (h : tree.inspect links checks id kind = .ok report) : report.problems.length ≤ 1 := by
  refine Nat.le_trans (Report.sublist_of_ofChecks h).length_le ?_
  have htype := tree.length_found_checkType links checks id kind
  simp only [List.flatMap_cons, List.flatMap_nil, List.append_nil, List.length_append]
  cases kind with
  | expr e =>
    cases e with
    | apply applied args =>
      have hvariable : tree.checkVariable checks id (.expr (.apply applied args)) = .ok [] := rfl
      by_cases hnone :
          Report.found (tree.checkArity links checks id (.expr (.apply applied args))) = []
      · simpa [hnone, hvariable] using htype
      · have harity := tree.length_found_checkArity links checks id (.expr (.apply applied args))
        simpa [found_checkType_of_checkArity hkind hnone, hvariable] using harity
    | variableDefinition name =>
      have hvariable := tree.length_found_checkVariable checks id (.expr (.variableDefinition name))
      simpa [checkType, checkArity, Checks.untyped?] using hvariable
    | _ => exact htype
  | _ => exact htype

/-! ## The findings of a document -/

theorem exists_of_findingsAt {findings : List Finding}
    (h : tree.findingsAt links checks id kind = .ok findings) :
    ∃ span report, tree.span id = .ok span ∧ tree.inspect links checks id kind = .ok report ∧
      findings = report.problems.map fun problem => ⟨problem, ⟨id, problem.property, span⟩⟩ := by
  obtain ⟨span, hspan, h⟩ := bind_eq_ok_iff.mp h
  obtain ⟨report, hreport, h⟩ := bind_eq_ok_iff.mp h
  exact ⟨span, report, hspan, hreport, (Except.ok.inj h).symm⟩

/-- The findings at a node point at the node, and there is at most one. -/
theorem sublist_of_findingsAt (hkind : tree.kind id = .ok kind) {findings : List Finding}
    (h : tree.findingsAt links checks id kind = .ok findings) :
    (findings.map (·.location.node)).Sublist [id] := by
  obtain ⟨span, report, _, hreport, rfl⟩ := exists_of_findingsAt h
  have hle := length_problems_le_one hkind hreport
  match report.problems, hle with
  | [], _ => exact List.nil_sublist _
  | [_], _ => exact .refl _

/-- A document is validated node by node, in preorder. -/
theorem exists_of_validate (hf : tree.IsForest) {root : NodeId} {findings : List Finding}
    (h : tree.validate links checks root = .ok findings) :
    root < tree.size ∧ ∃ found, findings = found.flatten ∧
      List.Forall₂ (fun entry list => tree.findingsAt links checks entry.1 entry.2 = .ok list)
        (tree.preorder root) found := by
  obtain ⟨entries, hentries, h⟩ := bind_eq_ok_iff.mp h
  obtain ⟨found, hfound, hflatten⟩ := bind_eq_ok_iff.mp h
  have hroot := lt_size_of_subtree hentries
  rw [hf.subtree_eq_preorder hroot] at hentries
  cases hentries
  exact ⟨hroot, found, (Except.ok.inj hflatten).symm, mapM_eq_ok_iff.mp hfound⟩

/-- The findings of a document are in preorder, and no node comes twice. -/
theorem sublist_preorder_of_validate (hf : tree.IsForest) {root : NodeId} {findings : List Finding}
    (h : tree.validate links checks root = .ok findings) :
    (findings.map (·.location.node)).Sublist ((tree.preorder root).map (·.1)) := by
  obtain ⟨hroot, found, rfl, hall⟩ := exists_of_validate hf h
  have hkinds : ∀ entry ∈ tree.preorder root, tree.kind entry.1 = .ok entry.2 :=
    fun entry hmem => ((hf.mem_preorder_iff hroot).mp hmem).2
  clear h
  generalize tree.preorder root = entries at hkinds hall
  induction hall with
  | nil => exact .refl []
  | cons hentry _ ih =>
    have hfirst := sublist_of_findingsAt (hkinds _ List.mem_cons_self) hentry
    have hrest := ih fun other hmem => hkinds other (List.mem_cons_of_mem _ hmem)
    simpa using hfirst.append hrest

/-- Whatever is found in a document is a problem of one of its nodes. -/
theorem exists_of_mem_validate (hf : tree.IsForest) {root : NodeId} {findings : List Finding}
    (h : tree.validate links checks root = .ok findings) {finding : Finding}
    (hmem : finding ∈ findings) :
    ∃ id kind span, tree.Under id root ∧ tree.kind id = .ok kind ∧ tree.span id = .ok span ∧
      tree.HasProblem links checks id kind finding.problem ∧
      finding.location = ⟨id, finding.problem.property, span⟩ := by
  obtain ⟨hroot, found, rfl, hall⟩ := exists_of_validate hf h
  obtain ⟨list, hlist, hmem⟩ := List.mem_flatten.mp hmem
  obtain ⟨⟨id, kind⟩, hentry, hfindings⟩ := exists_of_mem_mapM (mapM_eq_ok_iff.mpr hall) hlist
  obtain ⟨hunder, hkind⟩ := (hf.mem_preorder_iff hroot).mp hentry
  obtain ⟨span, report, hspan, hreport, rfl⟩ := exists_of_findingsAt hfindings
  obtain ⟨problem, hproblem, rfl⟩ := List.mem_map.mp hmem
  exact ⟨id, kind, span, hunder, hkind, hspan, hasProblem_of_inspect hreport hproblem, rfl⟩

end Tree

end Dataflow
