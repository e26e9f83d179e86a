import Dataflow.Validation
import Dataflow.Proofs.Untyped

/-!
# Dataflow.Proofs.Validation

What validation finds.  It faults nowhere if inference does not
(`Tree.exists_validate`).  By a sound table no inspection is cut short, and
what it finds at a node are the problems of the node, said without the order
of the checks (`Tree.HasProblem`, `Tree.exists_inspect_of_sound`).
-/

namespace Dataflow

/-! ## Messages -/

namespace Problem

/-- A message about the number of arguments begins like no other. -/
theorem head?_message_constructorArity (name : String) (expected found : Nat) :
    (constructorArity name expected found).message.toList.head? = some 'c' := by
  have hmessage : (constructorArity name expected found).message =
      toString "constructor `" ++ toString name ++ toString "` expects " ++ toString expected ++
        toString " argument" ++ toString (if expected = 1 then "" else "s") ++
        toString ", found " ++ toString found := rfl
  have hhead : (toString "constructor `").toList.head? = some 'c' := by decide
  rw [hmessage]
  simp only [String.toList_append, List.append_assoc, List.head?_append, hhead, Option.some_or]

/-- The other messages say which problem they are about. -/
theorem eq_of_message_eq {problem other : Problem} (hother : other.property = none)
    (h : problem.message = other.message) : problem = other := by
  have hhead : other.message.toList.head? ≠ some 'c' := by
    cases other with
    | constructorArity _ _ _ => cases hother
    | _ => decide
  cases problem with
  | constructorArity name expected found =>
    exact absurd (h ▸ head?_message_constructorArity name expected found) hhead
  | _ =>
    cases other with
    | constructorArity _ _ _ => cases hother
    | _ =>
      revert h
      decide

end Problem

/-! ## Reports -/

namespace Report

theorem exists_ofChecks {checks : List (Result (List Problem))}
    (h : ∀ check ∈ checks, FaultFree check) : ∃ report, ofChecks checks = .ok report := by
  induction checks with
  | nil => exact ⟨{}, rfl⟩
  | cons check checks ih =>
    obtain ⟨rest, hrest⟩ := ih fun other hother => h other (List.mem_cons_of_mem _ hother)
    obtain ⟨outcome, houtcome⟩ := (h check List.mem_cons_self).exists_attempt
    rw [ofChecks, houtcome, ok_bind]
    cases outcome with
    | error e => exact ⟨_, rfl⟩
    | ok problems =>
      rw [hrest]
      exact ⟨_, rfl⟩

/-- Checks that all answer are put together. -/
theorem ofChecks_map_ok (problems : List (List Problem)) :
    ofChecks (problems.map .ok) = .ok { problems := problems.flatten } := by
  induction problems with
  | nil => rfl
  | cons first rest ih =>
    rw [List.map_cons, ofChecks, attempt_ok, ok_bind, ih]
    rfl

end Report

/-! ## No faults -/

namespace Tree

variable {tree : Tree} {links : Links} {checks : Checks} {id : NodeId} {kind : NodeKind}

theorem faultFree_checkType (h : FaultFree (tree.infer links id)) :
    FaultFree (tree.checkType links checks id kind) := by
  unfold checkType
  split
  · exact faultFree_ok _
  · exact h.bind fun _ _ => faultFree_ok _

theorem faultFree_checkArity (hlinks : links.Within tree) :
    FaultFree (tree.checkArity links checks id kind) := by
  unfold checkArity
  split
  · split
    · rename_i htarget
      obtain ⟨ckind, hckind⟩ := exists_kind_of_lt (hlinks _ _ _ htarget)
      rw [hckind, ok_bind]
      split
      · exact faultFree_ok _
      · exact faultFree_malformed _
    · exact faultFree_ok _
  · exact faultFree_ok _

theorem faultFree_checkVariable (hf : tree.IsForest) (hid : id < tree.size) :
    FaultFree (tree.checkVariable checks id kind) := by
  obtain ⟨ancestors, hancestors⟩ := hf.exists_lineage hid
  unfold checkVariable
  split
  · split
    · rw [hancestors]
      exact faultFree_ok _
    · exact faultFree_ok _
  · exact faultFree_ok _

section Faults

variable (hf : tree.IsForest) (hlinks : links.Within tree)
  (hinfer : ∀ id, id < tree.size → FaultFree (tree.infer links id))
include hf hlinks hinfer

theorem exists_inspect (checks : Checks) (kind : NodeKind) (hid : id < tree.size) :
    ∃ report, tree.inspect links checks id kind = .ok report := by
  refine Report.exists_ofChecks ?_
  simp only [List.mem_cons, List.not_mem_nil, or_false, forall_eq_or_imp, forall_eq]
  exact ⟨faultFree_checkType (hinfer id hid), faultFree_checkArity hlinks,
    faultFree_checkVariable hf hid⟩

theorem exists_findingsAt (hid : id < tree.size) :
    ∃ findings, tree.findingsAt links checks id kind = .ok findings := by
  obtain ⟨span, hspan⟩ := exists_span_of_lt hid
  obtain ⟨report, hreport⟩ := exists_inspect hf hlinks hinfer checks kind hid
  rw [findingsAt, hspan, hreport]
  exact ⟨_, rfl⟩

theorem exists_validate {root : NodeId} (hroot : root < tree.size) :
    ∃ findings, tree.validate links checks root = .ok findings := by
  rw [validate, hf.subtree_eq_preorder hroot, ok_bind]
  obtain ⟨findings, hfindings⟩ := exists_mapM_eq_ok
    (f := fun entry : NodeId × NodeKind => tree.findingsAt links checks entry.1 entry.2)
    fun entry hentry => exists_findingsAt hf hlinks hinfer
      (lt_size_of_kind ((hf.mem_preorder_iff hroot).mp hentry).2)
  exact ⟨findings.flatten, by rw [hfindings]; rfl⟩

end Faults

/-! ## What there is to find -/

theorem isTerm_of_untyped? {problem : Problem} (h : checks.untyped? kind = some problem) :
    kind.isTerm = true := by
  cases kind with
  | expr _ | type _ => rfl
  | _ => cases h

/-- The problems of a node. -/
inductive HasProblem (tree : Tree) (links : Links) (checks : Checks) (id : NodeId) :
    NodeKind → Problem → Prop where
  | untyped {kind : NodeKind} {problem : Problem} (hcheck : checks.untyped? kind = some problem)
    (htype : tree.HasType links id .untyped) : HasProblem tree links checks id kind problem
  | arity {applied name : String} {args declared : List NodeId} {constructor : NodeId}
    (hcheck : checks.constructorArity = true)
    (htarget : links.target id .constructor = some constructor)
    (hconstructor : tree.kind constructor = .ok (.constructor name declared))
    (hne : declared.length ≠ args.length) :
    HasProblem tree links checks id (.expr (.apply applied args))
      (.constructorArity name declared.length args.length)
  | misplaced {name : String} {ancestors : List (NodeId × NodeKind)} {problem : Problem}
    (hcheck : checks.matchVariables = true) (hancestors : tree.lineage id = .ok ancestors)
    (hproblem : variableProblem? (ancestors.map (·.2)) = some problem) :
    HasProblem tree links checks id (.expr (.variableDefinition name)) problem

theorem exists_checkType (checks : Checks) (kind : NodeKind) {ty : Ty}
    (h : tree.infer links id = .ok ty) :
    ∃ problems, tree.checkType links checks id kind = .ok problems ∧
      ∀ problem, problem ∈ problems ↔ checks.untyped? kind = some problem ∧ ty = .untyped := by
  unfold checkType
  cases hcheck : checks.untyped? kind with
  | none => exact ⟨[], rfl, by simp⟩
  | some found =>
    simp only [h, ok_bind, pure_eq_ok]
    refine ⟨_, rfl, ?_⟩
    intro problem
    by_cases huntyped : ty = .untyped
    · subst huntyped
      simp [Ty.isUntyped, eq_comm]
    · have hnot : ¬ ty.isUntyped = true := fun h => huntyped (Ty.isUntyped_iff.mp h)
      simp [hnot, huntyped]

theorem exists_checkArity (checks : Checks) (id : NodeId) (kind : NodeKind)
    (hl : links.Sound tree) :
    ∃ problems, tree.checkArity links checks id kind = .ok problems ∧
      ∀ problem, problem ∈ problems ↔ ∃ applied args constructor name declared,
        kind = .expr (.apply applied args) ∧ checks.constructorArity = true ∧
        links.target id .constructor = some constructor ∧
        tree.kind constructor = .ok (.constructor name declared) ∧
        declared.length ≠ args.length ∧
        problem = .constructorArity name declared.length args.length := by
  unfold checkArity
  split
  · rename_i applied args
    split
    · rename_i constructor hcheck htarget
      obtain ⟨_, _, ckind, hckind, haccepts⟩ := hl _ _ htarget
      cases ckind with
      | constructor name declared =>
        rw [hckind, ok_bind]
        refine ⟨_, rfl, ?_⟩
        intro problem
        split <;> simp_all
      | _ => cases haccepts
    · rename_i hnot
      refine ⟨[], rfl, ?_⟩
      intro problem
      simp only [List.not_mem_nil, false_iff]
      intro ⟨_, _, constructor, _, _, _, hcheck, htarget, _⟩
      exact hnot constructor hcheck htarget
  · rename_i hnot
    refine ⟨[], rfl, ?_⟩
    intro problem
    simp only [List.not_mem_nil, false_iff]
    intro ⟨applied, args, _, _, _, hkind, _⟩
    exact hnot applied args hkind

theorem exists_checkVariable (checks : Checks) (kind : NodeKind) (hf : tree.IsForest)
    (hid : id < tree.size) :
    ∃ problems, tree.checkVariable checks id kind = .ok problems ∧
      ∀ problem, problem ∈ problems ↔ ∃ name ancestors,
        kind = .expr (.variableDefinition name) ∧ checks.matchVariables = true ∧
        tree.lineage id = .ok ancestors ∧
        variableProblem? (ancestors.map (·.2)) = some problem := by
  obtain ⟨ancestors, hancestors⟩ := hf.exists_lineage hid
  unfold checkVariable
  split
  · split
    · rw [hancestors, ok_bind]
      refine ⟨_, rfl, ?_⟩
      intro problem
      simp_all
    · exact ⟨[], rfl, by simp_all⟩
  · rename_i hnot
    refine ⟨[], rfl, ?_⟩
    intro problem
    simp only [List.not_mem_nil, false_iff]
    intro ⟨name, _, hkind, _⟩
    exact hnot name hkind

/-- Where the table is sound and inference answers, an inspection runs to its
end and finds the problems of the node. -/
theorem exists_inspect_of_sound (checks : Checks) (kind : NodeKind) (hf : tree.IsForest)
    (hl : links.Sound tree) (hid : id < tree.size) {ty : Ty} (hty : tree.infer links id = .ok ty) :
    ∃ problems, tree.inspect links checks id kind = .ok { problems } ∧
      ∀ problem, problem ∈ problems ↔ tree.HasProblem links checks id kind problem := by
  obtain ⟨untyped, huntyped, huntypedMem⟩ := exists_checkType checks kind hty
  obtain ⟨arity, harity, harityMem⟩ := exists_checkArity checks id kind hl
  obtain ⟨misplaced, hmisplaced, hmisplacedMem⟩ := exists_checkVariable checks kind hf hid
  refine ⟨[untyped, arity, misplaced].flatten, ?_, ?_⟩
  · rw [inspect, huntyped, harity, hmisplaced]
    exact Report.ofChecks_map_ok [untyped, arity, misplaced]
  · intro problem
    simp only [List.flatten_cons, List.flatten_nil, List.append_nil, List.mem_append,
      huntypedMem, harityMem, hmisplacedMem]
    constructor
    · intro h
      obtain ⟨hcheck, rfl⟩ | ⟨_, _, _, _, _, rfl, hcheck, htarget, hconstructor, hne, rfl⟩ |
        ⟨_, _, rfl, hcheck, hancestors, hproblem⟩ := h
      · exact .untyped hcheck (infer_eq_ok_iff.mp hty)
      · exact .arity hcheck htarget hconstructor hne
      · exact .misplaced hcheck hancestors hproblem
    · intro h
      cases h with
      | untyped hcheck htype =>
        have hty' := infer_eq_ok_iff.mpr htype
        rw [hty] at hty'
        exact .inl ⟨hcheck, Except.ok.inj hty'⟩
      | arity hcheck htarget hconstructor hne =>
        exact .inr (.inl ⟨_, _, _, _, _, rfl, hcheck, htarget, hconstructor, hne, rfl⟩)
      | misplaced hcheck hancestors hproblem =>
        exact .inr (.inr ⟨_, _, rfl, hcheck, hancestors, hproblem⟩)

end Tree

end Dataflow
