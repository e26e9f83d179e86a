import Dataflow.Proofs.Binding
import Dataflow.Proofs.Checking

/-!
# Dataflow.Proofs.Independence

Switching checks off takes away their messages and nothing else.

The checks of a node are made one after the other, and a shape error in one of
them ends the inspection.  So switching a check off could bring out what a
later check finds (`Report.restricts_cons`).  It does not: where the type of a
constructor application cannot be inferred, its target is no constructor, and
then the arity check ends in a shape error as well
(`Tree.isQuiet_of_checkType`).  This holds in trees that break the grammar too,
because whatever the linker binds as a constructor is listed by a data type
(`Workspace.ownsConstructors_of_linkAll`).
-/

namespace Dataflow

/-! ## Which check a message belongs to -/

namespace Checks

/-- Whether the check that finds a problem is made. -/
def includes (checks : Checks) : Problem → Bool
  | .untypedExpression => checks.expressionTypes
  | .untypedTypeExpression => checks.typeExpressionTypes
  | .variableOutsideMatch | .variableOutsideConstructor => checks.matchVariables
  | .constructorArity _ _ _ => checks.constructorArity

/-- Whether a message stays if only these checks are made.  Messages about names
always stay; those of the validator belong to a check by their text. -/
def wants (checks : Checks) (diagnostic : Diagnostic) : Bool :=
  match diagnostic.kind with
  | .name => true
  | .validation =>
    if diagnostic.title = "expression has no type" then
      checks.expressionTypes
    else if diagnostic.title = "type expression has no type" then
      checks.typeExpressionTypes
    else if diagnostic.title =
        "match variables can only be defined within pattern match definitions" then
      checks.matchVariables
    else if diagnostic.title = "match variables can only be arguments of constructors" then
      checks.matchVariables
    else
      checks.constructorArity

/-- The text of a message tells the check that found it. -/
theorem wants_diagnostic (checks : Checks) (finding : Finding) :
    checks.wants finding.diagnostic = checks.includes finding.problem := by
  obtain ⟨problem, location⟩ := finding
  have htext : ∀ other : Problem, other.property = none →
      (problem.message = other.message ↔ problem = other) :=
    fun other hother => ⟨Problem.eq_of_message_eq hother, congrArg Problem.message⟩
  change (if problem.message = Problem.untypedExpression.message then _ else
    if problem.message = Problem.untypedTypeExpression.message then _ else
    if problem.message = Problem.variableOutsideMatch.message then _ else
    if problem.message = Problem.variableOutsideConstructor.message then _ else _) = _
  simp only [htext .untypedExpression rfl, htext .untypedTypeExpression rfl,
    htext .variableOutsideMatch rfl, htext .variableOutsideConstructor rfl]
  cases problem <;> simp [includes]

/-- What is reported of a node without a type. -/
theorem untyped?_eq_filter (checks : Checks) (kind : NodeKind) :
    checks.untyped? kind = (({} : Checks).untyped? kind).filter checks.includes := by
  cases kind with
  | expr e => cases e <;> rfl
  | _ => rfl

end Checks

/-! ## Switching checks off -/

/-- What becomes of a check when some are switched off: it is made as before, or
it is not made. -/
inductive Switched (checks : Checks) :
    (full part : Result (List Problem)) → Prop where
  | on {full : Result (List Problem)} (h : ∀ problems, full = .ok problems →
      ∀ problem ∈ problems, checks.includes problem = true) : Switched checks full full
  | off {full : Result (List Problem)} (h : ∀ problems, full = .ok problems →
      ∀ problem ∈ problems, checks.includes problem = false) : Switched checks full (.ok [])

theorem Switched.eq_filter {checks : Checks} {problems : List Problem}
    {part : Result (List Problem)} (h : Switched checks (.ok problems) part) :
    part = .ok (problems.filter checks.includes) := by
  cases h with
  | on h => rw [List.filter_eq_self.mpr (h problems rfl)]
  | off h =>
    have hnone : problems.filter checks.includes = [] := by
      rw [List.filter_eq_nil_iff]
      intro problem hmem
      simp [h problems rfl problem hmem]
    rw [hnone]

/-- A check that one of the switches decides on. -/
theorem Switched.of_switch {checks : Checks} {full part : Result (List Problem)} (switch : Bool)
    (hfound : ∀ problems, full = .ok problems →
      ∀ problem ∈ problems, checks.includes problem = switch)
    (hon : switch = true → part = full) (hoff : switch = false → part = .ok []) :
    Switched checks full part := by
  cases switch with
  | true =>
    rw [hon rfl]
    exact .on hfound
  | false =>
    rw [hoff rfl]
    exact .off hfound

namespace Report

variable {checks : Checks}

/-- An inspection that finds, of what another one does, the problems of the
checks that are made. -/
def Restricts (checks : Checks) (full part : Result Report) : Prop :=
  ∀ report, full = .ok report → ∃ rest, part = .ok rest ∧
    rest.problems = report.problems.filter checks.includes

/-- An inspection that finds nothing, be it that it was cut short. -/
def IsQuiet (outcome : Result Report) : Prop :=
  ∃ report, outcome = .ok report ∧ report.problems = []

/-- One more check.  A shape error in it hides what comes afterwards, so where
it is switched off nothing may come afterwards. -/
theorem restricts_cons {full part : Result (List Problem)}
    {fulls parts : List (Result (List Problem))} (h : Switched checks full part)
    (hrest : Restricts checks (ofChecks fulls) (ofChecks parts))
    (hquiet : ∀ error, full = malformed error → IsQuiet (ofChecks parts)) :
    Restricts checks (ofChecks (full :: fulls)) (ofChecks (part :: parts)) := by
  intro report hreport
  cases full with
  | ok problems =>
    rw [ofChecks, attempt_ok, ok_bind] at hreport
    obtain ⟨later, hlater, hreport⟩ := bind_eq_ok_iff.mp hreport
    cases hreport
    obtain ⟨rest, hpart, hproblems⟩ := hrest later hlater
    rw [h.eq_filter, ofChecks, attempt_ok, ok_bind, hpart]
    refine ⟨_, rfl, ?_⟩
    rw [List.filter_append, hproblems]
  | error halt =>
    cases halt with
    | fault fault => cases hreport
    | shape error =>
      cases h with
      | on _ =>
        refine ⟨report, hreport, ?_⟩
        cases hreport
        rfl
      | off _ =>
        obtain ⟨rest, hrest, hnone⟩ := hquiet error rfl
        cases hreport
        rw [ofChecks, attempt_ok, ok_bind, hrest]
        exact ⟨_, rfl, hnone⟩

end Report

/-! ## The checks of a node -/

theorem Checks.includes_of_variableProblem? {checks : Checks} {ancestors : List NodeKind}
    {problem : Problem} (h : variableProblem? ancestors = some problem) :
    checks.includes problem = checks.matchVariables := by
  unfold variableProblem? at h
  split at h
  · split at h
    · split at h <;> cases h
      rfl
    · cases h
  · cases h
    rfl

namespace Tree

variable {tree : Tree} {links : Links} {checks : Checks} {id : NodeId} {kind : NodeKind}

theorem switched_checkType :
    Switched checks (tree.checkType links {} id kind) (tree.checkType links checks id kind) := by
  unfold checkType
  rw [checks.untyped?_eq_filter]
  cases ({} : Checks).untyped? kind with
  | none => exact .off fun problems h problem hmem => by cases h; cases hmem
  | some found =>
    refine .of_switch (checks.includes found) ?_ ?_ ?_
    · intro problems h problem hmem
      obtain ⟨ty, _, h⟩ := bind_eq_ok_iff.mp h
      cases h
      split at hmem
      · rw [List.mem_singleton.mp hmem]
      · cases hmem
    · intro hon
      rw [Option.filter_some, if_pos hon]
    · intro hoff
      simp only [Option.filter_some, hoff, Bool.false_eq_true, if_false]

theorem switched_checkArity :
    Switched checks (tree.checkArity links {} id kind) (tree.checkArity links checks id kind) := by
  refine .of_switch checks.constructorArity ?_ ?_ ?_
  · intro problems h problem hmem
    unfold checkArity at h
    split at h
    · split at h
      · obtain ⟨ckind, _, h⟩ := bind_eq_ok_iff.mp h
        split at h
        · cases h
          split at hmem
          · cases hmem
          · rw [List.mem_singleton.mp hmem]
            rfl
        · cases h
      · cases h
        cases hmem
    · cases h
      cases hmem
  · intro hon
    unfold checkArity
    rw [hon]
  · intro hoff
    unfold checkArity
    rw [hoff]
    split <;> rfl

theorem switched_checkVariable :
    Switched checks (tree.checkVariable {} id kind) (tree.checkVariable checks id kind) := by
  refine .of_switch checks.matchVariables ?_ ?_ ?_
  · intro problems h problem hmem
    unfold checkVariable at h
    split at h
    · obtain ⟨ancestors, _, h⟩ := bind_eq_ok_iff.mp h
      cases h
      exact Checks.includes_of_variableProblem? (Option.mem_toList.mp hmem)
    · cases h
      cases hmem
  · intro hon
    unfold checkVariable
    rw [hon]
  · intro hoff
    unfold checkVariable
    rw [hoff]
    split <;> rfl

/-! ## Where an inspection is cut short -/

/-- Whatever is bound as a constructor belongs to a data type. -/
def OwnsConstructors (tree : Tree) (links : Links) : Prop :=
  ∀ id constructor, links.target id .constructor = some constructor →
    ∃ owner name params constructors, tree.parent constructor = .ok (some owner) ∧
      tree.kind owner = .ok (.dataType name params constructors)

/-- The type of a constructor application can be inferred, unless it is bound to
something else. -/
theorem exists_infer_application (hf : tree.IsForest) (howned : tree.OwnsConstructors links)
    {applied : String} {args : List NodeId}
    (hkind : tree.kind id = .ok (.expr (.apply applied args)))
    (h : ∀ constructor, links.target id .constructor = some constructor →
      ∃ name declared, tree.kind constructor = .ok (.constructor name declared)) :
    ∃ ty, tree.infer links id = .ok ty := by
  cases htarget : links.target id .constructor with
  | none =>
    have hlacks : tree.LacksType links id := .unbound hkind (.inl rfl) htarget
    exact ⟨.untyped, infer_eq_ok_iff.mpr (.settled (hf.typeStep_of_lacksType hlacks))⟩
  | some constructor =>
    obtain ⟨owner, _, _, _, hparent, howner⟩ := howned id constructor htarget
    obtain ⟨_, _, hconstructor⟩ := h constructor htarget
    exact ⟨.dataType owner, hf.infer_of_passesTo (.target hkind rfl htarget)
      (infer_constructor hconstructor hparent howner)⟩

/-- Where a type cannot be inferred, the arity check finds nothing. -/
theorem checkArity_of_infer_error (hf : tree.IsForest) (howned : tree.OwnsConstructors links)
    (hkind : tree.kind id = .ok kind) {halt : Halt} (h : tree.infer links id = .error halt) :
    tree.checkArity links checks id kind = .ok [] ∨
      ∃ error, tree.checkArity links checks id kind = malformed error := by
  unfold checkArity
  split
  · rename_i applied args
    split
    · rename_i constructor _ htarget
      obtain ⟨_, _, _, _, hparent, _⟩ := howned id constructor htarget
      obtain ⟨ckind, hckind⟩ := exists_kind_of_lt (lt_size_of_parent hparent)
      rw [hckind, ok_bind]
      split
      · rename_i name declared
        -- Of a constructor the type is known.
        obtain ⟨ty, hty⟩ := exists_infer_application hf howned hkind fun found hfound =>
          ⟨name, declared, by rw [← hckind, Option.some.inj (htarget.symm.trans hfound)]⟩
        rw [h] at hty
        cases hty
      · exact .inr ⟨_, rfl⟩
    · exact .inl rfl
  · exact .inl rfl

theorem isQuiet_of_checkType (hf : tree.IsForest) (howned : tree.OwnsConstructors links)
    (hkind : tree.kind id = .ok kind) {error : ShapeError}
    (h : tree.checkType links {} id kind = malformed error) :
    Report.IsQuiet (Report.ofChecks
      [tree.checkArity links checks id kind, tree.checkVariable checks id kind]) := by
  unfold checkType at h
  split at h
  · cases h
  · rename_i problem huntyped
    have hvariable : tree.checkVariable checks id kind = .ok [] := by
      unfold checkVariable
      split
      · cases huntyped
      · rfl
    obtain ⟨halt, hinfer⟩ : ∃ halt, tree.infer links id = .error halt := by
      cases hinfer : tree.infer links id with
      | error halt => exact ⟨halt, rfl⟩
      | ok ty =>
        rw [hinfer] at h
        cases h
    rw [hvariable]
    obtain harity | ⟨error, harity⟩ := checkArity_of_infer_error hf howned hkind hinfer
    · rw [harity]
      exact ⟨_, rfl, rfl⟩
    · rw [harity]
      exact ⟨_, rfl, rfl⟩

theorem isQuiet_of_checkArity {error : ShapeError}
    (h : tree.checkArity links {} id kind = malformed error) :
    Report.IsQuiet (Report.ofChecks [tree.checkVariable checks id kind]) := by
  unfold checkArity at h
  split at h
  · exact ⟨_, rfl, rfl⟩
  · cases h

/-! ## Whole documents -/

section Restriction

variable (hf : tree.IsForest) (howned : tree.OwnsConstructors links)
include hf howned

theorem restricts_inspect (hkind : tree.kind id = .ok kind) :
    Report.Restricts checks (tree.inspect links {} id kind)
      (tree.inspect links checks id kind) := by
  refine Report.restricts_cons switched_checkType ?_
    fun _ h => isQuiet_of_checkType hf howned hkind h
  refine Report.restricts_cons switched_checkArity ?_ fun _ h => isQuiet_of_checkArity h
  refine Report.restricts_cons switched_checkVariable ?_ fun _ _ => ⟨_, rfl, rfl⟩
  intro report h
  cases h
  exact ⟨_, rfl, rfl⟩

theorem findingsAt_of_default (hkind : tree.kind id = .ok kind) {full : List Finding}
    (h : tree.findingsAt links {} id kind = .ok full) :
    tree.findingsAt links checks id kind =
      .ok (full.filter fun finding => checks.includes finding.problem) := by
  obtain ⟨span, hspan, h⟩ := bind_eq_ok_iff.mp h
  obtain ⟨report, hreport, h⟩ := bind_eq_ok_iff.mp h
  cases h
  obtain ⟨rest, hrest, hproblems⟩ := restricts_inspect hf howned hkind report hreport
  rw [findingsAt, hspan, ok_bind, hrest, ok_bind, hproblems, List.filter_map]
  rfl

theorem validate_of_default {root : NodeId} {full : List Finding}
    (h : tree.validate links {} root = .ok full) :
    tree.validate links checks root =
      .ok (full.filter fun finding => checks.includes finding.problem) := by
  obtain ⟨entries, hentries, h⟩ := bind_eq_ok_iff.mp h
  obtain ⟨found, hfound, h⟩ := bind_eq_ok_iff.mp h
  cases h
  have hroot := lt_size_of_subtree hentries
  have hwalk := hf.subtree_eq_preorder hroot
  rw [hentries] at hwalk
  cases hwalk
  have hrest : (tree.preorder root).mapM
      (fun entry => tree.findingsAt links checks entry.1 entry.2) =
        .ok (found.map (List.filter fun finding => checks.includes finding.problem)) := by
    refine mapM_eq_ok_of_imp ?_ hfound
    intro entry hmem full hfull
    exact findingsAt_of_default hf howned ((hf.mem_preorder_iff hroot).mp hmem).2 hfull
  rw [validate, hentries, ok_bind, hrest, ok_bind, List.filter_flatten]
  rfl

end Restriction

end Tree

/-! ## Whole workspaces -/

namespace Workspace

variable {ws : Workspace}

/-- What the constructors of all data types are belongs to a data type. -/
theorem exists_dataType_of_constructors (hf : ws.tree.IsForest)
    (hplain : ws.naming = Naming.plain) {scope : Scope} (h : ws.constructors = .ok scope)
    {candidate : Candidate} (hmem : candidate ∈ scope) :
    ∃ owner name params constructors,
      ws.tree.parent candidate.declaration = .ok (some owner) ∧
        ws.tree.kind owner = .ok (.dataType name params constructors) := by
  obtain ⟨scopes, hscopes, h⟩ := bind_eq_ok_iff.mp h
  cases h
  obtain ⟨part, hpart, hmem⟩ := List.mem_flatten.mp hmem
  obtain ⟨owner, _, howner⟩ := exists_of_mem_mapM hscopes hpart
  obtain ⟨kind, hkind, howner⟩ := bind_eq_ok_iff.mp howner
  cases kind with
  | dataType name params constructors =>
    have hlisted := declaration_mem_of_candidates hplain howner hmem
    exact ⟨owner, name, params, constructors,
      hf.parent_of_child hkind (List.mem_append_right params hlisted), hkind⟩
  | _ => cases howner

/-- Linking binds as constructors only what belongs to a data type, whatever the
tree looks like. -/
theorem ownsConstructors_of_linkAll (hf : ws.tree.IsForest) (hplain : ws.naming = Naming.plain)
    {roots : List NodeId} {linked : Analysis} (h : ws.linkAll roots ∅ = .ok linked) :
    ws.tree.OwnsConstructors linked.links := by
  obtain ⟨resolved, rfl, _, hresolved⟩ := exists_of_linkAll hf h
  intro id constructor htarget
  obtain hempty | ⟨⟨⟨site, name⟩, resolution⟩, hmem, rfl, hbound⟩ :=
    Links.of_get?_bindAll htarget
  · rw [show (∅ : Analysis).links = ∅ from rfl, Links.get?_empty] at hempty
    cases hempty
  · obtain ⟨links, hresolve⟩ := hresolved _ hmem
    obtain ⟨scope, hscope, hlookup⟩ := (target?_eq_some_iff hresolve).mp hbound
    obtain ⟨candidate, hcandidate, rfl⟩ := Scope.exists_of_lookup hlookup
    obtain ⟨kind, _, hscope⟩ := bind_eq_ok_iff.mp hscope
    split at hscope
    · exact exists_dataType_of_constructors hf hplain hscope hcandidate
    · cases hscope

/-- Of the messages about names all stay. -/
theorem filter_wants_names {resolved : List (Reference × Resolution)}
    (hresolved : ∀ entry ∈ resolved, ∃ links, ws.resolve links entry.1 = .ok entry.2)
    (checks : Checks) :
    (resolved.filterMap (·.2.diagnostic?)).filter checks.wants =
      resolved.filterMap (·.2.diagnostic?) := by
  rw [List.filter_eq_self]
  intro diagnostic hmem
  obtain ⟨entry, hentry, hdiagnostic⟩ := List.mem_filterMap.mp hmem
  obtain ⟨links, hresolve⟩ := hresolved entry hentry
  obtain ⟨span, nothingVisible, rfl⟩ := exists_unknownName hresolve hdiagnostic
  rfl

/-- With fewer checks a workspace is checked by the same table and the messages
of the other checks are missing. -/
theorem check_of_default (hf : ws.tree.IsForest) (hplain : ws.naming = Naming.plain)
    {full : Analysis} (h : ws.check {} = .ok full) (checks : Checks) :
    ws.check checks = .ok ⟨full.links,
      (∅ : Diagnostics).addAll (full.diagnostics.messages.filter checks.wants)⟩ := by
  obtain ⟨linked, found, hlinked, hfound, rfl⟩ := check_eq_ok_iff.mp h
  have howned := ownsConstructors_of_linkAll hf hplain hlinked
  have hrest : ws.tree.files.mapM (ws.tree.validate linked.links checks) =
      .ok (found.map (List.filter fun finding => checks.includes finding.problem)) :=
    mapM_eq_ok_of_imp (fun _ _ _ hfull => Tree.validate_of_default hf howned hfull) hfound
  refine check_eq_ok_iff.mpr ⟨linked, _, hlinked, hrest, ?_⟩
  obtain ⟨resolved, rfl, _, hresolved⟩ := exists_of_linkAll hf hlinked
  have hfindings : (found.flatten.map Finding.diagnostic).filter checks.wants =
      (found.map (List.filter fun finding => checks.includes finding.problem)).flatten.map
        Finding.diagnostic := by
    rw [List.filter_map, ← List.filter_flatten]
    congr 2
    funext finding
    exact checks.wants_diagnostic finding
  rw [Diagnostics.messages_addAll, List.filter_append, hfindings, Analysis.record,
    Diagnostics.messages_addAll, List.filter_append, filter_wants_names hresolved,
    Diagnostics.addAll_append, Diagnostics.addAll_append]
  rfl

end Workspace

/-- Checking a tree, grammatical or not, with some checks switched off gives the
same table, and of the messages exactly those of the other checks, in order and
numbered from 1. -/
theorem Tree.checks_independent {source : SourceId} {steps : List BuildStep} {tree : Tree}
    {full : Analysis} (hbuild : Tree.build source steps = .ok tree)
    (hfull : tree.check {} = .ok full) (checks : Checks) :
    ∃ analysis, tree.check checks = .ok analysis ∧ analysis.links = full.links ∧
      analysis.diagnostics.toList = (full.diagnostics.messages.filter checks.wants).mapIdx
        fun place diagnostic => (place + 1, diagnostic) := by
  have hf := Tree.isFinished_of_build hbuild
  obtain ⟨index, hworkspace, _⟩ := hf.exists_workspace
  rw [check, hworkspace, ok_bind] at hfull
  have hcheck : tree.check checks = .ok ⟨full.links,
      (∅ : Diagnostics).addAll (full.diagnostics.messages.filter checks.wants)⟩ := by
    rw [check, hworkspace, ok_bind]
    exact Workspace.check_of_default hf.toIsForest rfl hfull checks
  refine ⟨_, hcheck, rfl, ?_⟩
  have hcounter : (∅ : Diagnostics).counter = 0 := rfl
  have hnone : (∅ : Diagnostics).toList = [] := rfl
  simp only [Diagnostics.toList_addAll, hcounter, hnone, Nat.zero_add, List.nil_append]

/-- Expressions and a type straight in a document, and a data type that lists a
port among its constructors.  The application of the port has no type that
could be inferred, and its arguments cannot be counted. -/
def Tree.portAsConstructor : List BuildStep := [
  .node (.type .integer),
  .node (.constructor "One" [0]),
  .node (.typeParameter "t"),
  .node (.port "Fake" .input 2),
  .node (.dataType "D" [] [1, 3]),
  .node (.expr (.apply "One" [])),
  .node (.expr (.apply "Fake" [])),
  .node (.expr (.variableDefinition "x")),
  .node (.expr (.apply "Gone" [7])),
  .node (.type (.apply "Missing" [])),
  .node (.file [4, 5, 6, 8, 9])]

theorem Tree.checks_independent_portAsConstructor :
    ∃ tree full analysis, Tree.build 1 Tree.portAsConstructor = .ok tree ∧
      tree.check {} = .ok full ∧
      tree.check { expressionTypes := false, matchVariables := false } = .ok analysis ∧
      analysis.links = full.links ∧
      full.diagnostics.toList.map (fun entry => (entry.1, entry.2.node, entry.2.kind)) =
        [(1, some 8, .name), (2, some 9, .name), (3, some 5, .validation),
          (4, some 8, .validation), (5, some 7, .validation), (6, some 9, .validation)] ∧
      analysis.diagnostics.toList.map (fun entry => (entry.1, entry.2.node, entry.2.kind)) =
        [(1, some 8, .name), (2, some 9, .name), (3, some 5, .validation),
          (4, some 9, .validation)] ∧
      (full.links.target 6 .constructor, tree.infer full.links 6) =
        (some 3, malformed (.unexpectedNode 3 .dataOrNodeType)) := by
  obtain ⟨tree, hbuild⟩ : ∃ tree, Tree.build 1 Tree.portAsConstructor = .ok tree := ⟨_, rfl⟩
  obtain ⟨full, hfull⟩ : ∃ full, tree.check {} = .ok full := by
    cases hbuild
    exact ⟨_, rfl⟩
  obtain ⟨analysis, hcheck, hlinks, _⟩ := Tree.checks_independent hbuild hfull
    { expressionTypes := false, matchVariables := false }
  refine ⟨tree, full, analysis, hbuild, hfull, hcheck, hlinks, ?_, ?_, ?_⟩
  · cases hbuild
    cases hfull
    rfl
  · cases hbuild
    cases hcheck
    rfl
  · cases hbuild
    cases hfull
    rfl

end Dataflow
