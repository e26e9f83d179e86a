import Mathlib.Logic.Equiv.Basic
import Dataflow.Proofs.Checking
import Dataflow.Proofs.Correspondence
import Dataflow.Proofs.Findings

/-!
# Dataflow.Proofs.Invariance

Names count only up to equality: a tree by other names, none of which fall
together, is checked like the tree itself (`Tree.check_rename`).

The two runs are followed side by side, for any trees that correspond.  They
bind the same references to the same declarations, and the messages of the one
are those of the other, apart from the names that are quoted and the spans
(`Workspace.Corresponds.check`).
-/

namespace Dataflow

/-! ## Messages -/

/-- A problem by other names. -/
def Problem.rename (f : String → String) : Problem → Problem
  | constructorArity name expected found => constructorArity (f name) expected found
  | untypedExpression => untypedExpression
  | untypedTypeExpression => untypedTypeExpression
  | variableOutsideMatch => variableOutsideMatch
  | variableOutsideConstructor => variableOutsideConstructor

/-- The title of a message about a name that matches nothing. -/
def unknownTitle (slot : Slot) (name : String) : String :=
  "could not resolve reference to " ++ slot.target ++ " `" ++ name ++ "`"

/-- What becomes of the title of a message.  Two titles quote a name, and only
that name is replaced. -/
inductive Diagnostic.Retitled (f : String → String) (diagnostic : Diagnostic) : String → Prop where
  | unknownName {slot : Slot} {name : String} (hkind : diagnostic.kind = .name)
    (hproperty : diagnostic.property = some slot)
    (htitle : diagnostic.title = unknownTitle slot name) :
    Retitled f diagnostic (unknownTitle slot (f name))
  | arity {name : String} {expected found : Nat} (hkind : diagnostic.kind = .validation)
    (hproperty : diagnostic.property = some .constructor)
    (htitle : diagnostic.title = (Problem.constructorArity name expected found).message) :
    Retitled f diagnostic (Problem.constructorArity (f name) expected found).message
  | unchanged (hkind : diagnostic.kind = .validation) (hproperty : diagnostic.property = none) :
    Retitled f diagnostic diagnostic.title

/-- A message about a tree and the same message about a tree that corresponds. -/
structure Diagnostic.Corresponds (f : String → String) (tree tree' : Tree)
    (diagnostic diagnostic' : Diagnostic) : Prop where
  kind : diagnostic'.kind = diagnostic.kind
  severity : diagnostic'.severity = diagnostic.severity
  node : diagnostic'.node = diagnostic.node
  property : diagnostic'.property = diagnostic.property
  notes : diagnostic'.notes = diagnostic.notes
  title : diagnostic.Retitled f diagnostic'.title
  span : ∃ id, diagnostic.node = some id ∧ tree.span id = .ok diagnostic.span ∧
    tree'.span id = .ok diagnostic'.span

section

variable {f : String → String} {tree tree' : Tree}

theorem unknownName_corresponds {reference : Reference} {span span' : Span}
    (hspan : tree.span reference.site.node = .ok span)
    (hspan' : tree'.span reference.site.node = .ok span') (nothingVisible : Bool) :
    (unknownName reference span nothingVisible).Corresponds f tree tree'
      (unknownName (reference.rename f) span' nothingVisible) where
  kind := rfl
  severity := rfl
  node := rfl
  property := rfl
  notes := rfl
  title := .unknownName rfl rfl rfl
  span := ⟨reference.site.node, rfl, hspan, hspan'⟩

theorem Problem.property_rename (f : String → String) (problem : Problem) :
    (problem.rename f).property = problem.property := by
  cases problem <;> rfl

theorem finding_corresponds {id : NodeId} {span span' : Span} (hspan : tree.span id = .ok span)
    (hspan' : tree'.span id = .ok span') (problem : Problem) :
    (Finding.diagnostic ⟨problem, ⟨id, problem.property, span⟩⟩).Corresponds f tree tree'
      (Finding.diagnostic
        ⟨problem.rename f, ⟨id, (problem.rename f).property, span'⟩⟩) where
  kind := rfl
  severity := rfl
  node := rfl
  property := problem.property_rename f
  notes := rfl
  title := by
    cases problem with
    | constructorArity name expected found => exact .arity rfl rfl rfl
    | _ => exact .unchanged rfl rfl
  span := ⟨id, rfl, hspan, hspan'⟩

/-- Messages that correspond one by one, under the same numbers. -/
structure Diagnostics.Corresponds (f : String → String) (tree tree' : Tree)
    (store store' : Diagnostics) : Prop where
  counter : store'.counter = store.counter
  entries : List.Forall₂
    (fun entry entry' => entry'.1 = entry.1 ∧ entry.2.Corresponds f tree tree' entry'.2)
    store.toList store'.toList

theorem Diagnostics.Corresponds.add {store store' : Diagnostics}
    {diagnostic diagnostic' : Diagnostic} (h : store.Corresponds f tree tree' store')
    (hdiagnostic : diagnostic.Corresponds f tree tree' diagnostic') :
    (store.add diagnostic).Corresponds f tree tree' (store'.add diagnostic') where
  counter := by
    show store'.counter + 1 = store.counter + 1
    rw [h.counter]
  entries := by
    rw [toList_add, toList_add]
    refine List.rel_append h.entries (.cons ⟨?_, hdiagnostic⟩ .nil)
    rw [nextId, nextId, h.counter]

theorem Diagnostics.Corresponds.addAll {store store' : Diagnostics}
    {diagnostics diagnostics' : List Diagnostic} (h : store.Corresponds f tree tree' store')
    (hall : List.Forall₂ (Diagnostic.Corresponds f tree tree') diagnostics diagnostics') :
    (store.addAll diagnostics).Corresponds f tree tree' (store'.addAll diagnostics') := by
  induction hall generalizing store store' with
  | nil => exact h
  | cons hdiagnostic _ ih => exact ih (h.add hdiagnostic)

end

/-- The same table, and messages that correspond. -/
structure Analysis.Corresponds (f : String → String) (tree tree' : Tree)
    (analysis analysis' : Analysis) : Prop where
  links : analysis'.links = analysis.links
  diagnostics : analysis.diagnostics.Corresponds f tree tree' analysis'.diagnostics

/-! ## Linking -/

/-- What came of a reference in either tree. -/
inductive Resolution.Corresponds (f : String → String) (tree tree' : Tree) :
    Resolution → Resolution → Prop where
  | bound (target : NodeId) : Corresponds f tree tree' (.bound target) (.bound target)
  | unresolved {diagnostic diagnostic' : Diagnostic}
    (h : diagnostic.Corresponds f tree tree' diagnostic') :
    Corresponds f tree tree' (.unresolved diagnostic) (.unresolved diagnostic')
  | skipped (error : ShapeError) : Corresponds f tree tree' (.skipped error) (.skipped error)

theorem Links.bindAll_congr (links : Links) {resolved resolved' : List (Reference × Resolution)}
    (h : List.Forall₂ (fun entry entry' => entry'.1.site = entry.1.site ∧
      entry'.2.target? = entry.2.target?) resolved resolved') :
    links.bindAll resolved' = links.bindAll resolved := by
  induction h generalizing links with
  | nil => rfl
  | cons hentry _ ih =>
    rw [bindAll_cons, bindAll_cons, hentry.1, hentry.2]
    exact ih _

theorem Tree.Corresponds.exists_span {f : String → String} {tree tree' : Tree}
    (h : tree.Corresponds f tree') {id : NodeId} {span : Span} (hspan : tree.span id = .ok span) :
    ∃ span', tree'.span id = .ok span' := by
  obtain ⟨node, hnode, _⟩ := span_eq_ok_iff.mp hspan
  exact exists_span_of_lt (h.size ▸ lt_size_of_node hnode)

namespace Workspace.Corresponds

variable {f : String → String} {ws ws' : Workspace} (h : ws.Corresponds f ws')
  (hf : Function.Injective f)
include h hf

/-- A reference comes to the same: its name is found where it was found, because
no two names fall together. -/
theorem resolve (links : Links) (reference : Reference) :
    Leads (Resolution.Corresponds f ws.tree ws'.tree) (ws.resolve links reference)
      (ws'.resolve links (reference.rename f)) := by
  have hscope := h.scope links reference.site
  intro resolution hresolution
  cases resolution with
  | bound target =>
    obtain ⟨scope, hok, hlookup⟩ := resolve_eq_bound_iff.mp hresolution
    rw [hok, map_ok] at hscope
    rw [← Scope.lookup_rename hf] at hlookup
    exact ⟨_, resolve_eq_bound_iff.mpr ⟨_, hscope, hlookup⟩, .bound target⟩
  | unresolved diagnostic =>
    obtain ⟨scope, span, hok, hlookup, hspan, rfl⟩ := resolve_eq_unresolved_iff.mp hresolution
    obtain ⟨span', hspan'⟩ := h.tree.exists_span hspan
    rw [hok, map_ok] at hscope
    rw [← Scope.lookup_rename hf] at hlookup
    have hunresolved : ws'.resolve links (reference.rename f) =
        .ok (.unresolved (unknownName (reference.rename f) span' scope.isEmpty)) :=
      resolve_eq_unresolved_iff.mpr ⟨_, span', hscope, hlookup, hspan', by rw [List.isEmpty_map]⟩
    exact ⟨_, hunresolved, .unresolved (unknownName_corresponds hspan hspan' scope.isEmpty)⟩
  | skipped error =>
    rw [resolve_eq_skipped_iff.mp hresolution] at hscope
    exact ⟨_, resolve_eq_skipped_iff.mpr hscope, .skipped error⟩

theorem bindAll (references : List Reference) {analysis analysis' : Analysis}
    (ha : analysis.Corresponds f ws.tree ws'.tree analysis') :
    Leads (Analysis.Corresponds f ws.tree ws'.tree) (ws.bindAll references analysis)
      (ws'.bindAll (references.map (Reference.rename f)) analysis') := by
  have hresolveAll : Leads (List.Forall₂ fun entry entry' => entry'.1.site = entry.1.site ∧
        entry.2.Corresponds f ws.tree ws'.tree entry'.2)
      (ws.resolveAll analysis.links references)
      (ws'.resolveAll analysis'.links (references.map (Reference.rename f))) := by
    rw [ha.links]
    refine leads_mapM (R := fun reference reference' => reference' = reference.rename f) ?_ ?_
    · rw [List.forall₂_map_right_iff, List.forall₂_same]
      exact fun _ _ => rfl
    · rintro reference _ rfl
      refine (h.resolve hf analysis.links reference).bind fun resolution resolution' hr => ?_
      exact leads_ok ⟨rfl, hr⟩
  refine hresolveAll.bind fun resolved resolved' hresolved => leads_ok ⟨?_, ?_⟩
  · rw [ha.links]
    refine Links.bindAll_congr analysis.links (hresolved.imp ?_)
    rintro ⟨_, resolution⟩ ⟨_, resolution'⟩ ⟨hsite, hresolution⟩
    exact ⟨hsite, by cases hresolution <;> rfl⟩
  · refine ha.diagnostics.addAll (List.rel_filterMap ?_ hresolved)
    rintro ⟨_, resolution⟩ ⟨_, resolution'⟩ ⟨_, hresolution⟩
    cases hresolution with
    | unresolved hdiagnostic => exact .some hdiagnostic
    | bound _ | skipped _ => exact .none

omit hf in
theorem lots (root : NodeId) :
    ws'.lots root = (fun lots => (lots.1.map (Reference.rename f), lots.2.map (Reference.rename f)))
      <$> ws.lots root := by
  rw [Workspace.lots, Workspace.lots, Tree.references, Tree.references, h.tree.subtree]
  cases ws.tree.subtree root with
  | error halt => rfl
  | ok entries =>
    have hrefs : (entries.map (renameEntry f)).flatMap (fun entry => entry.2.referencesAt entry.1) =
        (entries.flatMap fun entry => entry.2.referencesAt entry.1).map (Reference.rename f) := by
      simp [List.flatMap_map, List.map_flatMap, renameEntry, NodeKind.referencesAt_rename]
    simp only [map_ok, ok_bind, pure_eq_ok, hrefs, List.partition_eq_filter_filter,
      List.filter_map]
    rfl

theorem link (root : NodeId) {analysis analysis' : Analysis}
    (ha : analysis.Corresponds f ws.tree ws'.tree analysis') :
    Leads (Analysis.Corresponds f ws.tree ws'.tree) (ws.link root analysis)
      (ws'.link root analysis') := by
  rw [Workspace.link, Workspace.link, h.lots]
  cases ws.lots root with
  | error halt =>
    intro _ hok
    cases hok
  | ok lots =>
    exact (h.bindAll hf lots.1 ha).bind fun _ _ hbetween => h.bindAll hf lots.2 hbetween

theorem linkAll (roots : List NodeId) {analysis analysis' : Analysis}
    (ha : analysis.Corresponds f ws.tree ws'.tree analysis') :
    Leads (Analysis.Corresponds f ws.tree ws'.tree) (ws.linkAll roots analysis)
      (ws'.linkAll roots analysis') :=
  leads_foldlM (fun root _ _ _ hstate => h.link hf root hstate) ha

end Workspace.Corresponds

/-! ## Validation -/

theorem Checks.untyped?_rename (checks : Checks) (f : String → String) (kind : NodeKind) :
    checks.untyped? (kind.rename f) = checks.untyped? kind := by
  cases kind with
  | expr e => cases e <;> rfl
  | _ => rfl

theorem variableProblem?_rename (f : String → String) (ancestors : List NodeKind) :
    variableProblem? (ancestors.map (NodeKind.rename f)) = variableProblem? ancestors := by
  unfold variableProblem?
  simp only [List.any_map, List.dropWhile_map, Function.comp_def, NodeKind.isMatchCase_rename,
    NodeKind.isParens_rename, NodeKind.isApplication_rename]
  cases ancestors.dropWhile fun kind => kind.isParens || kind.isApplication with
  | nil => rfl
  | cons kind rest => simp

/-- A problem that is not about a reference quotes no name. -/
theorem Problem.rename_eq_self (f : String → String) {problem : Problem}
    (h : problem.property = none) : problem.rename f = problem := by
  cases problem with
  | constructorArity _ _ _ => cases h
  | _ => rfl

def Report.rename (f : String → String) (report : Report) : Report :=
  { report with problems := report.problems.map (Problem.rename f) }

theorem Report.ofChecks_rename (f : String → String) (checks : List (Result (List Problem))) :
    ofChecks (checks.map fun check => List.map (Problem.rename f) <$> check) =
      Report.rename f <$> ofChecks checks := by
  induction checks with
  | nil => rfl
  | cons check checks ih =>
    rw [List.map_cons, ofChecks, ofChecks]
    cases check with
    | ok problems =>
      simp only [map_ok, attempt_ok, ok_bind, ih]
      cases ofChecks checks with
      | error halt => rfl
      | ok report => simp [Report.rename]
    | error halt => cases halt <;> rfl

namespace Tree.Corresponds

variable {f : String → String} {tree tree' : Tree} (h : tree.Corresponds f tree')
include h

theorem checkType (links : Links) (checks : Checks) (id : NodeId) (kind : NodeKind) :
    tree'.checkType links checks id (kind.rename f) =
      List.map (Problem.rename f) <$> tree.checkType links checks id kind := by
  unfold Tree.checkType
  rw [Checks.untyped?_rename, h.infer]
  cases hproblem : checks.untyped? kind with
  | none => rfl
  | some problem =>
    have hsame := problem.rename_eq_self f (property_of_untyped? hproblem)
    cases tree.infer links id with
    | error halt => rfl
    | ok ty => by_cases hty : ty = .untyped <;> simp [hty, hsame]

theorem checkArity (links : Links) (checks : Checks) (id : NodeId) (kind : NodeKind) :
    tree'.checkArity links checks id (kind.rename f) =
      List.map (Problem.rename f) <$> tree.checkArity links checks id kind := by
  cases kind with
  | expr e =>
    cases e with
    | apply name args =>
      simp only [NodeKind.rename, Expr.rename, Tree.checkArity]
      cases checks.constructorArity with
      | false => rfl
      | true =>
        cases links.target id .constructor with
        | none => rfl
        | some constructor =>
          simp only [h.kind]
          cases tree.kind constructor with
          | error halt => rfl
          | ok kind =>
            cases kind with
            | constructor _ declared =>
              by_cases hlength : declared.length = args.length <;>
                simp [NodeKind.rename, hlength, Problem.rename]
            | _ => rfl
    | _ => rfl
  | _ => rfl

theorem checkVariable (checks : Checks) (id : NodeId) (kind : NodeKind) :
    tree'.checkVariable checks id (kind.rename f) =
      List.map (Problem.rename f) <$> tree.checkVariable checks id kind := by
  cases kind with
  | expr e =>
    cases e with
    | variableDefinition name =>
      simp only [NodeKind.rename, Expr.rename, Tree.checkVariable]
      split
      · rw [h.lineage]
        cases tree.lineage id with
        | error halt => rfl
        | ok ancestors =>
          have hkinds : (ancestors.map (renameEntry f)).map (·.2) =
              (ancestors.map (·.2)).map (NodeKind.rename f) := by
            simp [renameEntry]
          simp only [map_ok, ok_bind, hkinds, variableProblem?_rename]
          cases hproblem : variableProblem? (ancestors.map (·.2)) with
          | none => rfl
          | some problem =>
            have hsame := problem.rename_eq_self f (property_of_variableProblem? hproblem)
            simp [hsame]
      · rfl
    | _ => rfl
  | _ => rfl

theorem inspect (links : Links) (checks : Checks) (id : NodeId) (kind : NodeKind) :
    tree'.inspect links checks id (kind.rename f) =
      Report.rename f <$> tree.inspect links checks id kind := by
  rw [Tree.inspect, h.checkType, h.checkArity, h.checkVariable]
  exact Report.ofChecks_rename f [tree.checkType links checks id kind,
    tree.checkArity links checks id kind, tree.checkVariable checks id kind]

theorem findingsAt (links : Links) (checks : Checks) (id : NodeId) (kind : NodeKind) :
    Leads (List.Forall₂ fun finding finding' =>
        finding.diagnostic.Corresponds f tree tree' finding'.diagnostic)
      (tree.findingsAt links checks id kind)
      (tree'.findingsAt links checks id (kind.rename f)) := by
  intro findings hfindings
  obtain ⟨span, report, hspan, hreport, rfl⟩ := exists_of_findingsAt hfindings
  obtain ⟨span', hspan'⟩ := h.exists_span hspan
  have hfindings' : tree'.findingsAt links checks id (kind.rename f) =
      .ok ((report.rename f).problems.map fun problem =>
        ⟨problem, ⟨id, problem.property, span'⟩⟩) := by
    rw [Tree.findingsAt, hspan', h.inspect, hreport]
    rfl
  refine ⟨_, hfindings', ?_⟩
  simp only [Report.rename, List.forall₂_map_left_iff, List.forall₂_map_right_iff,
    List.forall₂_same]
  exact fun problem _ => finding_corresponds hspan hspan' problem

theorem validate (links : Links) (checks : Checks) (root : NodeId) :
    Leads (List.Forall₂ fun finding finding' =>
        finding.diagnostic.Corresponds f tree tree' finding'.diagnostic)
      (tree.validate links checks root) (tree'.validate links checks root) := by
  rw [Tree.validate, Tree.validate, h.subtree]
  cases tree.subtree root with
  | error halt =>
    intro _ hok
    cases hok
  | ok entries =>
    refine (leads_mapM (R := fun entry entry' => entry' = renameEntry f entry) ?_ ?_).bind
      fun _ _ hfound => leads_ok (List.rel_flatten hfound)
    · rw [List.forall₂_map_right_iff, List.forall₂_same]
      exact fun _ _ => rfl
    · rintro ⟨id, kind⟩ _ rfl
      exact h.findingsAt links checks id kind

end Tree.Corresponds

/-! ## Checking -/

theorem Analysis.corresponds_empty (f : String → String) (tree tree' : Tree) :
    (∅ : Analysis).Corresponds f tree tree' ∅ where
  links := rfl
  diagnostics := ⟨rfl, .nil⟩

/-- Where a workspace can be checked, one that corresponds can be checked too; the
references are bound alike, and the messages correspond. -/
theorem Workspace.Corresponds.check {f : String → String} {ws ws' : Workspace}
    (h : ws.Corresponds f ws') (hf : Function.Injective f) (checks : Checks) :
    Leads (Analysis.Corresponds f ws.tree ws'.tree) (ws.check checks) (ws'.check checks) := by
  intro analysis hcheck
  obtain ⟨linked, found, hlinked, hfound, rfl⟩ := check_eq_ok_iff.mp hcheck
  obtain ⟨linked', hlinked', hcorresponds⟩ :=
    h.linkAll hf ws.tree.files (Analysis.corresponds_empty f ws.tree ws'.tree) linked hlinked
  have hvalidate : Leads (List.Forall₂ (List.Forall₂ fun finding finding' =>
        finding.diagnostic.Corresponds f ws.tree ws'.tree finding'.diagnostic))
      (ws.tree.files.mapM (ws.tree.validate linked.links checks))
      (ws.tree.files.mapM (ws'.tree.validate linked.links checks)) := by
    refine leads_mapM (R := Eq) (List.forall₂_same.mpr fun _ _ => rfl) ?_
    rintro root _ rfl
    exact h.tree.validate linked.links checks root
  obtain ⟨found', hfound', hall⟩ := hvalidate found hfound
  refine ⟨_, check_eq_ok_iff.mpr ⟨linked', found', ?_, ?_, rfl⟩, hcorresponds.links, ?_⟩
  · rw [h.tree.files]
    exact hlinked'
  · rw [h.tree.files, hcorresponds.links]
    exact hfound'
  · refine hcorresponds.diagnostics.addAll ?_
    rw [List.forall₂_map_left_iff, List.forall₂_map_right_iff]
    exact List.rel_flatten hall

theorem Tree.Corresponds.check {f : String → String} {tree tree' : Tree}
    (h : tree.Corresponds f tree') (hf : Function.Injective f) (checks : Checks) :
    Leads (Analysis.Corresponds f tree tree') (tree.check checks) (tree'.check checks) := by
  rw [Tree.check, Tree.check, workspace, workspace, h.ofTree]
  cases Documents.ofTree tree with
  | error halt =>
    intro _ hok
    cases hok
  | ok documents =>
    have hws : Workspace.Corresponds f { tree, index := documents.index }
        { tree := tree', index := documents.index } := ⟨h, rfl, fun _ _ => rfl⟩
    exact hws.check hf checks

/-- Names count only up to equality.  A tree by other names, none of which fall
together, can be built and checked wherever the tree can; its references are
bound alike and its nodes have the same types.  The messages have the same
numbers and are the same, apart from the one name that a message about an
unknown name or a number of arguments quotes. -/
theorem Tree.check_rename {source : SourceId} {steps : List BuildStep} {tree : Tree}
    {checks : Checks} {analysis : Analysis} {f : String → String} (hf : Function.Injective f)
    (hbuild : Tree.build source steps = .ok tree) (hcheck : tree.check checks = .ok analysis) :
    Tree.build source (steps.map (BuildStep.rename f)) = .ok (tree.rename f) ∧
      (∀ links id, (tree.rename f).infer links id = tree.infer links id) ∧
      ∃ analysis', (tree.rename f).check checks = .ok analysis' ∧
        analysis'.links = analysis.links ∧
        List.Forall₂ (fun entry entry' => entry'.1 = entry.1 ∧ entry'.2.span = entry.2.span ∧
            entry.2.Corresponds f tree (tree.rename f) entry'.2)
          analysis.diagnostics.toList analysis'.diagnostics.toList := by
  have h := tree.corresponds_rename f
  obtain ⟨analysis', hcheck', hcorresponds⟩ := h.check hf checks analysis hcheck
  refine ⟨?_, h.infer, analysis', hcheck', hcorresponds.links, ?_⟩
  · rw [build_rename, hbuild, map_ok]
  · refine hcorresponds.diagnostics.entries.imp ?_
    rintro ⟨_, diagnostic⟩ ⟨_, diagnostic'⟩ ⟨hid, hdiagnostic⟩
    obtain ⟨id, _, hspan, hspan'⟩ := hdiagnostic.span
    rw [span_rename, hspan] at hspan'
    exact ⟨hid, (Except.ok.inj hspan').symm, hdiagnostic⟩

/-- A data type, beside it an application without its argument, a string that
reads like a name, and an application that means nothing. -/
def Tree.looseApplications : List BuildStep := [
  .node (.type .integer),
  .node (.constructor "One" [0]),
  .node (.dataType "D" [] [1]),
  .node (.expr (.apply "One" [])),
  .node (.expr (.string "One")),
  .node (.expr (.apply "Gone" [])),
  .node (.file [2, 3, 4, 5])]

theorem Tree.check_rename_looseApplications :
    ∃ tree analysis analysis', Tree.build 1 Tree.looseApplications = .ok tree ∧
      tree.check {} = .ok analysis ∧
      (tree.rename (Equiv.swap "One" "Gone")).check {} = .ok analysis' ∧
      analysis'.links = analysis.links ∧ analysis.links.target 3 .constructor = some 1 ∧
      analysis.diagnostics.messages.map (·.title) =
        [unknownTitle .constructor "Gone", (Problem.constructorArity "One" 1 0).message,
          Problem.untypedExpression.message] ∧
      analysis'.diagnostics.messages.map (·.title) =
        [unknownTitle .constructor "One", (Problem.constructorArity "Gone" 1 0).message,
          Problem.untypedExpression.message] := by
  obtain ⟨tree, hbuild⟩ : ∃ tree, Tree.build 1 Tree.looseApplications = .ok tree := ⟨_, rfl⟩
  obtain ⟨analysis, hcheck⟩ : ∃ analysis, tree.check {} = .ok analysis := by
    cases hbuild
    exact ⟨_, rfl⟩
  obtain ⟨hbuild', _, analysis', hcheck', hlinks, _⟩ :=
    Tree.check_rename (Equiv.swap "One" "Gone").injective hbuild hcheck
  refine ⟨tree, analysis, analysis', hbuild, hcheck, hcheck', hlinks, ?_, ?_, ?_⟩
  · cases hbuild
    cases hcheck
    rfl
  · cases hbuild
    cases hcheck
    rfl
  · generalize tree.rename (Equiv.swap "One" "Gone") = renamed at hbuild' hcheck'
    cases hbuild'
    cases hcheck'
    rfl

end Dataflow
