import Dataflow.Proofs.Clean
import Dataflow.Proofs.Composition
import Dataflow.Proofs.InstanceChain

/-!
# Dataflow.Proofs.Placement

Where match variables may stand.  The check looks upwards from a variable twice:
for a match case at all, and for the first node that is neither a constructor
application nor a pair of parentheses.  Whether the variable stands in the pattern
of the case or in its body is not looked at.  In a grammatical document it follows
from the way up (`Tree.WellShaped.variableProblem?_eq_none_iff`), so that a
variable has nothing wrong with it exactly if it is placed in the pattern of its
nearest case (`Tree.PlacedIn`), and the message about it tells whether there is a
case around it (`Tree.variables_reported_by_place`).
-/

namespace Dataflow

/-! ## The problem with a variable -/

/-- There is no match case around the variable, or it is not in the pattern of the
case, or nothing is wrong with it. -/
theorem variableProblem?_cases (ancestors : List NodeKind) :
    variableProblem? ancestors = some .variableOutsideMatch ∧
        (∀ kind ∈ ancestors, kind.isMatchCase = false) ∨
      variableProblem? ancestors ∈ [none, some .variableOutsideConstructor] ∧
        ∃ kind ∈ ancestors, kind.isMatchCase = true := by
  unfold variableProblem?
  cases hany : ancestors.any NodeKind.isMatchCase with
  | false => exact .inl ⟨rfl, by simpa using hany⟩
  | true =>
    refine .inr ⟨?_, List.any_eq_true.mp hany⟩
    rw [if_pos rfl]
    split
    · split <;> simp
    · simp

theorem variableProblem?_mem (ancestors : List NodeKind) : variableProblem? ancestors ∈
    [none, some .variableOutsideMatch, some .variableOutsideConstructor] := by
  obtain ⟨hproblem, _⟩ | ⟨hproblem, _⟩ := variableProblem?_cases ancestors
  · simp [hproblem]
  · simp only [List.mem_cons, List.not_mem_nil, or_false] at hproblem ⊢
    exact hproblem.imp_right .inr

/-- The messages about a node are those that were made of what was found there. -/
theorem Diagnostics.atNode_report (findings : List Finding) (id : NodeId) :
    ((∅ : Diagnostics).report findings).atNode id =
      (findings.filter (·.location.node = id)).map Finding.diagnostic := by
  rw [atNode, report, messages_addAll, messages_empty, List.nil_append, List.filter_map]
  congr 2
  funext finding
  simp [Finding.diagnostic, Diagnostic.at]

/-- The message about a node tells the problem. -/
theorem Problem.map_diagnostic_eq_iff {problem? : Option Problem} {id : NodeId} {span : Span}
    (problem : Problem) (hproperty : problem.property = none) :
    problem?.toList.map (fun found => Finding.diagnostic ⟨found, ⟨id, found.property, span⟩⟩) =
        [.at .validation .error ⟨id, none, span⟩ problem.message] ↔
      problem? = some problem := by
  cases problem? with
  | none => simp
  | some found =>
    simp only [Option.toList_some, List.map_cons, List.map_nil, List.cons.injEq, and_true,
      Option.some.injEq]
    constructor
    · intro h
      exact eq_of_message_eq hproperty (congrArg Diagnostic.title h)
    · rintro rfl
      rw [Finding.diagnostic, hproperty]

namespace Tree

variable {tree : Tree} {links : Links} {checks : Checks} {id case pattern outcome : NodeId}

/-! ## Places in a pattern -/

/-- A node in the pattern of its nearest match case, with nothing but constructor
applications and parentheses between the two. -/
structure PlacedIn (tree : Tree) (id case : NodeId) : Prop where
  nearest : tree.IsNearest NodeKind.isMatchCase id case
  pattern : ∃ pattern outcome, tree.kind case = .ok (.matchCase pattern outcome) ∧
    tree.Under id pattern
  between {inner : NodeId} : tree.Inside id inner → tree.Inside inner case →
    tree.HasSort (fun kind => kind.isParens || kind.isApplication) inner

/-- Below an application or parentheses a node is placed in the same case. -/
theorem PlacedIn.of_parent {parent : NodeId} {kind : NodeKind} (h : tree.PlacedIn parent case)
    (hparent : tree.parent id = .ok (some parent)) (hkind : tree.kind parent = .ok kind)
    (hskip : (kind.isParens || kind.isApplication) = true) : tree.PlacedIn id case := by
  obtain ⟨pattern, outcome, hcase, hunder⟩ := h.pattern
  have hnot : kind.isMatchCase = false := by
    cases kind with
    | matchCase _ _ => cases hskip
    | _ => rfl
  refine ⟨(isNearest_parent_iff hparent hkind hnot).mpr h.nearest,
    ⟨pattern, outcome, hcase, .head hparent hunder⟩, ?_⟩
  rintro inner ⟨found, hfound, habove⟩ hinside
  cases parent_inj hparent hfound
  obtain rfl | habove := under_iff_eq_or_inside.mp habove
  · exact ⟨kind, hkind, hskip⟩
  · exact h.between habove hinside

namespace IsForest

variable (hf : tree.IsForest)
include hf

/-- The pattern of a case is placed in it. -/
theorem placedIn_whole (hcase : tree.kind case = .ok (.matchCase pattern outcome)) :
    tree.PlacedIn pattern case := by
  have hparent := hf.parent_of_child hcase List.mem_cons_self
  have hunder : ∀ {other}, tree.Inside pattern other → tree.Under case other := by
    rintro other ⟨found, hfound, hunder⟩
    cases parent_inj hparent hfound
    exact hunder
  refine ⟨⟨⟨case, hparent, .refl case⟩, ⟨_, hcase, rfl⟩, ?_⟩,
    ⟨pattern, outcome, hcase, .refl pattern⟩, ?_⟩
  · intro other kind hinside _ _
    exact hunder hinside
  · intro inner hinside hcase'
    exact absurd (hf.lt_of_inside hcase') (Nat.not_lt.mpr (hf.le_of_under (hunder hinside)))

/-- A node is in a pattern if the way up to the pattern leads through applications
and parentheses only. -/
theorem inPattern_of_between (hcase : tree.kind case = .ok (.matchCase pattern outcome))
    (hunder : tree.Under id pattern)
    (hbetween : ∀ inner, tree.Inside id inner → tree.Inside inner case →
      tree.HasSort (fun kind => kind.isParens || kind.isApplication) inner) :
    tree.InPattern id := by
  have hpattern : tree.Inside pattern case :=
    ⟨case, hf.parent_of_child hcase List.mem_cons_self, .refl case⟩
  -- The induction goes down from the pattern to the node.
  induction hunder using Relation.ReflTransGen.head_induction_on with
  | refl => exact .whole hcase
  | @head id parent hparent hrest ih =>
    have hinside : tree.Inside parent case := by
      obtain rfl | hinside := under_iff_eq_or_inside.mp hrest
      · exact hpattern
      · exact hinside.trans hpattern
    obtain ⟨kind, hkind, hskip⟩ := hbetween parent ⟨parent, hparent, .refl parent⟩ hinside
    refine (hf.inPattern_iff hparent hkind).mpr (.inr ⟨hskip, ih ?_⟩)
    intro inner habove
    exact hbetween inner ⟨parent, hparent, habove.under⟩

/-- To be reached from the pattern of a case through applications and parentheses is
to be placed in the nearest case. -/
theorem inPattern_iff_placedIn : tree.InPattern id ↔ ∃ case, tree.PlacedIn id case := by
  constructor
  · intro h
    induction h with
    | whole hcase => exact ⟨_, hf.placedIn_whole hcase⟩
    | parens hkind _ ih =>
      obtain ⟨case, hplaced⟩ := ih
      exact ⟨case, hplaced.of_parent (hf.parent_of_child hkind List.mem_cons_self) hkind rfl⟩
    | argument hkind hmem _ ih =>
      obtain ⟨case, hplaced⟩ := ih
      exact ⟨case, hplaced.of_parent (hf.parent_of_child hkind hmem) hkind rfl⟩
  · rintro ⟨case, hplaced⟩
    obtain ⟨pattern, outcome, hcase, hunder⟩ := hplaced.pattern
    exact hf.inPattern_of_between hcase hunder fun inner => hplaced.between

/-- A node in the body of its nearest case is not placed in a case. -/
theorem not_placedIn_of_outcome (hcase : tree.kind case = .ok (.matchCase pattern outcome))
    (hnearest : tree.IsNearest NodeKind.isMatchCase id case) (hunder : tree.Under id outcome)
    {other : NodeId} : ¬ tree.PlacedIn id other := by
  intro hplaced
  obtain ⟨pattern', outcome', hother, hunder'⟩ := hplaced.pattern
  cases hf.isNearest_unique hnearest hplaced.nearest
  cases kind_inj hcase hother
  have hnodup := hf.nodup_children hcase
  have hsame := hf.child_eq_of_under (hf.parent_of_child hcase List.mem_cons_self)
    (hf.parent_of_child hcase (List.mem_cons_of_mem pattern List.mem_cons_self)) hunder' hunder
  simp [NodeKind.children, hsame] at hnodup

end IsForest

/-! ## What is found at a match variable -/

/-- What is found at a match variable hangs on the nodes around it alone. -/
theorem IsForest.findingsAt_variable (hf : tree.IsForest) {name : String}
    (hkind : tree.kind id = .ok (.expr (.variableDefinition name))) :
    ∃ span ancestors, tree.span id = .ok span ∧ tree.lineage id = .ok ancestors ∧
      ∀ links checks, checks.matchVariables = true →
        tree.findingsAt links checks id (.expr (.variableDefinition name)) =
          .ok ((variableProblem? (ancestors.map (·.2))).toList.map fun problem =>
            ⟨problem, ⟨id, problem.property, span⟩⟩) := by
  have hid := lt_size_of_kind hkind
  obtain ⟨span, hspan⟩ := exists_span_of_lt hid
  obtain ⟨ancestors, hancestors⟩ := hf.exists_lineage hid
  refine ⟨span, ancestors, hspan, hancestors, ?_⟩
  intro links checks hcheck
  have hvariable : tree.checkVariable checks id (.expr (.variableDefinition name)) =
      .ok (variableProblem? (ancestors.map (·.2))).toList := by
    rw [checkVariable, if_pos hcheck, hancestors]
    rfl
  -- Neither its type nor its arguments are checked.
  have hinspect : tree.inspect links checks id (.expr (.variableDefinition name)) =
      Report.ofChecks ([[], [], (variableProblem? (ancestors.map (·.2))).toList].map .ok) := by
    rw [inspect, hvariable]
    rfl
  rw [findingsAt, hspan, hinspect, Report.ofChecks_map_ok]
  simp

/-- No match case is around a variable that is told to be outside of a match. -/
theorem IsForest.variableProblem?_eq_outsideMatch_iff (hf : tree.IsForest)
    {ancestors : List (NodeId × NodeKind)} (hancestors : tree.lineage id = .ok ancestors) :
    variableProblem? (ancestors.map (·.2)) = some .variableOutsideMatch ↔
      ∀ case, tree.Inside id case → ¬ tree.HasSort NodeKind.isMatchCase case := by
  obtain ⟨hproblem, hnone⟩ | ⟨hproblem, kind, hmem, hsort⟩ :=
    variableProblem?_cases (ancestors.map (·.2))
  · refine iff_of_true hproblem ?_
    rintro case hinside ⟨kind, hkind, hsort⟩
    have hmem := (hf.mem_lineage_iff hancestors).mpr ⟨hinside, hkind⟩
    simp [hnone kind (List.mem_map_of_mem (f := (·.2)) hmem)] at hsort
  · refine iff_of_false ?_ ?_
    · intro h
      simp [h] at hproblem
    · intro h
      obtain ⟨entry, hentry, rfl⟩ := List.mem_map.mp hmem
      obtain ⟨hinside, hkind⟩ := (hf.mem_lineage_iff hancestors).mp hentry
      exact h entry.1 hinside ⟨entry.2, hkind, hsort⟩

namespace WellShaped

variable (hw : tree.WellShaped) {e : Expr} (hid : tree.InDocument id)
  (hkind : tree.kind id = .ok (.expr e)) {ancestors : List (NodeId × NodeKind)}
  (hancestors : tree.lineage id = .ok ancestors)
include hw hid hkind hancestors

theorem variableProblem?_eq_none_iff_placedIn :
    variableProblem? (ancestors.map (·.2)) = none ↔ ∃ case, tree.PlacedIn id case := by
  rw [hw.variableProblem?_eq_none_iff hid hkind hancestors, hw.inPattern_iff_placedIn]

theorem variableProblem?_eq_outsideConstructor_iff :
    variableProblem? (ancestors.map (·.2)) = some .variableOutsideConstructor ↔
      (∃ case, tree.Inside id case ∧ tree.HasSort NodeKind.isMatchCase case) ∧
        ¬ ∃ case, tree.PlacedIn id case := by
  have hmatch := hw.variableProblem?_eq_outsideMatch_iff hancestors
  have hnone := hw.variableProblem?_eq_none_iff_placedIn hid hkind hancestors
  have hexists : (∃ case, tree.Inside id case ∧ tree.HasSort NodeKind.isMatchCase case) ↔
      ¬ variableProblem? (ancestors.map (·.2)) = some .variableOutsideMatch := by
    rw [hmatch]
    push Not
    rfl
  -- It is one of three outcomes, and the other two are known.
  have hthree := variableProblem?_mem (ancestors.map (·.2))
  rw [hexists, ← hnone]
  generalize variableProblem? (ancestors.map (·.2)) = problem? at hthree
  simp only [List.mem_cons, List.not_mem_nil, or_false] at hthree
  obtain rfl | rfl | rfl := hthree <;> simp

end WellShaped

/-! ## Placement of match variables -/

/-- Of a match variable in a grammatical document, validation tells at most one
thing, and never that it has no type.  It tells nothing exactly if the variable is
placed in its nearest match case; it tells that there is no case around it exactly
if this is so; and that it is no argument of a constructor in all remaining cases,
such as in the body of its nearest case.  What it tells does not depend on the
table, on the other checks, nor on the node at which validation begins. -/
theorem variables_reported_by_place {source : SourceId} {steps : List BuildStep}
    (hbuild : Tree.build source steps = .ok tree) (hgrammar : tree.isGrammatical = true)
    {root : NodeId} (hroot : tree.InDocument root) (hcheck : checks.matchVariables = true)
    {findings : List Finding} (h : tree.validate links checks root = .ok findings) :
    ∃ entries, tree.subtree root = .ok entries ∧
      ∀ id name, (id, .expr (.variableDefinition name)) ∈ entries →
        ∃ span reported, tree.span id = .ok span ∧
          ((∅ : Diagnostics).report findings).atNode id = reported ∧ reported.length ≤ 1 ∧
          (∀ diagnostic ∈ reported, diagnostic.title ≠ "expression has no type") ∧
          (reported = [] ↔ ∃ case, tree.PlacedIn id case) ∧
          (reported = [.at .validation .error ⟨id, none, span⟩
              "match variables can only be defined within pattern match definitions"] ↔
            ∀ case, tree.Inside id case → ¬ tree.HasSort NodeKind.isMatchCase case) ∧
          (reported = [.at .validation .error ⟨id, none, span⟩
              "match variables can only be arguments of constructors"] ↔
            (∃ case, tree.Inside id case ∧ tree.HasSort NodeKind.isMatchCase case) ∧
              ¬ ∃ case, tree.PlacedIn id case) ∧
          (∀ case pattern outcome, tree.kind case = .ok (.matchCase pattern outcome) →
            tree.IsNearest NodeKind.isMatchCase id case → tree.Under id outcome →
              reported = [.at .validation .error ⟨id, none, span⟩
                "match variables can only be arguments of constructors"]) ∧
          ∀ links' checks' root' findings', checks'.matchVariables = true →
            tree.Under id root' → tree.validate links' checks' root' = .ok findings' →
              ((∅ : Diagnostics).report findings').atNode id = reported := by
  have hw := wellShaped_of_build hbuild hgrammar
  obtain ⟨hlt, _⟩ := exists_of_validate hw.toIsForest h
  refine ⟨tree.preorder root, hw.subtree_eq_preorder hlt, ?_⟩
  intro id name hmem
  obtain ⟨hunder, hkind⟩ := (hw.mem_preorder_iff hlt).mp hmem
  have hid := hroot.of_under hunder
  obtain ⟨span, ancestors, hspan, hancestors, hfound⟩ := hw.findingsAt_variable hkind
  have hreported : ∀ {links checks root findings}, checks.matchVariables = true →
      tree.Under id root → tree.validate links checks root = .ok findings →
        ((∅ : Diagnostics).report findings).atNode id =
          (variableProblem? (ancestors.map (·.2))).toList.map fun problem =>
            Finding.diagnostic ⟨problem, ⟨id, problem.property, span⟩⟩ := by
    intro links checks root findings hcheck hunder h
    have hown := hw.findings_of_node h hunder hkind
    rw [hfound links checks hcheck] at hown
    rw [Diagnostics.atNode_report, ← Except.ok.inj hown, List.map_map]
    rfl
  have hconstructor := hw.variableProblem?_eq_outsideConstructor_iff hid hkind hancestors
  refine ⟨span, _, hspan, hreported hcheck hunder h, ?_, ?_, ?_, ?_, ?_, ?_, ?_⟩
  · rw [List.length_map]
    exact Option.length_toList_le
  · intro diagnostic hmem htitle
    obtain ⟨problem, hproblem, rfl⟩ := List.mem_map.mp hmem
    have huntyped : problem = .untypedExpression := Problem.eq_of_message_eq rfl htitle
    subst huntyped
    have hthree := variableProblem?_mem (ancestors.map (·.2))
    simp [Option.mem_toList.mp hproblem] at hthree
  · rw [List.map_eq_nil_iff, Option.toList_eq_nil_iff,
      hw.variableProblem?_eq_none_iff_placedIn hid hkind hancestors]
  · rw [← hw.variableProblem?_eq_outsideMatch_iff hancestors]
    exact Problem.map_diagnostic_eq_iff .variableOutsideMatch rfl
  · rw [← hconstructor]
    exact Problem.map_diagnostic_eq_iff .variableOutsideConstructor rfl
  · intro case pattern outcome hcase hnearest hunder
    refine (Problem.map_diagnostic_eq_iff .variableOutsideConstructor rfl).mpr
      (hconstructor.mpr ⟨?_, ?_⟩)
    · exact ⟨case, hnearest.inside, hnearest.exists_kind⟩
    · rintro ⟨other, hplaced⟩
      exact hw.not_placedIn_of_outcome hcase hnearest hunder hplaced
  · intro links' checks' root' findings' hcheck' hunder' h'
    exact hreported hcheck' hunder' h'

/-- A match with a variable `x` in a pattern and another one, `y`, in the body of
the same case; `z` is added up in a second pattern, and `w` stands outside. -/
def fourVariables : List BuildStep := [
  .node (.expr (.variableDefinition "x")),
  .node (.expr (.parens 0)),
  .node (.expr (.apply "Mk" [1])),
  .node (.expr (.variableDefinition "y")),
  .node (.expr (.selfPort "p")),
  .node (.link 3 4),
  .node (.body [] [5] []),
  .node (.matchCase 2 6),
  .node (.expr (.variableDefinition "z")),
  .node (.expr (.string "text")),
  .node (.expr (.binary 8 .add 9)),
  .node (.body [] [] []),
  .node (.matchCase 10 11),
  .node (.expr (.string "scrutinee")),
  .node (.matching 13 [7, 12]),
  .node (.expr (.variableDefinition "w")),
  .node (.expr (.selfPort "p")),
  .node (.link 15 16),
  .node (.body [] [17] [14]),
  .node (.nodeType "N" [] [] none (some 18)),
  .node (.file [19])]

theorem variables_reported_by_place_fourVariables :
    ∃ tree findings part, Tree.build 1 fourVariables = .ok tree ∧ tree.isGrammatical = true ∧
      tree.InDocument 20 ∧ tree.validate ∅ {} 20 = .ok findings ∧
      tree.validate ((∅ : Links).bind ⟨3, .constructor⟩ 8) {} 7 = .ok part ∧
      (∃ case, tree.PlacedIn 0 case) ∧
      ((∃ case, tree.Inside 8 case ∧ tree.HasSort NodeKind.isMatchCase case) ∧
        ¬ ∃ case, tree.PlacedIn 8 case) ∧
      (∀ case, tree.Inside 15 case → ¬ tree.HasSort NodeKind.isMatchCase case) ∧
      ((∅ : Diagnostics).report findings).atNode 3 = [.at .validation .error ⟨3, none, .origin 1⟩
        "match variables can only be arguments of constructors"] ∧
      ((∅ : Diagnostics).report part).atNode 3 = ((∅ : Diagnostics).report findings).atNode 3 := by
  obtain ⟨tree, hbuild⟩ : ∃ tree, Tree.build 1 fourVariables = .ok tree := ⟨_, rfl⟩
  have hgrammar : tree.isGrammatical = true := by
    cases hbuild
    decide +kernel
  have hroot : tree.InDocument 20 := by
    cases hbuild
    exact ⟨20, by decide, .refl 20⟩
  obtain ⟨findings, hfindings⟩ : ∃ findings, tree.validate ∅ {} 20 = .ok findings := by
    cases hbuild
    exact ⟨_, rfl⟩
  obtain ⟨part, hpart⟩ : ∃ part,
      tree.validate ((∅ : Links).bind ⟨3, .constructor⟩ 8) {} 7 = .ok part := by
    cases hbuild
    exact ⟨_, rfl⟩
  obtain ⟨entries, hentries, hall⟩ :=
    variables_reported_by_place hbuild hgrammar hroot rfl hfindings
  have hmem : ∀ entry ∈ [(0, "x"), (3, "y"), (8, "z"), (15, "w")],
      (entry.1, NodeKind.expr (.variableDefinition entry.2)) ∈ entries := by
    cases hbuild
    cases hentries
    decide
  have hnearest : tree.IsNearest NodeKind.isMatchCase 3 7 := by
    have hsearch : tree.nearest 3 NodeKind.isMatchCase = .ok (some (7, .matchCase 2 6)) := by
      cases hbuild
      rfl
    exact (isFinished_of_build hbuild).isNearest hsearch
  have hcase : tree.kind 7 = .ok (.matchCase 2 6) := by
    cases hbuild
    rfl
  have hunder : tree.Under 3 6 ∧ tree.Under 3 7 := by
    cases hbuild
    exact ⟨.head rfl (.head rfl (.refl 6)), .head rfl (.head rfl (.head rfl (.refl 7)))⟩
  refine ⟨tree, findings, part, hbuild, hgrammar, hroot, hfindings, hpart, ?_, ?_, ?_, ?_, ?_⟩
  · obtain ⟨span, _, _, rfl, _, _, hplaced, _⟩ := hall 0 "x" (hmem (0, "x") (by decide))
    refine hplaced.mp ?_
    cases hbuild
    cases hfindings
    decide +kernel
  · obtain ⟨span, _, hspan, rfl, _, _, _, _, hconstructor, _⟩ :=
      hall 8 "z" (hmem (8, "z") (by decide))
    refine hconstructor.mp ?_
    cases hbuild
    cases hfindings
    cases hspan
    decide +kernel
  · obtain ⟨span, _, hspan, rfl, _, _, _, hmatch, _⟩ := hall 15 "w" (hmem (15, "w") (by decide))
    refine hmatch.mp ?_
    cases hbuild
    cases hfindings
    cases hspan
    decide +kernel
  · obtain ⟨span, _, hspan, rfl, _, _, _, _, _, houtcome, _⟩ :=
      hall 3 "y" (hmem (3, "y") (by decide))
    rw [houtcome 7 2 6 hcase hnearest hunder.1]
    cases hbuild
    cases hspan
    rfl
  · obtain ⟨_, _, _, rfl, _, _, _, _, _, _, hsame⟩ := hall 3 "y" (hmem (3, "y") (by decide))
    exact hsame _ {} 7 part rfl hunder.2 hpart

end Tree

end Dataflow
