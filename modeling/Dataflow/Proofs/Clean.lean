import Dataflow.Proofs.Checking

/-!
# Dataflow.Proofs.Clean

When a check has nothing to report, said without types
(`Tree.check_isPerfect_iff`): all references are bound, constructor
applications pass as many arguments as are declared, and each match variable
is an argument of an application in a pattern or is a whole pattern that
nobody uses.
-/

namespace Dataflow

namespace Tree

variable {tree : Tree} {links : Links}

/-! ## Patterns -/

/-- A node that is the pattern of a match case, or an inner part of one that is
reached through constructor applications and parentheses only. -/
inductive InPattern (tree : Tree) : NodeId → Prop where
  | whole {case pattern outcome : NodeId} :
    tree.kind case = .ok (.matchCase pattern outcome) → InPattern tree pattern
  | parens {id inner : NodeId} :
    tree.kind id = .ok (.expr (.parens inner)) → InPattern tree id → InPattern tree inner
  | argument {id arg : NodeId} {applied : String} {args : List NodeId} :
    tree.kind id = .ok (.expr (.apply applied args)) → arg ∈ args → InPattern tree id →
      InPattern tree arg

theorem variableProblem?_cons_eq_none_iff {kind : NodeKind} {ancestors : List NodeKind} :
    variableProblem? (kind :: ancestors) = none ↔
      kind.isMatchCase = true ∨
        (kind.isParens || kind.isApplication) = true ∧ variableProblem? ancestors = none := by
  unfold variableProblem?
  cases hcase : kind.isMatchCase with
  | true =>
    have hnot : (kind.isParens || kind.isApplication) = false := by
      cases kind <;> simp_all [NodeKind.isMatchCase, NodeKind.isParens, NodeKind.isApplication]
    simp [hcase, hnot]
  | false =>
    cases hskip : (kind.isParens || kind.isApplication) with
    | true => simp [hcase, hskip]
    | false => split <;> simp [hcase, hskip]

/-- What a node in a pattern has above it. -/
theorem IsForest.inPattern_iff (hf : tree.IsForest) {id parent : NodeId} {kind : NodeKind}
    (hparent : tree.parent id = .ok (some parent)) (hkind : tree.kind parent = .ok kind) :
    tree.InPattern id ↔ (∃ outcome, kind = .matchCase id outcome) ∨
      (kind.isParens || kind.isApplication) = true ∧ tree.InPattern parent := by
  constructor
  · intro h
    cases h with
    | whole hcase =>
      cases parent_inj hparent (hf.parent_of_child hcase List.mem_cons_self)
      exact .inl ⟨_, kind_inj hkind hcase⟩
    | parens hparens habove =>
      cases parent_inj hparent (hf.parent_of_child hparens List.mem_cons_self)
      cases kind_inj hkind hparens
      exact .inr ⟨rfl, habove⟩
    | argument happlication hmem habove =>
      cases parent_inj hparent (hf.parent_of_child happlication hmem)
      cases kind_inj hkind happlication
      exact .inr ⟨rfl, habove⟩
  · intro h
    obtain ⟨outcome, rfl⟩ | ⟨hskip, habove⟩ := h
    · exact .whole hkind
    · obtain ⟨found, hfound, hmem⟩ := hf.child_of_parent hparent
      cases kind_inj hkind hfound
      cases kind with
      | expr e =>
        cases e with
        | parens inner =>
          cases List.mem_singleton.mp hmem
          exact .parens hkind habove
        | apply applied args => exact .argument hkind hmem habove
        | _ => cases hskip
      | _ => cases hskip

/-- A match variable is well placed exactly if it is in a pattern. -/
theorem WellShaped.variableProblem?_eq_none_iff (hw : tree.WellShaped) {id : NodeId} {e : Expr}
    (hid : tree.InDocument id) (hkind : tree.kind id = .ok (.expr e))
    {ancestors : List (NodeId × NodeKind)} (hancestors : tree.lineage id = .ok ancestors) :
    variableProblem? (ancestors.map (·.2)) = none ↔ tree.InPattern id := by
  refine hw.document_induction (motive := fun id kind => kind.category = .expr →
    ∀ ancestors, tree.lineage id = .ok ancestors →
      (variableProblem? (ancestors.map (·.2)) = none ↔ tree.InPattern id)) ?_ ?_
    hid hkind rfl ancestors hancestors
  · intro id declarations hexpr
    cases hexpr
  · intro id kind parent pkind _ hparent hpkind hplace ih hexpr ancestors hancestors
    obtain ⟨rest, hrest⟩ := hw.exists_lineage (lt_size_of_kind hpkind)
    rw [hw.lineage_of_parent hparent hpkind, hrest, map_ok] at hancestors
    cases hancestors
    rw [List.map_cons, variableProblem?_cons_eq_none_iff, hw.inPattern_iff hparent hpkind]
    -- The parent is a case, or it is skipped and the claim holds of it.
    refine or_congr ?_ (and_congr_right ?_)
    · rw [hexpr] at hplace
      constructor
      · intro hcase
        cases pkind <;> cases hcase
        simp only [NodeKind.places, List.mem_cons, Prod.mk.injEq, reduceCtorEq, and_true, and_false,
          List.not_mem_nil, or_false] at hplace
        exact ⟨_, by rw [hplace]⟩
      · rintro ⟨outcome, hcase⟩
        rw [hcase]
        rfl
    · intro hskip
      refine ih ?_ rest hrest
      cases pkind with
      | expr _ => rfl
      | _ => cases hskip

/-! ## Conditions of a clean check -/

/-- A match variable that is an argument of an application in a pattern, or
that is a whole pattern and is not used. -/
def IsPlaced (tree : Tree) (links : Links) (id : NodeId) : Prop :=
  (∃ application applied args, tree.kind application = .ok (.expr (.apply applied args)) ∧
      id ∈ args ∧ tree.InPattern application) ∨
    (∃ case outcome, tree.kind case = .ok (.matchCase id outcome)) ∧
      ∀ usage name, tree.DocumentNode usage (.expr (.variableUsage name)) →
        links.target usage .matchVariable ≠ some id

/-- Every name of the documents refers to something, applications pass what is
declared, and match variables are placed. -/
structure IsClean (tree : Tree) (links : Links) : Prop where
  bound {id : NodeId} {kind : NodeKind} {slot : Slot} {name : String} :
    tree.DocumentNode id kind → (slot, name) ∈ kind.references →
      ∃ target, links.target id slot = some target
  arity {id : NodeId} {applied : String} {args : List NodeId} :
    tree.DocumentNode id (.expr (.apply applied args)) →
      ∃ constructor name declared, links.target id .constructor = some constructor ∧
        tree.kind constructor = .ok (.constructor name declared) ∧
        declared.length = args.length
  placed {id : NodeId} {name : String} :
    tree.DocumentNode id (.expr (.variableDefinition name)) → tree.IsPlaced links id

/-- A placed match variable is in a pattern. -/
theorem IsPlaced.inPattern {id : NodeId} (h : tree.IsPlaced links id) : tree.InPattern id := by
  obtain ⟨application, applied, args, hkind, hmem, hpattern⟩ | ⟨⟨case, outcome, hkind⟩, _⟩ := h
  · exact .argument hkind hmem hpattern
  · exact .whole hkind

/-- A match variable has its type asked for by the node around it or by a use
of it. -/
theorem of_passesTo_variableDefinition (hw : tree.WellShaped) (hl : links.Sound tree)
    {id next : NodeId} {name : String} (h : tree.PassesTo links id next)
    (hnext : tree.kind next = .ok (.expr (.variableDefinition name))) :
    (∃ kind, tree.kind id = .ok kind ∧ kind.typedAs? = some next) ∨
      ∃ used, tree.kind id = .ok (.expr (.variableUsage used)) ∧
        links.target id .matchVariable = some next := by
  cases h with
  | child hkind hchild => exact .inl ⟨_, hkind, hchild⟩
  | @target kind slot hkind hslot htarget =>
    obtain ⟨_, _, found, hfound, haccepts⟩ := hl _ _ htarget
    cases kind_inj hnext hfound
    unfold NodeKind.typedSlot? at hslot
    split at hslot <;> cases hslot <;> cases haccepts
    exact .inr ⟨_, hkind, htarget⟩
  | argument _ _ _ _ htarget hconstructor hdeclared =>
    obtain ⟨_, hdocument, _⟩ := hl _ _ htarget
    obtain ⟨found, hfound, hcategory⟩ := hw.fits hdocument hconstructor
      (List.mem_map_of_mem (List.mem_of_getElem? hdeclared))
    cases kind_inj hnext hfound
    cases hcategory

namespace IsClean

variable (hw : tree.WellShaped) (hl : links.Sound tree) (hc : tree.IsClean links)
include hw hc

/-- Where all is bound and passed, only a match variable that is a whole
pattern, and is not used, lacks a type. -/
theorem of_lacksType {id : NodeId} (hid : tree.InDocument id) (h : tree.LacksType links id) :
    (∃ name, tree.kind id = .ok (.expr (.variableDefinition name))) ∧
      (∃ case outcome, tree.kind case = .ok (.matchCase id outcome)) ∧
      ∀ usage name, tree.DocumentNode usage (.expr (.variableUsage name)) →
        links.target usage .matchVariable ≠ some id := by
  cases h with
  | unbound hkind hslot hnone =>
    obtain ⟨name, hmem⟩ := NodeKind.exists_reference_of_slot hslot
    obtain ⟨target, htarget⟩ := hc.bound (hw.documentNode_iff.mpr ⟨hid, hkind⟩) hmem
    rw [hnone] at htarget
    cases htarget
  | unplaced hkind hnot =>
    obtain ⟨application, applied, args, happlication, hmem, _⟩ | hwhole :=
      hc.placed (hw.documentNode_iff.mpr ⟨hid, hkind⟩)
    · exact absurd happlication
        (hnot application applied args (hw.parent_of_child happlication hmem))
    · exact ⟨⟨_, hkind⟩, hwhole⟩
  | unmatched _ happlication hplace hnone =>
    have hdocument := hw.inDocument_of_hasChild hid happlication (List.mem_of_getElem? hplace)
    obtain ⟨_, _, _, htarget, _⟩ := hc.arity (hw.documentNode_iff.mpr ⟨hdocument, happlication⟩)
    rw [hnone] at htarget
    cases htarget
  | surplus _ happlication hplace htarget hconstructor hle =>
    have hdocument := hw.inDocument_of_hasChild hid happlication (List.mem_of_getElem? hplace)
    obtain ⟨constructor, _, declared, htarget', hconstructor', hlength⟩ :=
      hc.arity (hw.documentNode_iff.mpr ⟨hdocument, happlication⟩)
    rw [htarget] at htarget'
    cases htarget'
    cases kind_inj hconstructor hconstructor'
    obtain ⟨hlt, _⟩ := List.getElem?_eq_some_iff.mp hplace
    lia

include hl in
/-- Where all is clean, whatever has no type is a match variable. -/
theorem exists_variableDefinition {id : NodeId} {kind : NodeKind} (hid : tree.InDocument id)
    (hkind : tree.kind id = .ok kind) (hterm : kind.isTerm = true)
    (huntyped : tree.HasType links id .untyped) :
    ∃ name, kind = .expr (.variableDefinition name) := by
  obtain ⟨last, hpath, hlacks⟩ := (hl.hasType_untyped_iff hw hid hkind hterm).mp huntyped
  obtain ⟨⟨name, hlast⟩, ⟨case, outcome, hcase⟩, hunused⟩ :=
    hc.of_lacksType hw (hl.inDocument_of_path hw hid hpath) hlacks
  obtain rfl | ⟨before, hbefore, hnext⟩ := hpath.cases_tail
  · exact ⟨name, kind_inj hkind hlast⟩
  · -- Neither a case nor an unused variable passes a chain on to its pattern.
    have hdocument := hl.inDocument_of_path hw hid hbefore
    obtain ⟨bkind, hbkind, hchild⟩ | ⟨used, hbkind, htarget⟩ :=
      of_passesTo_variableDefinition hw hl hnext hlast
    · have hparent := hw.parent_of_child hbkind (NodeKind.mem_children_of_typedAs? hchild)
      cases parent_inj hparent (hw.parent_of_child hcase List.mem_cons_self)
      cases kind_inj hbkind hcase
      cases hchild
    · exact absurd htarget (hunused before used (hw.documentNode_iff.mpr ⟨hdocument, hbkind⟩))

include hl in
/-- Where all is clean, there is nothing to find. -/
theorem not_hasProblem {id : NodeId} {kind : NodeKind} (hnode : tree.DocumentNode id kind)
    (problem : Problem) : ¬ tree.HasProblem links {} id kind problem := by
  obtain ⟨hid, hkind⟩ := hw.documentNode_iff.mp hnode
  intro h
  cases h with
  | untyped hcheck huntyped =>
    obtain ⟨name, rfl⟩ :=
      hc.exists_variableDefinition hw hl hid hkind (isTerm_of_untyped? hcheck) huntyped
    cases hcheck
  | arity _ htarget hconstructor hne =>
    obtain ⟨constructor, _, declared, htarget', hconstructor', hlength⟩ := hc.arity hnode
    rw [htarget] at htarget'
    cases htarget'
    cases kind_inj hconstructor hconstructor'
    exact hne hlength
  | misplaced _ hancestors hproblem =>
    have hnone := (hw.variableProblem?_eq_none_iff hid hkind hancestors).mpr
      (hc.placed hnode).inPattern
    rw [hnone] at hproblem
    cases hproblem

end IsClean

/-- A node that passes its chain on to a match variable without a place has no
type. -/
theorem hasType_untyped_of_passesTo (hf : tree.IsForest) {id next : NodeId}
    (h : tree.PassesTo links id next) (hlacks : tree.LacksType links next) :
    tree.HasType links id .untyped :=
  .sameAs (hf.typeStep_eq_sameAs_iff.mpr h) (.settled (hf.typeStep_of_lacksType hlacks))

theorem lacksType_of_parent {id parent : NodeId} {name : String} {kind : NodeKind}
    (hid : tree.kind id = .ok (.expr (.variableDefinition name)))
    (hparent : tree.parent id = .ok (some parent)) (hkind : tree.kind parent = .ok kind)
    (hnot : kind.isApplication = false) : tree.LacksType links id := by
  refine .unplaced hid ?_
  intro application applied args hparent' happlication
  cases parent_inj hparent hparent'
  cases kind_inj hkind happlication
  cases hnot

/-- Where nothing is found, match variables are placed. -/
theorem isPlaced_of_not_hasProblem (hw : tree.WellShaped)
    (hnone : ∀ id kind, tree.DocumentNode id kind →
      ∀ problem, ¬ tree.HasProblem links {} id kind problem)
    {id : NodeId} {name : String}
    (hnode : tree.DocumentNode id (.expr (.variableDefinition name))) :
    tree.IsPlaced links id := by
  obtain ⟨hid, hkind⟩ := hw.documentNode_iff.mp hnode
  obtain ⟨_, hfile⟩ | ⟨parent, pkind, hparent, hpdoc, hpkind, _⟩ := hw.place hid hkind
  · cases hfile
  obtain ⟨ancestors, hancestors⟩ := hw.exists_lineage (hw.lt_size_of_inDocument hid)
  have hpattern : tree.InPattern id := by
    refine (hw.variableProblem?_eq_none_iff hid hkind hancestors).mp ?_
    refine Option.eq_none_iff_forall_ne_some.mpr ?_
    intro problem hproblem
    exact hnone id _ hnode problem (.misplaced rfl hancestors hproblem)
  obtain ⟨outcome, rfl⟩ | ⟨hskip, habove⟩ := (hw.inPattern_iff hparent hpkind).mp hpattern
  · refine .inr ⟨⟨parent, outcome, hpkind⟩, ?_⟩
    intro usage used husage htarget
    have hpasses : tree.PassesTo links usage id :=
      .target (hw.documentNode_iff.mp husage).2 rfl htarget
    exact hnone usage _ husage _ (.untyped rfl (hasType_untyped_of_passesTo hw.toIsForest hpasses
      (lacksType_of_parent hkind hparent hpkind rfl)))
  · obtain ⟨found, hfound, hmem⟩ := hw.child_of_parent hparent
    cases kind_inj hpkind hfound
    have hpnode := hw.documentNode_iff.mpr ⟨hpdoc, hpkind⟩
    cases pkind with
    | expr e =>
      cases e with
      | apply applied args => exact .inl ⟨parent, applied, args, hpkind, hmem, habove⟩
      | parens inner =>
        -- The parentheses would have no type.
        cases List.mem_singleton.mp hmem
        have huntyped : tree.HasType links parent .untyped :=
          hasType_untyped_of_passesTo hw.toIsForest (.child hpkind rfl)
            (lacksType_of_parent hkind hparent hpkind rfl)
        exact absurd (.untyped rfl huntyped) (hnone parent _ hpnode .untypedExpression)
      | _ => cases hskip
    | _ => cases hskip

/-- Where all is bound and nothing is found, all is clean. -/
theorem isClean_of_not_hasProblem (hw : tree.WellShaped) (hl : links.Sound tree)
    (hbound : ∀ reference, tree.IsReference reference → links.get? reference.site ≠ none)
    (hnone : ∀ id kind, tree.DocumentNode id kind →
      ∀ problem, ¬ tree.HasProblem links {} id kind problem) : tree.IsClean links := by
  have htarget : ∀ {id kind slot name}, tree.DocumentNode id kind →
      (slot, name) ∈ kind.references → ∃ target, links.target id slot = some target := by
    intro id kind slot name hnode hmem
    obtain ⟨hdocument, hkind⟩ := hw.documentNode_iff.mp hnode
    exact Option.ne_none_iff_exists'.mp
      (hbound ⟨⟨id, slot⟩, name⟩ ⟨hdocument, kind, hkind, hmem⟩)
  refine ⟨htarget, ?_, isPlaced_of_not_hasProblem hw hnone⟩
  intro id applied args hnode
  obtain ⟨constructor, hconstructor⟩ := htarget hnode List.mem_cons_self
  obtain ⟨_, _, ckind, hckind, haccepts⟩ := hl _ _ hconstructor
  cases ckind with
  | constructor name declared =>
    refine ⟨constructor, name, declared, hconstructor, hckind, ?_⟩
    by_contra hne
    exact hnone id _ hnode _ (.arity rfl hconstructor hckind hne)
  | _ => cases haccepts

/-! ## Clean checks -/

/-- Checking a grammatical tree finds nothing wrong exactly if all names are
bound, all applications pass what is declared and all match variables are
placed. -/
theorem check_isPerfect_iff {source : SourceId} {steps : List BuildStep} {tree : Tree}
    (hbuild : Tree.build source steps = .ok tree) (hgrammar : tree.isGrammatical = true) :
    ∃ analysis, tree.check {} = .ok analysis ∧
      (analysis.diagnostics.isPerfect = true ↔ tree.IsClean analysis.links) := by
  have hw := wellShaped_of_build hbuild hgrammar
  obtain ⟨index, analysis, resolved, findings, _, hcheck, hr, hindex, hchecked⟩ :=
    hw.exists_check {}
  have hl : analysis.links.Sound tree := hchecked.supports.sound hw hindex
  refine ⟨analysis, hcheck, ?_⟩
  rw [hchecked.isPerfect_iff hr hindex]
  constructor
  · intro ⟨hbound, hnone⟩
    exact isClean_of_not_hasProblem hw hl hbound hnone
  · intro hc
    refine ⟨?_, fun id kind hnode problem => hc.not_hasProblem hw hl hnode problem⟩
    intro reference ⟨hdocument, kind, hkind, hmem⟩
    obtain ⟨target, htarget⟩ := hc.bound (hw.documentNode_iff.mpr ⟨hdocument, hkind⟩) hmem
    exact Option.ne_none_iff_exists'.mpr ⟨target, htarget⟩

/-- A document that takes a pair apart, with a variable that is a whole
pattern as its last case. -/
def takingApart : Tree where
  nodes := #[
    ⟨.type .float, some 2, .origin 1⟩,
    ⟨.type .float, some 2, .origin 1⟩,
    ⟨.constructor "Mk" [0, 1], some 3, .origin 1⟩,
    ⟨.dataType "Pair" [] [2], some 23, .origin 1⟩,
    ⟨.type (.apply "Pair" []), some 5, .origin 1⟩,
    ⟨.port "input" .input 4, some 22, .origin 1⟩,
    ⟨.type .float, some 7, .origin 1⟩,
    ⟨.port "result" .output 6, some 22, .origin 1⟩,
    ⟨.expr (.selfPort "input"), some 20, .origin 1⟩,
    ⟨.expr (.variableDefinition "x"), some 11, .origin 1⟩,
    ⟨.expr (.variableDefinition "y"), some 11, .origin 1⟩,
    ⟨.expr (.apply "Mk" [9, 10]), some 16, .origin 1⟩,
    ⟨.expr (.variableUsage "x"), some 14, .origin 1⟩,
    ⟨.expr (.selfPort "result"), some 14, .origin 1⟩,
    ⟨.link 12 13, some 15, .origin 1⟩,
    ⟨.body [] [14] [], some 16, .origin 1⟩,
    ⟨.matchCase 11 15, some 20, .origin 1⟩,
    ⟨.expr (.variableDefinition "z"), some 19, .origin 1⟩,
    ⟨.body [] [] [], some 19, .origin 1⟩,
    ⟨.matchCase 17 18, some 20, .origin 1⟩,
    ⟨.matching 8 [16, 19], some 21, .origin 1⟩,
    ⟨.body [] [] [20], some 22, .origin 1⟩,
    ⟨.nodeType "Main" [] [5, 7] none (some 21), some 23, .origin 1⟩,
    ⟨.file [3, 22], none, .origin 1⟩]
  files := [23]

theorem check_isPerfect_takingApart :
    Tree.build 1 (takingApart.nodes.toList.map (.node ·.kind)) = .ok takingApart ∧
      takingApart.isGrammatical = true ∧
      ∃ analysis, takingApart.check {} = .ok analysis ∧
        analysis.diagnostics.isPerfect = true ∧ takingApart.IsClean analysis.links := by
  have hbuild : Tree.build 1 (takingApart.nodes.toList.map (.node ·.kind)) = .ok takingApart := rfl
  obtain ⟨analysis, hcheck, hiff⟩ := check_isPerfect_iff hbuild rfl
  have hperfect : analysis.diagnostics.isPerfect = true := by
    cases hcheck
    rfl
  exact ⟨hbuild, rfl, analysis, hcheck, hperfect, hiff.mp hperfect⟩

end Tree

end Dataflow
