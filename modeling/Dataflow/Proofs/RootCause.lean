import Dataflow.Proofs.Checking

/-!
# Dataflow.Proofs.RootCause

Why an expression has no type.  The chain of nodes that its type comes from
(`Tree.LeadsTo`) ends at a name that is reported as unknown, or at a match
variable that has no place in a known constructor (`Tree.RootCause`); and where
it ends so, the expression is reported (`Tree.untyped_iff_rootCause`).
-/

namespace Dataflow

/-! ## Messages -/

/-- Whether validation has something to say at a node. -/
def Analysis.Reports (analysis : Analysis) (id : NodeId) (text : String) : Prop :=
  ∃ diagnostic ∈ analysis.diagnostics.messages,
    diagnostic.kind = .validation ∧ diagnostic.node = some id ∧ diagnostic.title = text

/-! ## Chains and their ends -/

/-- The slots whose target has the type of an expression or type expression. -/
def Slot.isFollowed : Slot → Bool
  | constructor | nodePort | selfPort | matchVariable | dataType | typeParameter => true
  | iface | nodeDef | sourcePort | instanceRef => false

namespace Tree

variable {tree : Tree} {links : Links}

/-- A node has its type from another one. -/
inductive LeadsTo (tree : Tree) (links : Links) (id next : NodeId) : Prop where
  | parens (hkind : tree.kind id = .ok (.expr (.parens next)))
  | typeParens (hkind : tree.kind id = .ok (.type (.parens next)))
  | leftOperand {op : BinaryOp} {right : NodeId}
    (hkind : tree.kind id = .ok (.expr (.binary next op right)))
  | portType {name : String} {direction : Direction}
    (hkind : tree.kind id = .ok (.port name direction next))
  | reference {kind : NodeKind} {slot : Slot} {name : String} (hkind : tree.kind id = .ok kind)
    (hmem : (slot, name) ∈ kind.references) (hslot : slot.isFollowed = true)
    (htarget : links.target id slot = some next)
  | argument {name applied constructorName : String} {args declared : List NodeId}
    {application constructor : NodeId} {place : Nat}
    (hkind : tree.kind id = .ok (.expr (.variableDefinition name)))
    (happlication : tree.kind application = .ok (.expr (.apply applied args)))
    (hplace : args[place]? = some id)
    (htarget : links.target application .constructor = some constructor)
    (hconstructor : tree.kind constructor = .ok (.constructor constructorName declared))
    (hnext : declared[place]? = some next)

/-- A node without a type of which the same result says what is wrong. -/
inductive RootCause (tree : Tree) (analysis : Analysis) (id : NodeId) : Prop where
  /-- The name that it has its type from is reported. -/
  | unknownName {kind : NodeKind} {slot : Slot} {name : String} (hkind : tree.kind id = .ok kind)
    (hmem : (slot, name) ∈ kind.references) (hslot : slot.isFollowed = true)
    (hreported : analysis.diagnostics.nameErrorsAt id slot ≠ [])
  /-- It is a match variable, and its parent is no constructor application. -/
  | unplaced {name : String} (hkind : tree.kind id = .ok (.expr (.variableDefinition name)))
    (hnot : ∀ parent applied args, tree.parent id = .ok (some parent) →
      tree.kind parent ≠ .ok (.expr (.apply applied args)))
  /-- It is an argument of an application whose constructor is reported. -/
  | unknownConstructor {name applied : String} {args : List NodeId} {application : NodeId}
    (hkind : tree.kind id = .ok (.expr (.variableDefinition name)))
    (happlication : tree.kind application = .ok (.expr (.apply applied args)))
    (hmem : id ∈ args)
    (hreported : analysis.diagnostics.nameErrorsAt application .constructor ≠ [])
  /-- It is an argument at a place that the constructor does not declare. -/
  | surplus {name applied constructorName : String} {args declared : List NodeId}
    {application constructor : NodeId} {place : Nat}
    (hkind : tree.kind id = .ok (.expr (.variableDefinition name)))
    (happlication : tree.kind application = .ok (.expr (.apply applied args)))
    (hplace : args[place]? = some id)
    (htarget : analysis.links.target application .constructor = some constructor)
    (hconstructor : tree.kind constructor = .ok (.constructor constructorName declared))
    (hle : declared.length ≤ place)

/-- The chain from a node comes to its end at a root cause. -/
def EndsAtRootCause (tree : Tree) (analysis : Analysis) (id : NodeId) : Prop :=
  ∃ last, Relation.ReflTransGen (tree.LeadsTo analysis.links) id last ∧
    (∀ next, ¬ tree.LeadsTo analysis.links last next) ∧ tree.RootCause analysis last

end Tree

/-! ## Expressions and what they have their types from -/

namespace NodeKind

theorem isFollowed_of_slot {kind : NodeKind} (hterm : kind.isTerm = true) {slot : Slot}
    (h : kind.typedSlot? = some slot ∨ kind.definitionSlot? = some slot) :
    slot.isFollowed = true := by
  unfold typedSlot? definitionSlot? at h
  obtain h | h := h <;> split at h <;> cases h <;> simp_all [Slot.isFollowed, isTerm]

theorem slot_of_isFollowed {kind : NodeKind} {slot : Slot} {name : String}
    (hmem : (slot, name) ∈ kind.references) (hslot : slot.isFollowed = true) :
    kind.typedSlot? = some slot ∨ kind.definitionSlot? = some slot := by
  cases kind with
  | nodeType _ _ _ iface _ => cases iface <;> grind [references, Slot.isFollowed]
  | source s => cases s <;> grind [references, InstanceSource.references, Slot.isFollowed]
  | expr e => cases e <;> grind [references, Expr.references, typedSlot?, Slot.isFollowed]
  | type t => cases t <;> grind [references, TypeExpr.references, typedSlot?, definitionSlot?]
  | _ => simp [references] at hmem

end NodeKind

namespace Tree

variable {tree : Tree} {links : Links}

theorem PassesTo.leadsTo {id next : NodeId} {kind : NodeKind} (hkind : tree.kind id = .ok kind)
    (hterm : kind.isTerm = true) (h : tree.PassesTo links id next) :
    tree.LeadsTo links id next := by
  cases h with
  | child hkind' hchild =>
    cases kind_inj hkind hkind'
    unfold NodeKind.typedAs? at hchild
    split at hchild <;> cases hchild
    · exact .portType hkind
    · cases hterm
    · exact .leftOperand hkind
    · exact .parens hkind
    · exact .typeParens hkind
  | target hkind' hslot htarget =>
    cases kind_inj hkind hkind'
    obtain ⟨name, hmem⟩ := NodeKind.exists_reference_of_slot (.inl hslot)
    exact .reference hkind hmem (NodeKind.isFollowed_of_slot hterm (.inl hslot)) htarget
  | argument hkind _ happlication hplace htarget hconstructor hnext =>
    exact .argument hkind happlication hplace htarget hconstructor hnext

/-- A chain leads on by a step of inference or ends in a definition. -/
theorem LeadsTo.passesTo_or_definition (hf : tree.IsForest) {id next : NodeId}
    (h : tree.LeadsTo links id next) :
    tree.PassesTo links id next ∨ ∃ kind slot, kind.definitionSlot? = some slot ∧
      tree.kind id = .ok kind ∧ links.target id slot = some next := by
  cases h with
  | parens hkind => exact .inl (.child hkind rfl)
  | typeParens hkind => exact .inl (.child hkind rfl)
  | leftOperand hkind => exact .inl (.child hkind rfl)
  | portType hkind => exact .inl (.child hkind rfl)
  | reference hkind hmem hslot htarget =>
    obtain hslot | hslot := NodeKind.slot_of_isFollowed hmem hslot
    · exact .inl (.target hkind hslot htarget)
    · exact .inr ⟨_, _, hslot, hkind, htarget⟩
  | argument hkind happlication hplace htarget hconstructor hnext =>
    have hparent := hf.parent_of_child happlication (List.mem_of_getElem? hplace)
    exact .inl (.argument hkind hparent happlication hplace htarget hconstructor hnext)

/-- A node that lacks what it needs leads nowhere. -/
theorem IsForest.not_leadsTo_of_lacksType (hf : tree.IsForest) {id next : NodeId}
    (hlacks : tree.LacksType links id) : ¬ tree.LeadsTo links id next := by
  intro h
  obtain hpasses | ⟨kind, slot, hslot, hkind, htarget⟩ := h.passesTo_or_definition hf
  · have hstep := hf.typeStep_of_lacksType hlacks
    rw [hf.typeStep_eq_sameAs_iff.mpr hpasses] at hstep
    cases hstep
  · cases hlacks with
    | unbound hkind' hslot' hnone =>
      cases kind_inj hkind hkind'
      unfold NodeKind.definitionSlot? at hslot
      split at hslot <;> cases hslot <;> obtain hslot' | hslot' := hslot' <;> cases hslot' <;>
        cases hnone.symm.trans htarget
    | unplaced hkind' _ | unmatched hkind' _ _ _ | surplus hkind' _ _ _ _ _ =>
      cases kind_inj hkind hkind'
      cases hslot

theorem not_hasType_untyped {id : NodeId} {kind : NodeKind} (hkind : tree.kind id = .ok kind)
    (hgeneric : kind.isGeneric = true) : ¬ tree.HasType links id .untyped := by
  have hstep : ∃ ty, tree.typeStep links id = .ok (.settled ty) ∧ ty ≠ .untyped := by
    unfold typeStep
    rw [hkind]
    cases kind with
    | dataType _ _ _ => exact ⟨_, rfl, nofun⟩
    | nodeType _ _ _ _ _ => exact ⟨_, rfl, nofun⟩
    | _ => cases hgeneric
  obtain ⟨ty, hstep, hne⟩ := hstep
  intro h
  cases h with
  | settled hstep' =>
    rw [hstep] at hstep'
    cases hstep'
    exact hne rfl
  | sameAs hstep' _ =>
    rw [hstep] at hstep'
    cases hstep'

end Tree

namespace Links.Sound

variable {tree : Tree} {links : Links} (hw : tree.WellShaped) (hl : links.Sound tree)
include hw hl

/-- A step of inference is a step of the chain. -/
theorem leadsTo_of_path {id last : NodeId} {kind : NodeKind} (hid : tree.InDocument id)
    (hkind : tree.kind id = .ok kind) (hterm : kind.isTerm = true)
    (h : Relation.ReflTransGen (tree.PassesTo links) id last) :
    Relation.ReflTransGen (tree.LeadsTo links) id last ∧
      ∃ found, tree.kind last = .ok found ∧ found.isTerm = true := by
  induction h with
  | refl => exact ⟨.refl, kind, hkind, hterm⟩
  | tail hpath hnext ih =>
    obtain ⟨hleads, found, hfound, hterm⟩ := ih
    exact ⟨hleads.tail (hnext.leadsTo hfound hterm),
      hl.isTerm_of_passesTo hw (hl.inDocument_of_path hw hid hpath) hfound hterm hnext⟩

theorem inDocument_of_leadsTo {id last : NodeId} (hid : tree.InDocument id)
    (h : Relation.ReflTransGen (tree.LeadsTo links) id last) : tree.InDocument last := by
  induction h with
  | refl => exact hid
  | tail _ hnext ih =>
    obtain hpasses | ⟨_, _, _, _, htarget⟩ := hnext.passesTo_or_definition hw.toIsForest
    · exact hl.inDocument_of_passesTo hw ih hpasses
    · exact (hl _ _ htarget).2.1

/-- Whatever leads to a node without a type has none itself. -/
theorem hasType_untyped_of_leadsTo {id last : NodeId}
    (h : Relation.ReflTransGen (tree.LeadsTo links) id last)
    (hlast : tree.HasType links last .untyped) : tree.HasType links id .untyped := by
  induction h using Relation.ReflTransGen.head_induction_on with
  | refl => exact hlast
  | head hnext _ ih =>
    obtain hpasses | ⟨_, _, hslot, _, htarget⟩ := hnext.passesTo_or_definition hw.toIsForest
    · exact .sameAs (hw.typeStep_eq_sameAs_iff.mpr hpasses) ih
    · obtain ⟨_, _, found, hfound, haccepts⟩ := hl _ _ htarget
      exact absurd ih
        (Tree.not_hasType_untyped hfound (NodeKind.isGeneric_of_accepts hslot haccepts))

end Links.Sound

/-! ## Causes in a result -/

namespace Workspace.Checked

variable {ws : Workspace} {checks : Checks} {analysis : Analysis}
  {resolved : List (Reference × Resolution)} {findings : List Finding}
  (hr : ws.IsRegular) (hindex : ws.HasSoundIndex)
  (h : ws.Checked checks analysis resolved findings)
include hr hindex h

/-- Validation reports the problems of the nodes. -/
theorem reports_iff {id : NodeId} {text : String} :
    analysis.Reports id text ↔ ∃ kind problem, ws.tree.DocumentNode id kind ∧
      ws.tree.HasProblem analysis.links checks id kind problem ∧ problem.message = text := by
  constructor
  · intro ⟨diagnostic, hmem, hkind, hnode, htitle⟩
    rw [h.messages] at hmem
    obtain hmem | hmem := List.mem_append.mp hmem
    · obtain ⟨entry, hentry, hdiagnostic⟩ := List.mem_filterMap.mp hmem
      obtain ⟨span, nothingVisible, rfl⟩ := exists_unknownName (h.resolve hentry) hdiagnostic
      cases hkind
    · obtain ⟨finding, hfinding, rfl⟩ := List.mem_map.mp hmem
      obtain ⟨found, kind, span, hdocument, _, hproblem, hlocation⟩ :=
        (h.mem_findings_iff hr hindex).mp hfinding
      have hfound : found = id := by
        have hsome : some finding.location.node = some id := hnode
        rw [hlocation] at hsome
        exact Option.some.inj hsome
      subst hfound
      exact ⟨kind, finding.problem, hdocument, hproblem, htitle⟩
  · intro ⟨kind, problem, hnode, hproblem, hmessage⟩
    obtain ⟨span, hfinding⟩ := h.exists_finding hr hindex hnode hproblem
    refine ⟨Finding.diagnostic ⟨problem, ⟨id, problem.property, span⟩⟩, ?_, rfl, rfl, hmessage⟩
    rw [h.messages]
    exact List.mem_append_right _ (List.mem_map_of_mem hfinding)

/-- A followed name is reported exactly if it is not bound. -/
theorem reported_iff {id : NodeId} {kind : NodeKind} {slot : Slot} {name : String}
    (hid : ws.tree.InDocument id) (hkind : ws.tree.kind id = .ok kind)
    (hmem : (slot, name) ∈ kind.references) :
    analysis.diagnostics.nameErrorsAt id slot ≠ [] ↔ analysis.links.target id slot = none := by
  have href : ws.tree.IsReference ⟨⟨id, slot⟩, name⟩ := ⟨hid, kind, hkind, hmem⟩
  rw [Ne, h.nameErrorsAt_eq_nil_iff hr hindex href, not_not]
  rfl

theorem lacksType_of_rootCause {id : NodeId} (hid : ws.tree.InDocument id)
    (hcause : ws.tree.RootCause analysis id) : ws.tree.LacksType analysis.links id := by
  have hw := hr.wellShaped
  cases hcause with
  | unknownName hkind hmem hslot hreported =>
    exact .unbound hkind (NodeKind.slot_of_isFollowed hmem hslot)
      ((h.reported_iff hr hindex hid hkind hmem).mp hreported)
  | unplaced hkind hnot => exact .unplaced hkind hnot
  | unknownConstructor hkind happlication hmem hreported =>
    have hdocument := hw.inDocument_of_hasChild hid happlication hmem
    obtain ⟨place, hplace⟩ := List.mem_iff_getElem?.mp hmem
    exact .unmatched hkind happlication hplace
      ((h.reported_iff hr hindex hdocument happlication List.mem_cons_self).mp hreported)
  | surplus hkind happlication hplace htarget hconstructor hle =>
    exact .surplus hkind happlication hplace htarget hconstructor hle

theorem rootCause_of_lacksType {id : NodeId} {kind : NodeKind} (hid : ws.tree.InDocument id)
    (hkind : ws.tree.kind id = .ok kind) (hterm : kind.isTerm = true)
    (hlacks : ws.tree.LacksType analysis.links id) : ws.tree.RootCause analysis id := by
  have hw := hr.wellShaped
  cases hlacks with
  | unbound hkind' hslot hnone =>
    cases Tree.kind_inj hkind hkind'
    obtain ⟨name, hmem⟩ := NodeKind.exists_reference_of_slot hslot
    exact .unknownName hkind hmem (NodeKind.isFollowed_of_slot hterm hslot)
      ((h.reported_iff hr hindex hid hkind hmem).mpr hnone)
  | unplaced hkind hnot => exact .unplaced hkind hnot
  | unmatched hkind happlication hplace hnone =>
    have hmem := List.mem_of_getElem? hplace
    have hdocument := hw.inDocument_of_hasChild hid happlication hmem
    exact .unknownConstructor hkind happlication hmem
      ((h.reported_iff hr hindex hdocument happlication List.mem_cons_self).mpr hnone)
  | surplus hkind happlication hplace htarget hconstructor hle =>
    exact .surplus hkind happlication hplace htarget hconstructor hle

/-- A term has no type exactly if its chain ends at a root cause. -/
theorem hasType_untyped_iff {id : NodeId} {kind : NodeKind} (hid : ws.tree.InDocument id)
    (hkind : ws.tree.kind id = .ok kind) (hterm : kind.isTerm = true) :
    ws.tree.HasType analysis.links id .untyped ↔ ws.tree.EndsAtRootCause analysis id := by
  have hw := hr.wellShaped
  have hl := h.supports.sound hw hindex
  constructor
  · intro huntyped
    obtain ⟨last, hpath, hlacks⟩ := (hl.hasType_untyped_iff hw hid hkind hterm).mp huntyped
    obtain ⟨hleads, found, hfound, hfterm⟩ := hl.leadsTo_of_path hw hid hkind hterm hpath
    exact ⟨last, hleads, fun next => hw.not_leadsTo_of_lacksType hlacks,
      h.rootCause_of_lacksType hr hindex (hl.inDocument_of_path hw hid hpath) hfound hfterm hlacks⟩
  · intro ⟨last, hleads, _, hcause⟩
    have hlast := hl.inDocument_of_leadsTo hw hid hleads
    refine hl.hasType_untyped_of_leadsTo hw hleads (.settled ?_)
    exact hw.typeStep_of_lacksType (h.lacksType_of_rootCause hr hindex hlast hcause)

/-- The report that a node has no type, for the kinds that are checked. -/
theorem reports_untyped_iff {id : NodeId} {kind : NodeKind} {problem : Problem}
    (hnode : ws.tree.DocumentNode id kind) (hcheck : checks.untyped? kind = some problem)
    (hproblem : problem.property = none) :
    analysis.Reports id problem.message ↔ ws.tree.HasType analysis.links id .untyped := by
  have hw := hr.wellShaped
  rw [h.reports_iff hr hindex]
  constructor
  · intro ⟨found, other, hfound, hother, hmessage⟩
    cases Tree.kind_inj (hw.documentNode_iff.mp hnode).2 (hw.documentNode_iff.mp hfound).2
    cases Problem.eq_of_message_eq hproblem hmessage
    cases hother with
    | untyped _ huntyped => exact huntyped
    | arity => cases hproblem
    | misplaced => cases hcheck
  · intro huntyped
    exact ⟨kind, problem, hnode, .untyped hcheck huntyped, rfl⟩

end Workspace.Checked

namespace Tree

/-- In the check of a grammatical tree an expression, match variables aside, or
a type expression is reported as having no type exactly if its chain ends at a
root cause.  A root cause that is an argument too many is reported with its
application. -/
theorem untyped_iff_rootCause {source : SourceId} {steps : List BuildStep} {tree : Tree}
    (hbuild : Tree.build source steps = .ok tree) (hgrammar : tree.isGrammatical = true) :
    ∃ analysis, tree.check {} = .ok analysis ∧
      (∀ id e, tree.DocumentNode id (.expr e) → (∀ name, e ≠ .variableDefinition name) →
        (analysis.Reports id "expression has no type" ↔ tree.EndsAtRootCause analysis id)) ∧
      (∀ id t, tree.DocumentNode id (.type t) →
        (analysis.Reports id "type expression has no type" ↔ tree.EndsAtRootCause analysis id)) ∧
      ∀ id applied args constructor name declared,
        tree.DocumentNode id (.expr (.apply applied args)) →
        analysis.links.target id .constructor = some constructor →
        tree.kind constructor = .ok (.constructor name declared) →
        declared.length ≠ args.length →
        analysis.Reports id
          (Problem.constructorArity name declared.length args.length).message := by
  have hw := wellShaped_of_build hbuild hgrammar
  obtain ⟨index, analysis, resolved, findings, _, hcheck, hr, hindex, hchecked⟩ :=
    hw.exists_check {}
  refine ⟨analysis, hcheck, ?_, ?_, ?_⟩
  · intro id e hnode hnot
    obtain ⟨hid, hkind⟩ := hw.documentNode_iff.mp hnode
    have huntyped : Checks.untyped? {} (.expr e) = some .untypedExpression := by
      cases e with
      | variableDefinition name => exact absurd rfl (hnot name)
      | _ => rfl
    exact (hchecked.reports_untyped_iff hr hindex hnode huntyped rfl).trans
      (hchecked.hasType_untyped_iff hr hindex hid hkind rfl)
  · intro id t hnode
    obtain ⟨hid, hkind⟩ := hw.documentNode_iff.mp hnode
    exact (hchecked.reports_untyped_iff hr hindex hnode rfl rfl).trans
      (hchecked.hasType_untyped_iff hr hindex hid hkind rfl)
  · intro id applied args constructor name declared hnode htarget hconstructor hne
    exact (hchecked.reports_iff hr hindex).mpr
      ⟨_, _, hnode, .arity rfl htarget hconstructor hne, rfl⟩

/-- A document with a pattern that has an argument too many, and a port whose
type is unknown. -/
def overfull : Tree where
  nodes := #[
    ⟨.type .float, some 1, .origin 1⟩,
    ⟨.constructor "Mk" [0], some 2, .origin 1⟩,
    ⟨.dataType "Box" [] [1], some 17, .origin 1⟩,
    ⟨.type (.apply "Missing" []), some 4, .origin 1⟩,
    ⟨.port "result" .output 3, some 16, .origin 1⟩,
    ⟨.expr (.selfPort "result"), some 14, .origin 1⟩,
    ⟨.expr (.variableDefinition "x"), some 8, .origin 1⟩,
    ⟨.expr (.variableDefinition "y"), some 8, .origin 1⟩,
    ⟨.expr (.apply "Mk" [6, 7]), some 13, .origin 1⟩,
    ⟨.expr (.variableUsage "y"), some 11, .origin 1⟩,
    ⟨.expr (.selfPort "result"), some 11, .origin 1⟩,
    ⟨.link 9 10, some 12, .origin 1⟩,
    ⟨.body [] [11] [], some 13, .origin 1⟩,
    ⟨.matchCase 8 12, some 14, .origin 1⟩,
    ⟨.matching 5 [13], some 15, .origin 1⟩,
    ⟨.body [] [] [14], some 16, .origin 1⟩,
    ⟨.nodeType "Main" [] [4] none (some 15), some 17, .origin 1⟩,
    ⟨.file [2, 16], none, .origin 1⟩]
  files := [17]

theorem untyped_iff_rootCause_overfull :
    Tree.build 1 (overfull.nodes.toList.map (.node ·.kind)) = .ok overfull ∧
      overfull.isGrammatical = true ∧
      ∃ analysis, overfull.check {} = .ok analysis ∧
        overfull.EndsAtRootCause analysis 9 ∧ analysis.Reports 9 "expression has no type" := by
  have hbuild : Tree.build 1 (overfull.nodes.toList.map (.node ·.kind)) = .ok overfull := rfl
  obtain ⟨analysis, hcheck, hexpr, _⟩ := untyped_iff_rootCause hbuild rfl
  have hnode : overfull.DocumentNode 9 (.expr (.variableUsage "y")) :=
    ⟨17, by decide, _, rfl, by decide⟩
  have husage : analysis.links.target 9 .matchVariable = some 7 := by
    cases hcheck
    rfl
  have happlication : analysis.links.target 8 .constructor = some 1 := by
    cases hcheck
    rfl
  -- The use of `y` leads to its definition, and that is an argument too many.
  have hlacks : overfull.LacksType analysis.links 7 :=
    .surplus rfl rfl rfl happlication rfl (Nat.le_refl 1)
  have hends : overfull.EndsAtRootCause analysis 9 :=
    ⟨7, .single (.reference rfl List.mem_cons_self rfl husage),
      fun _ => (wellShaped_of_build hbuild rfl).not_leadsTo_of_lacksType hlacks,
      .surplus rfl rfl rfl happlication rfl (Nat.le_refl 1)⟩
  exact ⟨hbuild, rfl, analysis, hcheck, hends, (hexpr 9 _ hnode nofun).mpr hends⟩

end Tree

end Dataflow
