import Dataflow.Proofs.Circles

/-!
# Dataflow.Proofs.Growth

Inference by a table that grows.  A node whose reference is bound says the same
by every table that keeps the binding; a node whose reference is not bound says
that it has no type (`Tree.typeStep_eq_or_untyped`).  So the two chains from a
node by a table and by a longer one are the same, unless the first ends in a
node without a type (`Tree.inferWithin_eq_or_untyped`).  Types and shape errors
that were found stay, and so do chains without an end
(`Tree.infer_keeps_findings`).

While documents are linked the table only grows, so a type that was found at some
point of linking is found at the end (`Workspace.Stage.infer_eq_or_untyped`).
-/

namespace Dataflow

/-! ## One step by two tables -/

/-- A site is bound to the same, or was not bound before. -/
theorem Links.Keeps.target_eq_or_none {after before : Links} (h : after.Keeps before)
    (id : NodeId) (slot : Slot) :
    after.target id slot = before.target id slot ∨ before.target id slot = none := by
  cases htarget : before.target id slot with
  | none => exact .inr rfl
  | some target => exact .inl (h _ _ htarget)

namespace Tree

variable {links links' : Links}

section Step

variable (tree : Tree) (hkeeps : links'.Keeps links) (id : NodeId)
include hkeeps

theorem targetStep_eq_or_untyped (slot : Slot) :
    (.ok (.ofTarget (links'.target id slot)) : Result TypeStep) =
        .ok (.ofTarget (links.target id slot)) ∨
      (.ok (.ofTarget (links.target id slot)) : Result TypeStep) = .ok (.settled .untyped) := by
  obtain heq | hnone := hkeeps.target_eq_or_none id slot
  · rw [heq]
    exact .inl rfl
  · rw [hnone]
    exact .inr rfl

theorem definitionStep_eq_or_untyped (slot : Slot) :
    TypeStep.settled <$> tree.instanceTypeOf (links'.target id slot) =
        TypeStep.settled <$> tree.instanceTypeOf (links.target id slot) ∨
      TypeStep.settled <$> tree.instanceTypeOf (links.target id slot) =
        .ok (.settled .untyped) := by
  obtain heq | hnone := hkeeps.target_eq_or_none id slot
  · rw [heq]
    exact .inl rfl
  · rw [hnone]
    exact .inr rfl

/-- A match variable looks at the reference of the application, not at one of its
own. -/
theorem variableStep_eq_or_untyped :
    tree.variableStep links' id = tree.variableStep links id ∨
      tree.variableStep links id = .ok (.settled .untyped) := by
  unfold variableStep
  cases tree.lineage id with
  | error halt => exact .inl rfl
  | ok ancestors =>
    simp only [ok_bind]
    split
    · rename_i application _ args _ _
      obtain heq | hnone := hkeeps.target_eq_or_none application .constructor
      · simp only [heq, true_or]
      · -- Without a constructor it does not count whether the variable has a place.
        right
        simp only [hnone]
        cases args.idxOf? id <;> rfl
    · exact .inl rfl

theorem exprStep_eq_or_untyped (e : Expr) :
    tree.exprStep links' id e = tree.exprStep links id e ∨
      tree.exprStep links id e = .ok (.settled .untyped) := by
  cases e with
  | binary _ _ _ | number _ | string _ | parens _ => exact .inl rfl
  | apply _ _ | variableUsage _ | nodePort _ _ | selfPort _ =>
    exact targetStep_eq_or_untyped hkeeps id _
  | variableDefinition _ => exact tree.variableStep_eq_or_untyped hkeeps id

theorem typeExprStep_eq_or_untyped (t : TypeExpr) :
    tree.typeExprStep links' id t = tree.typeExprStep links id t ∨
      tree.typeExprStep links id t = .ok (.settled .untyped) := by
  cases t with
  | integer | boolean | string | float | parens _ => exact .inl rfl
  | apply _ _ => exact tree.definitionStep_eq_or_untyped hkeeps id _
  | parameter _ => exact targetStep_eq_or_untyped hkeeps id _

/-- By a longer table a node says the same, unless it said that it has no type. -/
theorem typeStep_eq_or_untyped :
    tree.typeStep links' id = tree.typeStep links id ∨
      tree.typeStep links id = .ok (.settled .untyped) := by
  unfold typeStep
  cases tree.kind id with
  | error halt => exact .inl rfl
  | ok kind =>
    simp only [ok_bind]
    cases kind with
    | file _ | dataType _ _ _ | constructor _ _ | typeParameter _ | nodeType _ _ _ _ _
    | port _ _ _ | body _ _ _ | instanceDecl _ _ | link _ _ | matching _ _ | matchCase _ _ =>
      exact .inl rfl
    | source origin =>
      cases origin with
      | selfPort _ => exact targetStep_eq_or_untyped hkeeps id _
      | definition _ => exact tree.definitionStep_eq_or_untyped hkeeps id _
    | expr e => exact tree.exprStep_eq_or_untyped hkeeps id e
    | type t => exact tree.typeExprStep_eq_or_untyped hkeeps id t

end Step

/-! ## Whole chains by two tables -/

/-- The chains by two tables stay together until the first ends without a type. -/
theorem inferWithin_eq_or_untyped (tree : Tree) (hkeeps : links'.Keeps links) (bound : Nat)
    (id : NodeId) :
    tree.inferWithin links' bound id = tree.inferWithin links bound id ∨
      tree.inferWithin links bound id = .ok .untyped := by
  induction bound generalizing id with
  | zero => exact .inl rfl
  | succ bound ih =>
    rw [inferWithin, inferWithin]
    -- As long as the node says the same by both tables, both chains go on alike.
    obtain heq | hnone := tree.typeStep_eq_or_untyped hkeeps id
    · rw [heq]
      cases tree.typeStep links id with
      | error halt => exact .inl rfl
      | ok step =>
        cases step with
        | settled ty => exact .inl rfl
        | sameAs next => exact ih next
    · rw [hnone]
      exact .inr rfl

/-- More bindings change what inference comes to only where it found no type.
Every type that was found is found again, every shape error is met again, and a
chain that comes to no end still comes to none. -/
theorem infer_keeps_findings (tree : Tree) (hkeeps : links'.Keeps links) (id : NodeId) :
    (∀ ty, ty ≠ .untyped → tree.infer links id = .ok ty → tree.infer links' id = .ok ty) ∧
    (∀ error, tree.infer links id = malformed error → tree.infer links' id = malformed error) ∧
    (tree.NeverEnds links id → tree.NeverEnds links' id) ∧
    (tree.infer links' id ≠ tree.infer links id → tree.infer links id = .ok .untyped) := by
  have hinfer := tree.inferWithin_eq_or_untyped hkeeps (tree.size + 1) id
  rw [← infer, ← infer] at hinfer
  refine ⟨?_, ?_, ?_, ?_⟩
  · intro ty hty hfound
    obtain heq | hnone := hinfer
    · exact heq.trans hfound
    · rw [hfound] at hnone
      exact absurd (Except.ok.inj hnone) hty
  · intro error hmet
    obtain heq | hnone := hinfer
    · exact heq.trans hmet
    · rw [hmet] at hnone
      cases hnone
  · intro hnever bound
    obtain heq | hnone := tree.inferWithin_eq_or_untyped hkeeps bound id
    · exact heq.trans (hnever bound)
    · rw [hnever bound] at hnone
      cases hnone
  · intro hne
    exact hinfer.resolve_left hne

/-- A port, a reference to it as `self.p`, one as `a.p`, and a variable in an
application. -/
def threeReferences : List BuildStep := [
  .node (.type .integer),
  .node (.port "p" .input 0),
  .node (.expr (.selfPort "p")),
  .node (.expr (.nodePort "a" "p")),
  .node (.expr (.variableDefinition "x")),
  .node (.expr (.apply "Mk" [4]))]

/-- Once `a.p` is bound as well, it has a type, and the others keep theirs.  The
application refers to a port, which stays a shape error. -/
theorem infer_keeps_findings_threeReferences :
    ∃ tree links, Tree.build 1 threeReferences = .ok tree ∧
      links = ((∅ : Links).bind ⟨2, .selfPort⟩ 1).bind ⟨5, .constructor⟩ 1 ∧
      (links.bind ⟨3, .nodePort⟩ 1).Keeps links ∧
      tree.infer links 2 = .ok (.primitive .integer) ∧
      tree.infer (links.bind ⟨3, .nodePort⟩ 1) 2 = .ok (.primitive .integer) ∧
      tree.infer links 4 = malformed (.unexpectedNode 1 .constructor) ∧
      tree.infer (links.bind ⟨3, .nodePort⟩ 1) 4 = malformed (.unexpectedNode 1 .constructor) ∧
      tree.infer links 3 = .ok .untyped ∧
      tree.infer (links.bind ⟨3, .nodePort⟩ 1) 3 = .ok (.primitive .integer) := by
  obtain ⟨tree, hbuild⟩ : ∃ tree, Tree.build 1 threeReferences = .ok tree := ⟨_, rfl⟩
  obtain ⟨links, hlinks⟩ :
      ∃ links, links = ((∅ : Links).bind ⟨2, .selfPort⟩ 1).bind ⟨5, .constructor⟩ 1 := ⟨_, rfl⟩
  have hkeeps : (links.bind ⟨3, .nodePort⟩ 1).Keeps links := by
    intro site target htarget
    rw [Links.get?_bind]
    split
    · next hsite =>
      rw [hlinks, ← hsite] at htarget
      cases htarget
    · exact htarget
  have hport : tree.infer links 2 = .ok (.primitive .integer) := by
    cases hbuild
    rw [hlinks]
    rfl
  have hvariable : tree.infer links 4 = malformed (.unexpectedNode 1 .constructor) := by
    cases hbuild
    rw [hlinks]
    rfl
  have hafter : tree.infer (links.bind ⟨3, .nodePort⟩ 1) 3 = .ok (.primitive .integer) := by
    cases hbuild
    rw [hlinks]
    rfl
  have hne : tree.infer (links.bind ⟨3, .nodePort⟩ 1) 3 ≠ tree.infer links 3 := by
    cases hbuild
    rw [hlinks]
    exact nofun
  exact ⟨tree, links, hbuild, hlinks, hkeeps, hport,
    (tree.infer_keeps_findings hkeeps 2).1 _ nofun hport, hvariable,
    (tree.infer_keeps_findings hkeeps 4).2.1 _ hvariable,
    (tree.infer_keeps_findings hkeeps 3).2.2.2 hne, hafter⟩

end Tree

/-- A type that was found at some point of linking is found when all documents are
linked. -/
theorem Workspace.Stage.infer_eq_or_untyped {ws : Workspace} {analysis linked : Analysis}
    (hf : ws.tree.IsFinished) (h : ws.Stage analysis)
    (hlinked : ws.linkAll ws.tree.files ∅ = .ok linked) (id : NodeId) :
    ws.tree.infer linked.links id = ws.tree.infer analysis.links id ∨
      ws.tree.infer analysis.links id = .ok .untyped :=
  ws.tree.inferWithin_eq_or_untyped (h.keeps hf hlinked) (ws.tree.size + 1) id

end Dataflow
