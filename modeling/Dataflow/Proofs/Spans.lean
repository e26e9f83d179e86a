import Dataflow.Proofs.Invariance

/-!
# Dataflow.Proofs.Spans

Spans count for nothing but the places of messages.  Two trees that differ in
the spans of their nodes only (`Tree.DiffersInSpans`) are checked alike: the
same references are bound to the same declarations, nodes have the same types,
and the messages are the same, each with the span that its node has in the tree
at hand (`Tree.check_ignores_spans`).

One part of one span does count: by the source of a document its declarations
are found in the index before or after those of others, so a document belongs
to the same source in both trees.

The two runs are those of `Dataflow.Proofs.Invariance`, with every name kept.
-/

namespace Dataflow

/-! ## Names that are kept -/

/-- A node by the names that it has. -/
@[simp] theorem NodeKind.rename_id (kind : NodeKind) : kind.rename id = kind := by
  cases kind with
  | nodeType _ _ _ iface _ => cases iface <;> rfl
  | source s => cases s <;> rfl
  | expr e => cases e <;> rfl
  | type t => cases t <;> rfl
  | _ => rfl

/-- Without another name a title stays as it is. -/
theorem Diagnostic.Retitled.eq_title {diagnostic : Diagnostic} {title : String}
    (h : diagnostic.Retitled id title) : title = diagnostic.title := by
  cases h with
  | unknownName _ _ htitle => exact htitle.symm
  | arity _ _ htitle => exact htitle.symm
  | unchanged _ _ => rfl

/-! ## Trees that differ in spans -/

/-- All of a node but its span. -/
def Node.bare (node : Node) : NodeKind × Option NodeId := (node.kind, node.parent)

/-- Two trees with the same nodes, apart from their spans, and with the same
documents, each of the same source in both. -/
structure Tree.DiffersInSpans (tree tree' : Tree) : Prop where
  nodes : tree'.nodes.toList.map Node.bare = tree.nodes.toList.map Node.bare
  files : tree'.files = tree.files
  source : ∀ root ∈ tree.files,
    Span.source <$> tree'.span root = Span.source <$> tree.span root

namespace Tree.DiffersInSpans

variable {tree tree' : Tree} (h : tree.DiffersInSpans tree')
include h

theorem symm : tree'.DiffersInSpans tree where
  nodes := h.nodes.symm
  files := h.files.symm
  source root hroot := (h.source root (h.files ▸ hroot)).symm

theorem size : tree'.size = tree.size := by
  have hlength := congrArg List.length h.nodes
  simpa [Tree.size] using hlength

theorem bare (id : NodeId) : tree'.nodes[id]?.map Node.bare = tree.nodes[id]?.map Node.bare := by
  have hentry := congrArg (·[id]?) h.nodes
  simpa using hentry

/-- Both trees miss a node, or it is the same in both apart from its span. -/
theorem node (id : NodeId) : Node.bare <$> tree'.node id = Node.bare <$> tree.node id := by
  have hbare := h.bare id
  unfold Tree.node
  cases hnode : tree.nodes[id]? <;> cases hnode' : tree'.nodes[id]? <;>
    simp_all [h.size, abort]

theorem kind (id : NodeId) : tree'.kind id = tree.kind id := by
  have hkind := congrArg (Prod.fst <$> ·) (h.node id)
  unfold Tree.kind
  cases hnode : tree.node id <;> cases hnode' : tree'.node id <;> simp_all [Node.bare]

theorem parent (id : NodeId) : tree'.parent id = tree.parent id := by
  have hparent := congrArg (Prod.snd <$> ·) (h.node id)
  unfold Tree.parent
  cases hnode : tree.node id <;> cases hnode' : tree'.node id <;> simp_all [Node.bare]

/-- Such trees correspond, every name staying as it is. -/
theorem corresponds : tree.Corresponds id tree' where
  size := h.size
  files := h.files
  kind node := by
    rw [h.kind node]
    cases tree.kind node <;> simp [Functor.map, Except.map]
  parent := h.parent
  source hroot := h.source _ hroot

end Tree.DiffersInSpans

/-! ## Messages -/

/-- A message about a node of two trees, the same but for the span, which is the
one that the node has in the one tree and in the other. -/
def Diagnostic.Relocated (tree tree' : Tree) (diagnostic diagnostic' : Diagnostic) : Prop :=
  ∃ id, diagnostic.node = some id ∧ tree.span id = .ok diagnostic.span ∧
    tree'.span id = .ok diagnostic'.span ∧
      diagnostic' = { diagnostic with span := diagnostic'.span }

theorem Diagnostic.Corresponds.relocated {tree tree' : Tree} {diagnostic diagnostic' : Diagnostic}
    (h : diagnostic.Corresponds id tree tree' diagnostic') :
    diagnostic.Relocated tree tree' diagnostic' := by
  obtain ⟨node, hnode, hspan, hspan'⟩ := h.span
  refine ⟨node, hnode, hspan, hspan', ?_⟩
  cases diagnostic
  cases diagnostic'
  simp only [Diagnostic.mk.injEq, true_and]
  exact ⟨h.kind, h.severity, h.node, h.property, h.title.eq_title, h.notes⟩

/-! ## Checking -/

/-- Spans do not influence meaning.  Of two trees that differ in spans only both
can be checked or neither, their nodes have the same types, the same references
are bound to the same declarations, and the messages are the same one by one,
each with the span of its node in the tree that was checked. -/
theorem Tree.check_ignores_spans {tree tree' : Tree} (h : tree.DiffersInSpans tree')
    (checks : Checks) :
    (∀ links id, tree'.infer links id = tree.infer links id) ∧
    ((∃ analysis, tree.check checks = .ok analysis) ↔
      ∃ analysis', tree'.check checks = .ok analysis') ∧
    ∀ analysis analysis', tree.check checks = .ok analysis → tree'.check checks = .ok analysis' →
      analysis'.links = analysis.links ∧
      List.Forall₂ (fun entry entry' => entry'.1 = entry.1 ∧
          entry.2.Relocated tree tree' entry'.2)
        analysis.diagnostics.toList analysis'.diagnostics.toList := by
  have hleads := h.corresponds.check Function.injective_id checks
  have hback := h.symm.corresponds.check Function.injective_id checks
  refine ⟨h.corresponds.infer, ⟨?_, ?_⟩, ?_⟩
  · rintro ⟨analysis, hcheck⟩
    obtain ⟨analysis', hcheck', _⟩ := hleads analysis hcheck
    exact ⟨analysis', hcheck'⟩
  · rintro ⟨analysis', hcheck'⟩
    obtain ⟨analysis, hcheck, _⟩ := hback analysis' hcheck'
    exact ⟨analysis, hcheck⟩
  · intro analysis analysis' hcheck hcheck'
    obtain ⟨found, hfound, hcorresponds⟩ := hleads analysis hcheck
    rw [hcheck'] at hfound
    cases hfound
    refine ⟨hcorresponds.links, hcorresponds.diagnostics.entries.imp ?_⟩
    rintro entry entry' ⟨hnumber, hdiagnostic⟩
    exact ⟨hnumber, hdiagnostic.relocated⟩

/-- Two documents that both declare `D`, and in the second a type that means the
first of them beside one that means nothing; the span of the latter is given. -/
def Tree.twoDeclarations (span : Span) : List BuildStep := [
  .node (.dataType "D" [] []),
  .node (.file [0]),
  .switchSource 2,
  .node (.type (.apply "D" [])),
  .node (.type (.apply "Gone" [])),
  .setSpan 3 span,
  .node (.constructor "Mk" [2, 3]),
  .node (.dataType "D" [] [4]),
  .node (.file [5])]

theorem Tree.check_ignores_spans_twoDeclarations :
    ∃ tree tree' analysis analysis',
      Tree.build 1 (Tree.twoDeclarations ⟨2, 4, 8⟩) = .ok tree ∧
      Tree.build 1 (Tree.twoDeclarations ⟨3, 0, 5⟩) = .ok tree' ∧ tree.DiffersInSpans tree' ∧
      tree.check {} = .ok analysis ∧ tree'.check {} = .ok analysis' ∧
      analysis'.links = analysis.links ∧ analysis.links.toList = [(⟨2, .dataType⟩, 0)] ∧
      analysis.diagnostics.messages.map (fun message => (message.title, message.span)) =
        [(unknownTitle .dataType "Gone", ⟨2, 4, 8⟩),
          (Problem.untypedTypeExpression.message, ⟨2, 4, 8⟩)] ∧
      analysis'.diagnostics.messages.map (fun message => (message.title, message.span)) =
        [(unknownTitle .dataType "Gone", ⟨3, 0, 5⟩),
          (Problem.untypedTypeExpression.message, ⟨3, 0, 5⟩)] := by
  obtain ⟨tree, hbuild⟩ : ∃ tree, Tree.build 1 (Tree.twoDeclarations ⟨2, 4, 8⟩) = .ok tree :=
    ⟨_, rfl⟩
  obtain ⟨tree', hbuild'⟩ : ∃ tree', Tree.build 1 (Tree.twoDeclarations ⟨3, 0, 5⟩) = .ok tree' :=
    ⟨_, rfl⟩
  have hdiffers : tree.DiffersInSpans tree' := by
    cases hbuild
    cases hbuild'
    exact ⟨by decide +kernel, by decide +kernel, by decide +kernel⟩
  obtain ⟨analysis, hcheck⟩ : ∃ analysis, tree.check {} = .ok analysis := by
    cases hbuild
    exact ⟨_, rfl⟩
  obtain ⟨_, hreturns, hsame⟩ := Tree.check_ignores_spans hdiffers {}
  obtain ⟨analysis', hcheck'⟩ := hreturns.mp ⟨analysis, hcheck⟩
  obtain ⟨hlinks, _⟩ := hsame analysis analysis' hcheck hcheck'
  refine ⟨tree, tree', analysis, analysis', hbuild, hbuild', hdiffers, hcheck, hcheck', hlinks,
    ?_, ?_, ?_⟩
  · cases hbuild
    cases hcheck
    rfl
  · cases hbuild
    cases hcheck
    rfl
  · cases hbuild'
    cases hcheck'
    rfl

end Dataflow
