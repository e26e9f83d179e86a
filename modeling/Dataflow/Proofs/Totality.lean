import Dataflow.Proofs.Checking

/-!
# Dataflow.Proofs.Totality

A grammatical tree is checked without a shape error anywhere: each scope that
the linker asks for is found, each node of a document has a type at every
stage of linking, and no inspection is cut short (`Tree.check_total`).  So
each reference is bound or reported, and reported once.
-/

namespace Dataflow

namespace Tree

/-- Checking a grammatical tree meets no shape error, and every chain of types
ends.  A document is linked by the table that the documents before it left;
the ports of its instances are bound by that table and the document's own
first lot.  At both stages the scopes are found, and by the second table as by
the finished one every node of a document has a type. -/
theorem check_total {source : SourceId} {steps : List BuildStep} {tree : Tree}
    (hbuild : Tree.build source steps = .ok tree) (hgrammar : tree.isGrammatical = true)
    (checks : Checks) :
    ∃ ws analysis, tree.workspace = .ok ws ∧ tree.check checks = .ok analysis ∧
      (∀ before root after, tree.files = before ++ root :: after →
        ∃ earlier first ports between,
          ws.linkAll before ∅ = .ok earlier ∧ ws.lots root = .ok (first, ports) ∧
          ws.bindAll first earlier = .ok between ∧
          (∀ reference ∈ first, ∃ scope, ws.scope earlier.links reference.site = .ok scope) ∧
          (∀ reference ∈ ports, ∃ scope, ws.scope between.links reference.site = .ok scope) ∧
          ∀ id kind, tree.DocumentNode id kind → ∃ ty, tree.infer between.links id = .ok ty) ∧
      (∀ id kind, tree.DocumentNode id kind →
        (∃ ty, tree.infer analysis.links id = .ok ty) ∧
        ∃ report, tree.inspect analysis.links checks id kind = .ok report ∧
          report.skipped = none) ∧
      ∀ id kind slot name, tree.DocumentNode id kind → (slot, name) ∈ kind.references →
        (∃ target, analysis.links.target id slot = some target ∧
          analysis.diagnostics.nameErrorsAt id slot = []) ∨
        (analysis.links.target id slot = none ∧ ∃ diagnostic, diagnostic.severity = .error ∧
          analysis.diagnostics.nameErrorsAt id slot = [diagnostic]) := by
  have hw := wellShaped_of_build hbuild hgrammar
  obtain ⟨index, analysis, resolved, findings, hworkspace, hcheck, hr, hindex, hchecked⟩ :=
    hw.exists_check checks
  refine ⟨{ tree, index }, analysis, hworkspace, hcheck, ?_, ?_, ?_⟩
  · intro before root after hfiles
    have hroot : root ∈ tree.files := by simp [hfiles]
    obtain ⟨earlier, first, _, hearlier, hsEarlier, hfirst, _⟩ := hr.exists_stage hfiles
    refine ⟨earlier, _, _, _, hearlier, Workspace.lots_file hw.toIsFinished hroot, hfirst.bindAll,
      ?_, ?_, ?_⟩
    · intro reference hmem
      have href := hw.isReference_of_mem hroot (List.mem_filter.mp hmem).1
      exact (hr.yields_scope hsEarlier href).exists_ok hindex
    · intro reference hmem
      have href := hw.isReference_of_mem hroot (List.mem_filter.mp hmem).1
      exact (hr.yields_scope hfirst.supports href).exists_ok hindex
    · intro id kind hnode
      exact hfirst.supports.exists_infer hw hindex (hw.documentNode_iff.mp hnode).1
  · intro id kind hnode
    obtain ⟨problems, hinspect, _⟩ := hchecked.exists_inspect hr hindex hnode
    exact ⟨hchecked.supports.exists_infer hw hindex (hw.documentNode_iff.mp hnode).1,
      _, hinspect, rfl⟩
  · intro id kind slot name hnode hmem
    obtain ⟨hdocument, hkind⟩ := hw.documentNode_iff.mp hnode
    have href : tree.IsReference ⟨⟨id, slot⟩, name⟩ := ⟨hdocument, kind, hkind, hmem⟩
    exact hchecked.bound_or_reported hr hindex href

/-- A document that applies a generic constructor and links it to the port of
an instance that does not exist. -/
def dangling : Tree where
  nodes := #[
    ⟨.typeParameter "t", some 3, .origin 1⟩,
    ⟨.type (.parameter "t"), some 2, .origin 1⟩,
    ⟨.constructor "Mk" [1], some 3, .origin 1⟩,
    ⟨.dataType "Box" [0] [2], some 13, .origin 1⟩,
    ⟨.type .float, some 5, .origin 1⟩,
    ⟨.type (.apply "Box" [4]), some 6, .origin 1⟩,
    ⟨.port "result" .output 5, some 12, .origin 1⟩,
    ⟨.expr (.number 0), some 8, .origin 1⟩,
    ⟨.expr (.apply "Mk" [7]), some 10, .origin 1⟩,
    ⟨.expr (.nodePort "other" "value"), some 10, .origin 1⟩,
    ⟨.link 8 9, some 11, .origin 1⟩,
    ⟨.body [] [10] [], some 12, .origin 1⟩,
    ⟨.nodeType "Main" [] [6] none (some 11), some 13, .origin 1⟩,
    ⟨.file [3, 12], none, .origin 1⟩]
  files := [13]

theorem check_total_dangling :
    Tree.build 1 (dangling.nodes.toList.map (.node ·.kind)) = .ok dangling ∧
      dangling.isGrammatical = true ∧
      ∃ analysis, dangling.check {} = .ok analysis ∧
        analysis.links.target 8 .constructor = some 2 ∧
        analysis.links.target 9 .nodePort = none ∧
        ∃ diagnostic, analysis.diagnostics.nameErrorsAt 9 .nodePort = [diagnostic] := by
  have hbuild : Tree.build 1 (dangling.nodes.toList.map (.node ·.kind)) = .ok dangling := rfl
  obtain ⟨_, analysis, _, hcheck, _, _, hreferences⟩ := check_total hbuild rfl {}
  have hnode : dangling.DocumentNode 9 (.expr (.nodePort "other" "value")) :=
    ⟨13, by decide, _, rfl, by decide⟩
  have hreported := hreferences 9 _ .nodePort "value" hnode (by decide)
  cases hcheck
  obtain ⟨target, htarget, _⟩ | ⟨hnone, diagnostic, _, hone⟩ := hreported
  · cases htarget
  · exact ⟨hbuild, rfl, _, rfl, rfl, hnone, diagnostic, hone⟩

end Tree

end Dataflow
