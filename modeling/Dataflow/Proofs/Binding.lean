import Dataflow.Proofs.Linking

/-!
# Dataflow.Proofs.Binding

What one run of linking changes, in any workspace: the tree need not follow
the grammar, the index may list any nodes, and declarations may be visible
under other names or stand for other declarations.

`Workspace.Rebinds` says what becomes of a table when some references are bound
by it, `Workspace.nameError?` what is reported about one of them.  Linking a
node rebinds its two lots one after the other and adds the messages about them
to the store (`Workspace.link_rebinds_and_reports`).
-/

namespace Dataflow

/-! ## The declaration that a name means -/

/-- The first candidate of a scope that is visible under a name is the given
declaration. -/
def Scope.FirstMatch (scope : Scope) (name : String) (declaration : NodeId) : Prop :=
  ∃ nearer candidate farther, scope = nearer ++ candidate :: farther ∧
    (∀ other ∈ nearer, other.name ≠ name) ∧ candidate.name = name ∧
      candidate.declaration = declaration

theorem Scope.lookup_eq_some_iff {scope : Scope} {name : String} {declaration : NodeId} :
    Scope.lookup scope name = some declaration ↔ Scope.FirstMatch scope name declaration := by
  simp only [Scope.lookup, Option.map_eq_some_iff, List.find?_eq_some_iff_append,
    decide_eq_true_eq, Bool.not_eq_true', decide_eq_false_iff_not, Scope.FirstMatch]
  constructor
  · rintro ⟨candidate, ⟨hname, nearer, farther, hscope, hnearer⟩, hdeclaration⟩
    exact ⟨nearer, candidate, farther, hscope, hnearer, hname, hdeclaration⟩
  · rintro ⟨nearer, candidate, farther, hscope, hnearer, hname, hdeclaration⟩
    exact ⟨candidate, ⟨hname, nearer, farther, hscope, hnearer⟩, hdeclaration⟩

namespace Workspace

variable {ws : Workspace} {links : Links} {reference : Reference}

/-! ## What becomes of the table -/

/-- What a reference refers to by a table. -/
def RefersTo (ws : Workspace) (links : Links) (reference : Reference) (target : NodeId) : Prop :=
  ∃ scope, ws.scope links reference.site = .ok scope ∧
    Scope.FirstMatch scope reference.name target

/-- The second table is the first, with every reference that refers to
something by the first bound to it. -/
structure Rebinds (ws : Workspace) (references : List Reference) (before after : Links) :
    Prop where
  bound : ∀ reference ∈ references, ∀ target, ws.RefersTo before reference target →
    after.get? reference.site = some target
  kept : ∀ site, (∀ reference ∈ references, reference.site = site →
    ∀ target, ¬ ws.RefersTo before reference target) → after.get? site = before.get? site

theorem target?_eq_some_iff_refersTo {resolution : Resolution} {target : NodeId}
    (h : ws.resolve links reference = .ok resolution) :
    resolution.target? = some target ↔ ws.RefersTo links reference target := by
  simp only [target?_eq_some_iff h, Scope.lookup_eq_some_iff, RefersTo]

/-! ## What is reported -/

/-- The message about a reference by a table: its scope holds no candidate with
its name.  A note says if the scope holds none at all. -/
def nameError? (ws : Workspace) (links : Links) (reference : Reference) : Option Diagnostic :=
  match ws.scope links reference.site, ws.tree.span reference.site.node with
  | .ok scope, .ok span =>
    if ∀ candidate ∈ scope, candidate.name ≠ reference.name then
      some {
        kind := .name
        severity := .error
        span := span
        node := some reference.site.node
        property := some reference.site.slot
        title := "could not resolve reference to " ++ reference.site.slot.target ++ " `" ++
          reference.name ++ "`"
        notes :=
          if scope = [] then ["no " ++ reference.site.slot.target ++ "s are visible here"] else [] }
    else
      none
  | _, _ => none

theorem diagnostic?_eq_nameError? {resolution : Resolution}
    (h : ws.resolve links reference = .ok resolution) :
    resolution.diagnostic? = ws.nameError? links reference := by
  cases resolution with
  | bound target =>
    obtain ⟨scope, hscope, hlookup⟩ := resolve_eq_bound_iff.mp h
    have hmatch : ¬ ∀ candidate ∈ scope, candidate.name ≠ reference.name := by
      rw [← Scope.lookup_eq_none_iff, hlookup]
      simp
    rw [nameError?, hscope]
    cases ws.tree.span reference.site.node with
    | ok span => simp only [if_neg hmatch, Resolution.diagnostic?]
    | error _ => rfl
  | unresolved diagnostic =>
    obtain ⟨scope, span, hscope, hlookup, hspan, rfl⟩ := resolve_eq_unresolved_iff.mp h
    have hnone := Scope.lookup_eq_none_iff.mp hlookup
    rw [nameError?, hscope, hspan]
    simp only [if_pos hnone, Resolution.diagnostic?, unknownName, Diagnostic.at,
      List.isEmpty_iff]
  | skipped error =>
    rw [nameError?, resolve_eq_skipped_iff.mp h]
    rfl

/-! ## Binding a lot -/

variable {references : List Reference} {analysis after : Analysis}
  {resolved : List (Reference × Resolution)} {root : NodeId}

/-- A lot that is bound is resolved by one table, and what comes of it is taken
down. -/
theorem exists_of_bindAll (h : ws.bindAll references analysis = .ok after) :
    ∃ resolved, ws.Resolves analysis.links references resolved ∧
      after = analysis.record resolved := by
  obtain ⟨resolved, hresolved, hafter⟩ := bind_eq_ok_iff.mp h
  cases hafter
  exact ⟨resolved, resolves_of_resolveAll hresolved, rfl⟩

namespace Resolves

variable (h : ws.Resolves links references resolved)
include h

theorem rebinds (hnodup : (references.map (·.site)).Nodup) :
    ws.Rebinds references links (links.bindAll resolved) := by
  have hsites : resolved.map (·.1.site) = references.map (·.site) := by
    rw [← h.order, List.map_map]
    rfl
  have hget : ∀ entry ∈ resolved,
      (links.bindAll resolved).get? entry.1.site = entry.2.target?.or (links.get? entry.1.site) :=
    fun entry hmem => Links.get?_bindAll_of_mem (hsites ▸ hnodup) hmem
  refine ⟨?_, ?_⟩
  · intro reference hmem target hrefers
    rw [← h.order] at hmem
    obtain ⟨entry, hentry, rfl⟩ := List.mem_map.mp hmem
    rw [hget entry hentry, (target?_eq_some_iff_refersTo (h.resolve entry hentry)).mpr hrefers]
    rfl
  · intro site hnothing
    by_cases hsite : site ∈ resolved.map (·.1.site)
    · obtain ⟨entry, hentry, rfl⟩ := List.mem_map.mp hsite
      have hnone : entry.2.target? = none := by
        rw [Option.eq_none_iff_forall_not_mem]
        intro target htarget
        exact hnothing entry.1 (h.mem hentry) rfl target
          ((target?_eq_some_iff_refersTo (h.resolve entry hentry)).mp htarget)
      rw [hget entry hentry, hnone, Option.none_or]
    · exact Links.get?_bindAll_of_not_mem hsite

theorem filterMap_diagnostic? :
    resolved.filterMap (·.2.diagnostic?) = references.filterMap (ws.nameError? links) := by
  rw [← h.order, List.filterMap_map]
  refine List.filterMap_congr ?_
  intro entry hmem
  exact diagnostic?_eq_nameError? (h.resolve entry hmem)

end Resolves

/-! ## Linking a node -/

/-- A node that can be linked is a node of the tree. -/
theorem lt_size_of_link (h : ws.link root analysis = .ok after) : root < ws.tree.size := by
  obtain ⟨_, hlots, _⟩ := bind_eq_ok_iff.mp h
  obtain ⟨references, hreferences, _⟩ := bind_eq_ok_iff.mp hlots
  obtain ⟨entries, hentries, _⟩ := bind_eq_ok_iff.mp hreferences
  exact Tree.lt_size_of_subtree hentries

/-- What linking a node does: its first lot is resolved by the table as it was,
the ports of its instances by the table with the first lot bound. -/
theorem exists_of_link (hf : ws.tree.IsForest) (h : ws.link root analysis = .ok after) :
    ∃ first ports, ws.Resolves analysis.links (ws.tree.firstLot root) first ∧
      ws.Resolves (analysis.record first).links (ws.tree.portLot root) ports ∧
        after = analysis.record (first ++ ports) := by
  have hroot := lt_size_of_link h
  rw [link, lots_eq hf hroot, ok_bind] at h
  obtain ⟨between, hbetween, hafter⟩ := bind_eq_ok_iff.mp h
  obtain ⟨first, hfirst, rfl⟩ := exists_of_bindAll hbetween
  obtain ⟨ports, hports, rfl⟩ := exists_of_bindAll hafter
  exact ⟨first, ports, hfirst, hports, (analysis.record_append first ports).symm⟩

/-- What linking some nodes takes down: their references in order, each with
what it came to by some table. -/
theorem exists_of_linkAll (hf : ws.tree.IsForest) {roots : List NodeId}
    (h : ws.linkAll roots analysis = .ok after) :
    ∃ resolved, after = analysis.record resolved ∧
      resolved.map (·.1) = roots.flatMap ws.tree.linkOrder ∧
      ∀ entry ∈ resolved, ∃ links, ws.resolve links entry.1 = .ok entry.2 := by
  induction roots generalizing analysis with
  | nil =>
    cases h
    exact ⟨[], rfl, rfl, fun entry hmem => nomatch hmem⟩
  | cons root roots ih =>
    rw [linkAll, List.foldlM_cons] at h
    obtain ⟨between, hlink, hrest⟩ := bind_eq_ok_iff.mp h
    obtain ⟨first, ports, hfirst, hports, rfl⟩ := exists_of_link hf hlink
    obtain ⟨later, rfl, horder, hlater⟩ := ih hrest
    refine ⟨first ++ ports ++ later, (analysis.record_append _ later).symm, ?_, ?_⟩
    · rw [List.map_append, List.map_append, hfirst.order, hports.order, horder,
        List.flatMap_cons, Tree.linkOrder]
    · intro entry hmem
      obtain hmem | hmem := List.mem_append.mp hmem
      · obtain hmem | hmem := List.mem_append.mp hmem
        · exact ⟨_, hfirst.resolve entry hmem⟩
        · exact ⟨_, hports.resolve entry hmem⟩
      · exact hlater entry hmem

/-- Linking a node rebinds the references of its first lot, by scopes that look
at no table, then those of its second by the table that this leaves.  All else
in the table stays.  The messages so far stay too; those about the first lot
and then those about the second are added with the next numbers. -/
theorem link_rebinds_and_reports {source : SourceId} {steps : List BuildStep}
    {before : Analysis} (hbuild : Tree.build source steps = .ok ws.tree)
    (hlink : ws.link root before = .ok after) :
    (∀ reference ∈ ws.tree.firstLot root, ∀ links links',
      ws.scope links reference.site = ws.scope links' reference.site) ∧
    ∃ between, ws.Rebinds (ws.tree.firstLot root) before.links between ∧
      ws.Rebinds (ws.tree.portLot root) between after.links ∧
      after.diagnostics.toList = before.diagnostics.toList ++
        ((ws.tree.firstLot root).filterMap (ws.nameError? before.links) ++
          (ws.tree.portLot root).filterMap (ws.nameError? between)).mapIdx
            fun place diagnostic => (before.diagnostics.counter + place + 1, diagnostic) := by
  have hf := (Tree.isFinished_of_build hbuild).toIsForest
  have hnodup := hf.nodup_referencesBelow (lt_size_of_link hlink)
  obtain ⟨first, ports, hfirst, hports, rfl⟩ := exists_of_link hf hlink
  refine ⟨?_, (before.record first).links, ?_, ?_, ?_⟩
  · intro reference hmem
    exact scope_eq_of_ne_nodePort (of_decide_eq_true (List.mem_filter.mp hmem).2)
  · exact hfirst.rebinds (hnodup.sublist (List.filter_sublist.map _))
  · rw [before.record_append]
    exact hports.rebinds (hnodup.sublist (List.filter_sublist.map _))
  · rw [Analysis.record, Diagnostics.toList_addAll, List.filterMap_append,
      hfirst.filterMap_diagnostic?, hports.filterMap_diagnostic?]

/-- A node type `Outer` that re-exposes a port of type `Inner` and sends one of
its ports to another that it does not have, the node type `Core`, and a stray
`self.port` outside of every node type. -/
def borrowedSteps : List BuildStep := [
  .node (.type (.apply "Gone" [])),
  .setSpan 0 ⟨1, 4, 8⟩,
  .node (.port "lost" .input 0),
  .node (.type (.apply "Inner" [])),
  .node (.port "main" .output 2),
  .node (.source (.selfPort "main")),
  .node (.instanceDecl "a" 4),
  .node (.expr (.nodePort "a" "value")),
  .node (.expr (.nodePort "a" "other")),
  .node (.link 6 7),
  .node (.body [5] [8] []),
  .node (.nodeType "Outer" [] [1, 3] none (some 9)),
  .node (.type .integer),
  .node (.port "value" .input 11),
  .node (.nodeType "Core" [] [12] none none),
  .node (.expr (.selfPort "stray")),
  .node (.file [10, 13, 14])]

/-- Bindings and a message from before: one site will be bound anew, one
matches nothing, one breaks the grammar and one is no site of the document. -/
def borrowedBefore : Analysis where
  links := (((Links.bind ∅ ⟨2, .dataType⟩ 10).bind ⟨0, .dataType⟩ 3).bind
    ⟨14, .selfPort⟩ 1).bind ⟨40, .iface⟩ 7
  diagnostics := Diagnostics.accept { counter := 3 } .warning "earlier" ⟨15, none, ⟨1, 0, 0⟩⟩

/-- `Core` is visible as `Inner`. -/
def borrowed (tree : Tree) : Workspace where
  tree := tree
  index := { nodeTypes := [10, 13] }
  naming := Naming.adjusted [(13, "Inner")] []

theorem link_rebinds_and_reports_borrowed :
    ∃ tree after between, Tree.build 1 borrowedSteps = .ok tree ∧
      (borrowed tree).link 15 borrowedBefore = .ok after ∧
      (borrowed tree).Rebinds (tree.firstLot 15) borrowedBefore.links between ∧
      (borrowed tree).Rebinds (tree.portLot 15) between after.links ∧
      after.links.toList =
        [(⟨0, .dataType⟩, 3), (⟨2, .dataType⟩, 13), (⟨4, .sourcePort⟩, 3),
          (⟨6, .instanceRef⟩, 5), (⟨6, .nodePort⟩, 12), (⟨7, .instanceRef⟩, 5),
          (⟨14, .selfPort⟩, 1), (⟨40, .iface⟩, 7)] ∧
      after.diagnostics.toList.map (fun entry => (entry.1, entry.2.title)) =
        [(4, "earlier"), (5, "could not resolve reference to type `Gone`"),
          (6, "could not resolve reference to port `other`")] := by
  obtain ⟨tree, hbuild⟩ : ∃ tree, Tree.build 1 borrowedSteps = .ok tree := ⟨_, rfl⟩
  obtain ⟨after, hlink⟩ : ∃ after, (borrowed tree).link 15 borrowedBefore = .ok after := by
    cases hbuild
    exact ⟨_, rfl⟩
  have htree : Tree.build 1 borrowedSteps = .ok (borrowed tree).tree := hbuild
  obtain ⟨_, between, hfirst, hports, _⟩ := link_rebinds_and_reports htree hlink
  refine ⟨tree, after, between, hbuild, hlink, hfirst, hports, ?_, ?_⟩
  · cases hbuild
    cases hlink
    rfl
  · cases hbuild
    cases hlink
    rfl

end Workspace

end Dataflow
