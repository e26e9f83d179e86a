import Dataflow.Linking
import Dataflow.Proofs.Visible

/-!
# Dataflow.Proofs.Resolving

What comes of the references of a document.  In a regular workspace each of
them is resolved, to something that is offered to it
(`Workspace.IsRegular.exists_resolve`, `Workspace.IsRegular.offers_of_resolve`),
so a lot of them can be bound by a supported table and leaves a supported table
(`Workspace.IsRegular.exists_binds`).
-/

namespace Dataflow

/-! ## Tables of resolved references -/

namespace Links

variable {links : Links} {resolved : List (Reference × Resolution)} {site : Site}

theorem bindAll_append (links : Links) (first second : List (Reference × Resolution)) :
    links.bindAll (first ++ second) = (links.bindAll first).bindAll second :=
  List.foldl_append

theorem bindAll_cons (links : Links) (reference : Reference) (resolution : Resolution)
    (rest : List (Reference × Resolution)) :
    links.bindAll ((reference, resolution) :: rest) =
      (match resolution.target? with
        | some target => links.bind reference.site target
        | none => links).bindAll rest :=
  rfl

/-- Other sites stay as they are. -/
theorem get?_bindAll_of_not_mem (h : site ∉ resolved.map (·.1.site)) :
    (links.bindAll resolved).get? site = links.get? site := by
  induction resolved generalizing links with
  | nil => rfl
  | cons entry resolved ih =>
    obtain ⟨reference, resolution⟩ := entry
    rw [List.map_cons, List.mem_cons, not_or] at h
    obtain ⟨hne, hrest⟩ := h
    rw [bindAll_cons, ih hrest]
    split
    · rw [get?_bind, if_neg (Ne.symm hne)]
    · rfl

/-- A site that is resolved once has the target it was resolved to, or what it
had before. -/
theorem get?_bindAll_of_mem (hnodup : (resolved.map (·.1.site)).Nodup) {reference : Reference}
    {resolution : Resolution} (h : (reference, resolution) ∈ resolved) :
    (links.bindAll resolved).get? reference.site =
      resolution.target?.or (links.get? reference.site) := by
  induction resolved generalizing links with
  | nil => cases h
  | cons entry resolved ih =>
    obtain ⟨other, found⟩ := entry
    rw [List.map_cons, List.nodup_cons] at hnodup
    obtain ⟨hnot, hnodup⟩ := hnodup
    rw [bindAll_cons]
    obtain heq | hmem := List.mem_cons.mp h
    · cases heq
      rw [get?_bindAll_of_not_mem hnot]
      cases resolution.target? <;> simp
    · have hne : other.site ≠ reference.site := by
        intro heq
        exact hnot (List.mem_map.mpr ⟨_, hmem, heq.symm⟩)
      rw [ih hnodup hmem]
      cases found.target? <;> simp [hne]

theorem of_get?_bindAll {target : NodeId} (h : (links.bindAll resolved).get? site = some target) :
    links.get? site = some target ∨
      ∃ entry ∈ resolved, entry.1.site = site ∧ entry.2.target? = some target := by
  induction resolved generalizing links with
  | nil => exact .inl h
  | cons entry resolved ih =>
    obtain ⟨reference, resolution⟩ := entry
    rw [bindAll_cons] at h
    obtain h | ⟨entry, hmem, hentry⟩ := ih h
    · split at h
      · rename_i found hfound
        rw [get?_bind] at h
        split at h
        · cases h
          exact .inr ⟨_, List.mem_cons_self, by assumption, hfound⟩
        · exact .inl h
      · exact .inl h
    · exact .inr ⟨entry, List.mem_cons_of_mem _ hmem, hentry⟩

/-- Binding sites to what they are bound to changes nothing. -/
theorem bindAll_eq_self (h : ∀ entry ∈ resolved, ∀ target, entry.2.target? = some target →
    links.get? entry.1.site = some target) : links.bindAll resolved = links := by
  induction resolved with
  | nil => rfl
  | cons entry resolved ih =>
    obtain ⟨reference, resolution⟩ := entry
    have hrest := ih fun other hmem => h other (List.mem_cons_of_mem _ hmem)
    rw [bindAll_cons]
    cases htarget : resolution.target? with
    | none => exact hrest
    | some target =>
      have hbound := h _ List.mem_cons_self target htarget
      have hsame : links.bind reference.site target = links := by
        ext1 site
        rw [get?_bind]
        split
        · rename_i heq
          rw [← heq, hbound]
        · rfl
      simp only [hsame, hrest]

end Links

/-! ## The references of a document -/

namespace NodeKind

theorem nodup_slots (kind : NodeKind) : (kind.references.map (·.1)).Nodup := by
  cases kind with
  | nodeType _ _ _ iface _ => cases iface <;> simp [references]
  | source s => cases s <;> simp [references, InstanceSource.references]
  | expr e => cases e <;> simp [references, Expr.references]
  | type t => cases t <;> simp [references, TypeExpr.references]
  | _ => simp [references]

theorem nodup_sites (kind : NodeKind) (id : NodeId) :
    ((kind.referencesAt id).map (·.site)).Nodup := by
  have hmap : (kind.referencesAt id).map (·.site) =
      (kind.references.map (·.1)).map fun slot => ⟨id, slot⟩ := by
    simp [referencesAt]
  rw [hmap]
  exact kind.nodup_slots.map fun a b h => (Site.mk.inj h).2

end NodeKind

namespace Tree

variable {tree : Tree}

/-- A reference of a node of a document. -/
def IsReference (tree : Tree) (reference : Reference) : Prop :=
  tree.InDocument reference.site.node ∧ ∃ kind, tree.kind reference.site.node = .ok kind ∧
    (reference.site.slot, reference.name) ∈ kind.references

/-- The references below a node, in preorder. -/
def referencesBelow (tree : Tree) (root : NodeId) : List Reference :=
  (tree.preorder root).flatMap fun entry => entry.2.referencesAt entry.1

namespace IsForest

variable (hf : tree.IsForest) {root : NodeId} (hroot : root < tree.size)
include hf hroot

theorem references_eq : tree.references root = .ok (tree.referencesBelow root) := by
  rw [references, hf.subtree_eq_preorder hroot]
  rfl

theorem mem_referencesBelow {reference : Reference} :
    reference ∈ tree.referencesBelow root ↔ tree.Under reference.site.node root ∧
      ∃ kind, tree.kind reference.site.node = .ok kind ∧
        (reference.site.slot, reference.name) ∈ kind.references := by
  simp only [referencesBelow, List.mem_flatMap, Prod.exists, NodeKind.mem_referencesAt,
    hf.mem_preorder_iff hroot]
  constructor
  · intro ⟨id, kind, ⟨hunder, hkind⟩, hnode, hmem⟩
    subst hnode
    exact ⟨hunder, kind, hkind, hmem⟩
  · intro ⟨hunder, kind, hkind, hmem⟩
    exact ⟨reference.site.node, kind, ⟨hunder, hkind⟩, rfl, hmem⟩

theorem nodup_referencesBelow : ((tree.referencesBelow root).map (·.site)).Nodup := by
  rw [referencesBelow, List.map_flatMap, List.nodup_flatMap]
  refine ⟨fun entry _ => entry.2.nodup_sites entry.1, ?_⟩
  have hdistinct := List.pairwise_map.mp (hf.nodup_preorder hroot)
  refine hdistinct.imp ?_
  intro a b hne site ha hb
  obtain ⟨first, hfirst, rfl⟩ := List.mem_map.mp ha
  obtain ⟨second, hsecond, hsite⟩ := List.mem_map.mp hb
  have hnode := (NodeKind.mem_referencesAt.mp hfirst).1
  have hnode' := (NodeKind.mem_referencesAt.mp hsecond).1
  rw [hsite] at hnode'
  exact hne (hnode.symm.trans hnode')

end IsForest

namespace IsFinished

variable (hf : tree.IsFinished) {root : NodeId} (hroot : root ∈ tree.files)
include hf hroot

theorem mem_referencesBelow_iff {reference : Reference} :
    reference ∈ tree.referencesBelow root ↔ tree.Under reference.site.node root ∧
      ∃ kind, tree.kind reference.site.node = .ok kind ∧
        (reference.site.slot, reference.name) ∈ kind.references :=
  hf.mem_referencesBelow (hf.file_lt_size hroot)

theorem isReference_of_mem {reference : Reference}
    (h : reference ∈ tree.referencesBelow root) : tree.IsReference reference := by
  obtain ⟨hunder, href⟩ := (hf.mem_referencesBelow_iff hroot).mp h
  exact ⟨⟨root, hroot, hunder⟩, href⟩

end IsFinished

end Tree

/-! ## Resolving a reference -/

theorem Scope.exists_of_lookup {scope : Scope} {name : String} {target : NodeId}
    (h : Scope.lookup scope name = some target) :
    ∃ candidate ∈ scope, candidate.declaration = target := by
  obtain ⟨candidate, hfound, htarget⟩ := Option.map_eq_some_iff.mp h
  exact ⟨candidate, List.mem_of_find?_eq_some hfound, htarget⟩

namespace Workspace

variable {ws : Workspace} {links : Links} {reference : Reference}

theorem resolve_eq_bound_iff {target : NodeId} :
    ws.resolve links reference = .ok (.bound target) ↔
      ∃ scope, ws.scope links reference.site = .ok scope ∧
        Scope.lookup scope reference.name = some target := by
  unfold resolve
  cases ws.scope links reference.site with
  | ok scope =>
    simp only [attempt_ok, ok_bind, Except.ok.injEq, exists_eq_left']
    cases Scope.lookup scope reference.name with
    | some found => simp
    | none => cases ws.tree.span reference.site.node <;> simp
  | error halt => cases halt <;> simp [attempt]

theorem resolve_eq_unresolved_iff {diagnostic : Diagnostic} :
    ws.resolve links reference = .ok (.unresolved diagnostic) ↔
      ∃ scope span, ws.scope links reference.site = .ok scope ∧
        Scope.lookup scope reference.name = none ∧
          ws.tree.span reference.site.node = .ok span ∧
            unknownName reference span scope.isEmpty = diagnostic := by
  unfold resolve
  cases ws.scope links reference.site with
  | ok scope =>
    simp only [attempt_ok, ok_bind, Except.ok.injEq, exists_and_left, exists_eq_left']
    cases Scope.lookup scope reference.name with
    | some found => simp
    | none => cases ws.tree.span reference.site.node <;> simp
  | error halt => cases halt <;> simp [attempt]

theorem resolve_eq_skipped_iff {error : ShapeError} :
    ws.resolve links reference = .ok (.skipped error) ↔
      ws.scope links reference.site = malformed error := by
  unfold resolve
  cases ws.scope links reference.site with
  | ok scope =>
    simp only [attempt_ok, ok_bind, malformed, reduceCtorEq, iff_false]
    cases Scope.lookup scope reference.name with
    | some found => simp
    | none => cases ws.tree.span reference.site.node <;> simp
  | error halt => cases halt <;> simp [attempt, malformed]

/-- A resolution binds a reference exactly if the name means something. -/
theorem target?_eq_some_iff {resolution : Resolution}
    (h : ws.resolve links reference = .ok resolution) {target : NodeId} :
    resolution.target? = some target ↔
      ∃ scope, ws.scope links reference.site = .ok scope ∧
        Scope.lookup scope reference.name = some target := by
  rw [← resolve_eq_bound_iff, h]
  cases resolution <;> simp [Resolution.target?]

/-- The message about a reference says that its name is unknown. -/
theorem exists_unknownName {resolution : Resolution}
    (h : ws.resolve links reference = .ok resolution) {diagnostic : Diagnostic}
    (hdiagnostic : resolution.diagnostic? = some diagnostic) :
    ∃ span nothingVisible, diagnostic = unknownName reference span nothingVisible := by
  cases resolution with
  | unresolved found =>
    cases hdiagnostic
    obtain ⟨scope, span, _, _, _, hfound⟩ := resolve_eq_unresolved_iff.mp h
    exact ⟨span, scope.isEmpty, hfound.symm⟩
  | bound _ | skipped _ => cases hdiagnostic

theorem resolve_congr {links' : Links}
    (h : ws.scope links reference.site = ws.scope links' reference.site) :
    ws.resolve links reference = ws.resolve links' reference := by
  unfold resolve
  rw [h]

/-- A workspace with a grammatical tree, an index of nodes of the tree and
declarations under their own names. -/
structure IsRegular (ws : Workspace) : Prop where
  wellShaped : ws.tree.WellShaped
  boundedIndex : ws.HasBoundedIndex
  plain : ws.naming = Naming.plain

namespace IsRegular

variable (hr : ws.IsRegular)
include hr

theorem yields_scope (hs : ws.Supports links) (href : ws.tree.IsReference reference) :
    ws.Yields (ws.Offers reference.site) (ws.scope links reference.site) := by
  obtain ⟨hid, kind, hkind, hmem⟩ := href
  exact Workspace.yields_scope hr.plain hr.wellShaped hr.boundedIndex hs hid hkind hmem

/-- Something comes of every reference of a document. -/
theorem exists_resolve (hs : ws.Supports links) (href : ws.tree.IsReference reference) :
    ∃ resolution, ws.resolve links reference = .ok resolution := by
  have hsize := hr.wellShaped.lt_size_of_inDocument href.1
  obtain ⟨span, hspan⟩ := Tree.exists_span_of_lt hsize
  cases hscope : ws.scope links reference.site with
  | ok scope =>
    cases hlookup : Scope.lookup scope reference.name with
    | some target => exact ⟨_, resolve_eq_bound_iff.mpr ⟨scope, hscope, hlookup⟩⟩
    | none => exact ⟨_, resolve_eq_unresolved_iff.mpr ⟨scope, span, hscope, hlookup, hspan, rfl⟩⟩
  | error halt =>
    cases halt with
    | shape error => exact ⟨_, resolve_eq_skipped_iff.mpr hscope⟩
    | fault fault => exact absurd hscope ((hr.yields_scope hs href).faultFree fault)

/-- What a reference is bound to is offered to it. -/
theorem offers_of_resolve (hs : ws.Supports links) (href : ws.tree.IsReference reference)
    {resolution : Resolution} (h : ws.resolve links reference = .ok resolution) {target : NodeId}
    (htarget : resolution.target? = some target) : ws.Offers reference.site target := by
  cases resolution with
  | bound found =>
    cases htarget
    obtain ⟨scope, hscope, hlookup⟩ := resolve_eq_bound_iff.mp h
    obtain ⟨candidate, hmem, rfl⟩ := Scope.exists_of_lookup hlookup
    exact (hr.yields_scope hs href).sort_of_mem hscope hmem
  | unresolved _ | skipped _ => cases htarget

end IsRegular

end Workspace

/-! ## Binding a lot -/

/-- Messages that are added are numbered on from the last number given. -/
theorem Diagnostics.toList_addAll (store : Diagnostics) (diagnostics : List Diagnostic) :
    (store.addAll diagnostics).toList = store.toList ++
      diagnostics.mapIdx fun place diagnostic => (store.counter + place + 1, diagnostic) := by
  induction diagnostics generalizing store with
  | nil => simp [addAll]
  | cons diagnostic diagnostics ih =>
    have hcounter : (store.add diagnostic).counter = store.counter + 1 := rfl
    rw [addAll, List.foldl_cons, ← addAll, ih, toList_add, List.mapIdx_cons, List.append_assoc,
      hcounter]
    simp [nextId, Nat.add_comm, Nat.add_left_comm]

theorem Diagnostics.addAll_append (store : Diagnostics) (first second : List Diagnostic) :
    store.addAll (first ++ second) = (store.addAll first).addAll second :=
  List.foldl_append

/-- What is known once it is taken down what references came to. -/
def Analysis.record (analysis : Analysis) (resolved : List (Reference × Resolution)) :
    Analysis where
  links := analysis.links.bindAll resolved
  diagnostics := analysis.diagnostics.addAll (resolved.filterMap (·.2.diagnostic?))

theorem Analysis.record_append (analysis : Analysis)
    (first second : List (Reference × Resolution)) :
    analysis.record (first ++ second) = (analysis.record first).record second := by
  rw [record, List.filterMap_append, Links.bindAll_append, Diagnostics.addAll_append]
  rfl

namespace Workspace

variable {ws : Workspace} {links : Links} {references : List Reference}
  {resolved : List (Reference × Resolution)}

/-- Some references, in order, and what they come to by a table. -/
structure Resolves (ws : Workspace) (links : Links) (references : List Reference)
    (resolved : List (Reference × Resolution)) : Prop where
  order : resolved.map (·.1) = references
  resolve : ∀ entry ∈ resolved, ws.resolve links entry.1 = .ok entry.2

namespace Resolves

theorem mem (h : ws.Resolves links references resolved) {entry : Reference × Resolution}
    (hmem : entry ∈ resolved) : entry.1 ∈ references :=
  h.order ▸ List.mem_map_of_mem hmem

theorem append {more : List Reference} {added : List (Reference × Resolution)}
    (h : ws.Resolves links references resolved) (hmore : ws.Resolves links more added) :
    ws.Resolves links (references ++ more) (resolved ++ added) where
  order := by rw [List.map_append, h.order, hmore.order]
  resolve entry hmem := by
    obtain hmem | hmem := List.mem_append.mp hmem
    · exact h.resolve entry hmem
    · exact hmore.resolve entry hmem

/-- By a table with the same scopes references come to the same. -/
theorem congr {links' : Links} (h : ws.Resolves links references resolved)
    (hscope : ∀ entry ∈ resolved, ws.scope links' entry.1.site = ws.scope links entry.1.site) :
    ws.Resolves links' references resolved where
  order := h.order
  resolve entry hmem := by rw [resolve_congr (hscope entry hmem), h.resolve entry hmem]

end Resolves

theorem resolves_of_resolveAll (h : ws.resolveAll links references = .ok resolved) :
    ws.Resolves links references resolved := by
  have hentry : ∀ reference entry,
      (do return (reference, ← ws.resolve links reference)) = Except.ok entry →
        entry.1 = reference ∧ ws.resolve links entry.1 = .ok entry.2 := by
    intro reference entry hentry
    obtain ⟨resolution, hresolve, hentry⟩ := bind_eq_ok_iff.mp hentry
    cases hentry
    exact ⟨rfl, hresolve⟩
  refine ⟨?_, ?_⟩
  · have hall := mapM_eq_ok_iff.mp h
    clear h
    induction hall with
    | nil => rfl
    | cons hhead _ ih => rw [List.map_cons, ih, (hentry _ _ hhead).1]
  · intro entry hmem
    obtain ⟨reference, _, hreference⟩ := exists_of_mem_mapM h hmem
    exact (hentry reference entry hreference).2

/-- A lot of references is bound, and the table stays supported. -/
structure Binds (ws : Workspace) (references : List Reference) (analysis : Analysis)
    (resolved : List (Reference × Resolution)) : Prop
    extends ws.Resolves analysis.links references resolved where
  bindAll : ws.bindAll references analysis = .ok (analysis.record resolved)
  supports : ws.Supports (analysis.record resolved).links

/-- References of documents can be bound by a supported table. -/
theorem IsRegular.exists_binds (hr : ws.IsRegular) (analysis : Analysis)
    (hs : ws.Supports analysis.links)
    (hrefs : ∀ reference ∈ references, ws.tree.IsReference reference) :
    ∃ resolved, ws.Binds references analysis resolved := by
  obtain ⟨resolved, hresolved⟩ :
      ∃ resolved, ws.resolveAll analysis.links references = .ok resolved := by
    refine exists_mapM_eq_ok ?_
    intro reference hmem
    obtain ⟨resolution, hresolution⟩ := hr.exists_resolve hs (hrefs reference hmem)
    exact ⟨(reference, resolution), by rw [hresolution]; rfl⟩
  have hall := resolves_of_resolveAll hresolved
  refine ⟨resolved, hall, ?_, ?_⟩
  · rw [Workspace.bindAll, hresolved]
    rfl
  · intro site target hbound
    obtain hbefore | ⟨entry, hmem, rfl, htarget⟩ := Links.of_get?_bindAll hbound
    · exact hs site target hbefore
    · have href := hrefs entry.1 (hall.mem hmem)
      exact ⟨href.1, hr.offers_of_resolve hs href (hall.resolve entry hmem) htarget⟩

end Workspace

end Dataflow
