import Dataflow.Checking
import Dataflow.Proofs.Renaming

/-!
# Dataflow.Proofs.Correspondence

Two trees that are the same but for the names and the spans of their nodes.
The names of the one are those of the other under a function, and a document
belongs to the same source in both (`Tree.Corresponds`).

Whatever does not look at a span comes to the same in both trees, up to the
names: walks (`lineage`, `subtree`), types (`infer`), the index (`ofTree`) and
scopes (`scope`).  A shape error or a fault in the one is the same in the other.
-/

namespace Dataflow

/-- The same node under another name. -/
def renameEntry (f : String → String) (entry : NodeId × NodeKind) : NodeId × NodeKind :=
  (entry.1, entry.2.rename f)

/-- `tree'` is `tree` by other names and with other spans. -/
structure Tree.Corresponds (f : String → String) (tree tree' : Tree) : Prop where
  size : tree'.size = tree.size
  files : tree'.files = tree.files
  kind (id : NodeId) : tree'.kind id = NodeKind.rename f <$> tree.kind id
  parent (id : NodeId) : tree'.parent id = tree.parent id
  source {root : NodeId} :
    root ∈ tree.files → Span.source <$> tree'.span root = Span.source <$> tree.span root

theorem Tree.corresponds_rename (f : String → String) (tree : Tree) :
    tree.Corresponds f (tree.rename f) where
  size := tree.size_rename f
  files := rfl
  kind id := tree.kind_rename f id
  parent id := tree.parent_rename f id
  source {root} _ := by rw [tree.span_rename f root]

/-- One more node on the way up. -/
theorem Tree.climb_some (tree : Tree) (bound : Nat) (id : NodeId) :
    tree.climb (bound + 1) (some id) = do
      let kind ← tree.kind id
      let parent ← tree.parent id
      return (id, kind) :: (← tree.climb bound parent) := by
  rw [climb, kind, parent]
  cases tree.node id <;> rfl

namespace Tree.Corresponds

variable {f : String → String} {tree tree' : Tree} (h : tree.Corresponds f tree')
include h

/-! ## Walks -/

theorem climb (bound : Nat) (start : Option NodeId) :
    tree'.climb bound start = List.map (renameEntry f) <$> tree.climb bound start := by
  induction bound generalizing start with
  | zero => cases start <;> rfl
  | succ bound ih =>
    cases start with
    | none => rfl
    | some id =>
      rw [climb_some, climb_some, h.kind, h.parent]
      cases tree.kind id with
      | error halt => rfl
      | ok kind =>
        cases tree.parent id with
        | error halt => rfl
        | ok parent =>
          simp only [map_ok, ok_bind, ih]
          cases tree.climb bound parent <;> rfl

theorem lineage (id : NodeId) :
    tree'.lineage id = List.map (renameEntry f) <$> tree.lineage id := by
  rw [Tree.lineage, Tree.lineage, h.parent, h.size]
  cases tree.parent id with
  | error halt => rfl
  | ok parent => exact h.climb (tree.size + 1) parent

theorem nearest (id : NodeId) {sort : NodeKind → Bool}
    (hsort : ∀ kind : NodeKind, sort (kind.rename f) = sort kind) :
    tree'.nearest id sort = Option.map (renameEntry f) <$> tree.nearest id sort := by
  rw [Tree.nearest, Tree.nearest, h.lineage]
  cases tree.lineage id with
  | error halt => rfl
  | ok ancestors => simp [List.find?_map, Function.comp_def, renameEntry, hsort]

theorem enclosing (id : NodeId) {sort : NodeKind → Bool}
    (hsort : ∀ kind : NodeKind, sort (kind.rename f) = sort kind) :
    tree'.enclosing id sort = List.map (renameEntry f) <$> tree.enclosing id sort := by
  rw [Tree.enclosing, Tree.enclosing, h.lineage]
  cases tree.lineage id with
  | error halt => rfl
  | ok ancestors => simp [List.filter_map, Function.comp_def, renameEntry, hsort]

theorem visit (bound : Nat) (stack : List NodeId) :
    tree'.visit bound stack = List.map (renameEntry f) <$> tree.visit bound stack := by
  induction bound generalizing stack with
  | zero => cases stack <;> rfl
  | succ bound ih =>
    cases stack with
    | nil => rfl
    | cons id stack =>
      rw [Tree.visit, Tree.visit, h.kind]
      cases tree.kind id with
      | error halt => rfl
      | ok kind =>
        simp only [map_ok, ok_bind, NodeKind.children_rename, ih]
        cases tree.visit bound (kind.children ++ stack) <;> rfl

theorem subtree (root : NodeId) :
    tree'.subtree root = List.map (renameEntry f) <$> tree.subtree root := by
  rw [Tree.subtree, Tree.subtree, h.size]
  exact h.visit (tree.size + 1) [root]

/-! ## Types -/

theorem instanceType (definition : NodeId) :
    tree'.instanceType definition = tree.instanceType definition := by
  rw [Tree.instanceType, Tree.instanceType, h.kind]
  cases tree.kind definition with
  | error halt => rfl
  | ok kind => cases kind <;> rfl

theorem instanceTypeOf (definition : Option NodeId) :
    tree'.instanceTypeOf definition = tree.instanceTypeOf definition := by
  cases definition with
  | none => rfl
  | some definition => exact h.instanceType definition

theorem constructorType (id : NodeId) : tree'.constructorType id = tree.constructorType id := by
  rw [Tree.constructorType, Tree.constructorType, h.parent]
  cases tree.parent id with
  | error halt => rfl
  | ok parent =>
    cases parent with
    | none => rfl
    | some owner =>
      simp only [ok_bind, h.kind]
      cases tree.kind owner with
      | error halt => rfl
      | ok kind => cases kind <;> rfl

theorem typeParameterType (id : NodeId) :
    tree'.typeParameterType id = tree.typeParameterType id := by
  rw [Tree.typeParameterType, Tree.typeParameterType, h.parent]
  cases tree.parent id with
  | error halt => rfl
  | ok parent =>
    cases parent with
    | none => rfl
    | some owner => exact h.instanceType owner

theorem variableStep (links : Links) (id : NodeId) :
    tree'.variableStep links id = tree.variableStep links id := by
  rw [Tree.variableStep, Tree.variableStep, h.lineage]
  cases tree.lineage id with
  | error halt => rfl
  | ok ancestors =>
    -- Parentheses are skipped alike, so both ways up lead to the same application.
    have hdrop : (ancestors.map (renameEntry f)).dropWhile (·.2.isParens) =
        (ancestors.dropWhile (·.2.isParens)).map (renameEntry f) := by
      simp [List.dropWhile_map, Function.comp_def, renameEntry]
    simp only [map_ok, ok_bind, hdrop]
    cases ancestors.dropWhile (·.2.isParens) with
    | nil => rfl
    | cons entry rest =>
      obtain ⟨application, kind⟩ := entry
      cases kind with
      | expr e =>
        cases e with
        | apply name args =>
          simp only [List.map_cons, renameEntry, NodeKind.rename, Expr.rename]
          cases args.idxOf? id with
          | none => rfl
          | some place =>
            cases links.target application .constructor with
            | none => rfl
            | some constructor =>
              simp only [h.kind]
              cases tree.kind constructor with
              | error halt => rfl
              | ok kind => cases kind <;> rfl
        | _ => rfl
      | _ => rfl

theorem typeStep (links : Links) (id : NodeId) :
    tree'.typeStep links id = tree.typeStep links id := by
  rw [Tree.typeStep, Tree.typeStep, h.kind]
  cases tree.kind id with
  | error halt => rfl
  | ok kind =>
    rw [map_ok, ok_bind, ok_bind]
    -- Only these kinds look at the tree once more.
    cases kind with
    | constructor _ _ =>
      simp only [NodeKind.rename]
      rw [h.constructorType]
    | typeParameter _ =>
      simp only [NodeKind.rename]
      rw [h.typeParameterType]
    | source s =>
      cases s with
      | selfPort _ => rfl
      | definition _ =>
        simp only [NodeKind.rename, InstanceSource.rename]
        rw [h.instanceTypeOf]
    | expr e =>
      cases e with
      | variableDefinition _ => exact h.variableStep links id
      | _ => rfl
    | type t =>
      cases t with
      | apply _ _ =>
        simp only [NodeKind.rename, TypeExpr.rename, typeExprStep]
        rw [h.instanceTypeOf]
      | _ => rfl
    | _ => rfl

theorem inferWithin (links : Links) (bound : Nat) (id : NodeId) :
    tree'.inferWithin links bound id = tree.inferWithin links bound id := by
  induction bound generalizing id with
  | zero => rfl
  | succ bound ih =>
    rw [Tree.inferWithin, Tree.inferWithin, h.typeStep]
    cases tree.typeStep links id with
    | error halt => rfl
    | ok step =>
      cases step with
      | settled ty => rfl
      | sameAs next => exact ih next

/-- No type hangs on a name or a span. -/
theorem infer (links : Links) (id : NodeId) : tree'.infer links id = tree.infer links id := by
  rw [Tree.infer, Tree.infer, h.size]
  exact h.inferWithin links (tree.size + 1) id

/-! ## The index -/

theorem declarations (root : NodeId) : tree'.declarations root = tree.declarations root := by
  rw [Tree.declarations, Tree.declarations, h.subtree]
  cases tree.subtree root with
  | error halt => rfl
  | ok entries => simp [List.filterMap_map, Function.comp_def, renameEntry]

theorem add (documents : Documents) {root : NodeId} (hroot : root ∈ tree.files) :
    documents.add tree' root = documents.add tree root := by
  -- The source of a document is all that the index takes from a span.
  have hsource := h.source hroot
  rw [Documents.add, Documents.add, h.declarations]
  cases hspan : tree.span root with
  | error halt =>
    cases hspan' : tree'.span root with
    | error halt' =>
      rw [hspan, hspan'] at hsource
      cases hsource
      rfl
    | ok span' =>
      rw [hspan, hspan'] at hsource
      cases hsource
  | ok span =>
    cases hspan' : tree'.span root with
    | error halt' =>
      rw [hspan, hspan'] at hsource
      cases hsource
    | ok span' =>
      rw [hspan, hspan', map_ok, map_ok, Except.ok.injEq] at hsource
      simp only [ok_bind, hsource]

theorem ofTree : Documents.ofTree tree' = Documents.ofTree tree := by
  have haddAll : ∀ (roots : List NodeId) (documents : Documents),
      (∀ root ∈ roots, root ∈ tree.files) →
        documents.addAll tree' roots = documents.addAll tree roots := by
    intro roots
    induction roots with
    | nil => exact fun _ _ => rfl
    | cons root roots ih =>
      intro documents hroots
      rw [Documents.addAll, Documents.addAll, List.foldlM_cons, List.foldlM_cons,
        h.add documents (hroots root List.mem_cons_self)]
      cases documents.add tree root with
      | error halt => rfl
      | ok documents =>
        exact ih documents fun other hother => hroots other (List.mem_cons_of_mem root hother)
  rw [Documents.ofTree, Documents.ofTree, h.files]
  exact haddAll tree.files ∅ fun _ hroot => hroot

end Tree.Corresponds

/-! ## Scopes -/

/-- Lists of lists that go together are still together when they are joined. -/
theorem mapM_flatten_comm {α α' β γ : Type} {f : α → Result (List β)} {f' : α' → Result (List γ)}
    {g : β → γ} {h : α → α'} {xs : List α} (hstep : ∀ x ∈ xs, f' (h x) = List.map g <$> f x) :
    (do return (← (xs.map h).mapM f').flatten) =
      List.map g <$> (do return (← xs.mapM f).flatten : Result (List β)) := by
  rw [mapM_comm hstep]
  cases xs.mapM f with
  | error halt => rfl
  | ok lists => simp [List.map_flatten]

namespace Workspace

/-- `ws'` is `ws` by other names and with other spans. -/
structure Corresponds (f : String → String) (ws ws' : Workspace) : Prop where
  tree : ws.tree.Corresponds f ws'.tree
  index : ws'.index = ws.index
  naming (declaration : NodeId) (name : String) :
    ws'.naming declaration (f name) = (ws.naming declaration name).rename f

namespace Corresponds

variable {f : String → String} {ws ws' : Workspace} (h : ws.Corresponds f ws')
include h

theorem candidate (declaration : NodeId) :
    ws'.candidate declaration = Candidate.rename f <$> ws.candidate declaration := by
  rw [Workspace.candidate, Workspace.candidate, h.tree.kind]
  cases ws.tree.kind declaration with
  | error halt => rfl
  | ok kind =>
    simp only [map_ok, ok_bind, NodeKind.name?_rename]
    cases kind.name? with
    | none => rfl
    | some name => simp [h.naming]

theorem candidates (declarations : List NodeId) :
    ws'.candidates declarations = List.map (Candidate.rename f) <$> ws.candidates declarations := by
  rw [Workspace.candidates, Workspace.candidates]
  conv_lhs => rw [← List.map_id declarations]
  exact mapM_comm fun declaration _ => h.candidate declaration

theorem globals (kind : DeclKind) :
    ws'.globals kind = List.map (Candidate.rename f) <$> ws.globals kind := by
  rw [Workspace.globals, Workspace.globals, h.index]
  exact h.candidates (ws.index.declarations kind)

theorem constructors :
    ws'.constructors = List.map (Candidate.rename f) <$> ws.constructors := by
  rw [Workspace.constructors, Workspace.constructors, h.index]
  conv_lhs => rw [← List.map_id ws.index.dataTypes]
  refine mapM_flatten_comm ?_
  intro dataType _
  simp only [id_eq, h.tree.kind]
  cases ws.tree.kind dataType with
  | error halt => rfl
  | ok kind =>
    cases kind with
    | dataType _ _ constructors => exact h.candidates constructors
    | _ => rfl

theorem typeParameters (id : NodeId) :
    ws'.typeParameters id = List.map (Candidate.rename f) <$> ws.typeParameters id := by
  rw [Workspace.typeParameters, Workspace.typeParameters,
    h.tree.nearest id (NodeKind.isGeneric_rename f)]
  cases ws.tree.nearest id NodeKind.isGeneric with
  | error halt => rfl
  | ok found =>
    cases found with
    | none => rfl
    | some entry =>
      obtain ⟨owner, kind⟩ := entry
      cases kind with
      | dataType _ params _ => exact h.candidates params
      | nodeType _ params _ _ _ => exact h.candidates params
      | _ => rfl

theorem ports (nodeType : NodeId) :
    ws'.ports nodeType = List.map (Candidate.rename f) <$> ws.ports nodeType := by
  rw [Workspace.ports, Workspace.ports, h.tree.kind]
  cases ws.tree.kind nodeType with
  | error halt => rfl
  | ok kind =>
    cases kind with
    | nodeType _ _ ports _ _ => exact h.candidates ports
    | _ => rfl

theorem ownPorts (id : NodeId) :
    ws'.ownPorts id = List.map (Candidate.rename f) <$> ws.ownPorts id := by
  rw [Workspace.ownPorts, Workspace.ownPorts, h.tree.nearest id (NodeKind.isNodeType_rename f)]
  cases ws.tree.nearest id NodeKind.isNodeType with
  | error halt => rfl
  | ok found =>
    cases found with
    | none => rfl
    | some entry => exact h.ports entry.1

theorem instances (id : NodeId) :
    ws'.instances id = List.map (Candidate.rename f) <$> ws.instances id := by
  rw [Workspace.instances, Workspace.instances, h.tree.enclosing id (NodeKind.isBody_rename f)]
  cases ws.tree.enclosing id NodeKind.isBody with
  | error halt => rfl
  | ok bodies =>
    cases bodies with
    | nil => rfl
    | cons first rest =>
      refine mapM_flatten_comm ?_
      rintro ⟨other, kind⟩ _
      cases kind with
      | body instances _ _ => exact h.candidates instances
      | _ => rfl

theorem matchVariables (id : NodeId) :
    ws'.matchVariables id = List.map (Candidate.rename f) <$> ws.matchVariables id := by
  rw [Workspace.matchVariables, Workspace.matchVariables,
    h.tree.enclosing id (NodeKind.isMatchCase_rename f)]
  cases ws.tree.enclosing id NodeKind.isMatchCase with
  | error halt => rfl
  | ok cases =>
    refine mapM_flatten_comm ?_
    rintro ⟨other, kind⟩ _
    cases kind with
    | matchCase pattern _ =>
      simp only [renameEntry, NodeKind.rename, h.tree.subtree]
      cases ws.tree.subtree pattern with
      | error halt => rfl
      | ok entries =>
        have hbound : ((entries.map (renameEntry f)).filter (·.2.isVariableDefinition)).map (·.1) =
            (entries.filter (·.2.isVariableDefinition)).map (·.1) := by
          simp [List.filter_map, Function.comp_def, renameEntry]
        simp only [map_ok, ok_bind, hbound]
        exact h.candidates _
    | _ => rfl

theorem portOwner (links : Links) (id : NodeId) :
    ws'.portOwner links id = ws.portOwner links id := by
  unfold Workspace.portOwner
  cases links.target id .instanceRef with
  | none => rfl
  | some inst =>
    simp only [h.tree.kind]
    cases ws.tree.kind inst with
    | error halt => rfl
    | ok kind =>
      cases kind with
      | instanceDecl _ source =>
        simp only [map_ok, ok_bind, NodeKind.rename]
        cases ws.tree.kind source with
        | error halt => rfl
        | ok kind =>
          cases kind with
          | source s => cases s <;> rfl
          | _ => rfl
      | _ => rfl

theorem instancePorts (links : Links) (id : NodeId) :
    ws'.instancePorts links id = List.map (Candidate.rename f) <$> ws.instancePorts links id := by
  rw [Workspace.instancePorts, Workspace.instancePorts, h.portOwner]
  cases ws.portOwner links id with
  | error halt => rfl
  | ok owner =>
    cases owner with
    | unknown => rfl
    | definition nodeType => exact h.ports nodeType
    | typeOf port =>
      simp only [ok_bind, h.tree.infer]
      cases ws.tree.infer links port with
      | error halt => rfl
      | ok ty =>
        cases ty with
        | nodeType nodeType => exact h.ports nodeType
        | _ => rfl

/-- The same declarations are visible, by their other names. -/
theorem scope (links : Links) (site : Site) :
    ws'.scope links site = List.map (Candidate.rename f) <$> ws.scope links site := by
  rw [Workspace.scope, Workspace.scope, h.tree.kind]
  cases ws.tree.kind site.node with
  | error halt => rfl
  | ok kind =>
    simp only [map_ok, ok_bind, NodeKind.hasSlot_rename]
    split
    · cases site.slot with
      | typeParameter => exact h.typeParameters site.node
      | dataType =>
        simp only [h.globals]
        cases ws.globals .dataType with
        | error halt => rfl
        | ok dataTypes =>
          cases ws.globals .nodeType with
          | error halt => rfl
          | ok nodeTypes => simp
      | iface | nodeDef => exact h.globals .nodeType
      | sourcePort | selfPort => exact h.ownPorts site.node
      | instanceRef => exact h.instances site.node
      | nodePort => exact h.instancePorts links site.node
      | constructor => exact h.constructors
      | matchVariable => exact h.matchVariables site.node
    · rfl

end Corresponds

end Workspace

end Dataflow
