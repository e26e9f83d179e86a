import Dataflow.Proofs.Walk
import Dataflow.Tree.Grammar

/-!
# Dataflow.Proofs.Grammar

What stands around a node of a document.  In a tree that was built and is
grammatical (`Tree.WellShaped`) every node of a document is the root of the
document or fits the place that its parent has for it, so its category says
what its parent can be (`WellShaped.place`).  Going up from parent to parent,
a type expression comes to a definition, and an expression to a body and to a
node type.
-/

namespace Dataflow

namespace NodeKind

variable {kind : NodeKind} {id : NodeId}

/-! ## Which places a kind has -/

theorem mem_children_of_mem_places {category : Category} (h : (id, category) ∈ kind.places) :
    id ∈ kind.children := by
  rw [← map_fst_places]
  exact List.mem_map_of_mem h

theorem exists_mem_places (h : id ∈ kind.children) : ∃ category, (id, category) ∈ kind.places := by
  rw [← map_fst_places] at h
  obtain ⟨⟨found, category⟩, hmem, rfl⟩ := List.mem_map.mp h
  exact ⟨category, hmem⟩

/-- The type parameters of a definition. -/
def params : NodeKind → List NodeId
  | dataType _ params _ | nodeType _ params _ _ _ => params
  | _ => []

/-- The constructors of a data type. -/
def constructors : NodeKind → List NodeId
  | dataType _ _ constructors => constructors
  | _ => []

/-- The ports of a node type. -/
def ports : NodeKind → List NodeId
  | nodeType _ _ ports _ _ => ports
  | _ => []

/-- The instances of a body. -/
def instances : NodeKind → List NodeId
  | body instances _ _ => instances
  | _ => []

theorem mem_places_of_mem_params (h : id ∈ kind.params) : (id, .typeParameter) ∈ kind.places := by
  cases kind <;> simp_all [params, places]

theorem mem_places_of_mem_constructors (h : id ∈ kind.constructors) :
    (id, .constructor) ∈ kind.places := by
  cases kind <;> simp_all [constructors, places]

theorem mem_places_of_mem_ports (h : id ∈ kind.ports) : (id, .port) ∈ kind.places := by
  cases kind <;> simp_all [ports, places]

theorem mem_places_of_mem_instances (h : id ∈ kind.instances) :
    (id, .instanceDecl) ∈ kind.places := by
  cases kind <;> simp_all [instances, places]

/-! ## Which kinds have a place of a category -/

theorem isGeneric_of_mem_places (h : (id, .typeParameter) ∈ kind.places) :
    kind.isGeneric = true := by
  cases kind <;> simp_all [places, isGeneric]

theorem exists_dataType_of_mem_places (h : (id, .constructor) ∈ kind.places) :
    ∃ name params constructors, kind = .dataType name params constructors := by
  cases kind <;> simp_all [places]

end NodeKind

/-! ## Which categories stand inside of what -/

namespace Category

/-- Whether nodes of a category stand somewhere below a definition. -/
def isInDefinition : Category → Bool
  | typeParameter | constructor | port | type => true
  | _ => false

/-- Whether nodes of a category stand somewhere below a body. -/
def isInBody : Category → Bool
  | instanceDecl | source | link | matching | matchCase | expr => true
  | _ => false

/-- Whether nodes of a category stand somewhere below a node type. -/
def isInNodeType : Category → Bool
  | port | body => true
  | category => category.isInBody

end Category

namespace NodeKind

variable {kind : NodeKind} {id : NodeId} {category : Category}

theorem isGeneric_or_isInDefinition (h : (id, category) ∈ kind.places)
    (hin : category.isInDefinition = true) :
    kind.isGeneric = true ∨ kind.category.isInDefinition = true := by
  cases kind <;> grind [places, isGeneric, NodeKind.category, Category.isInDefinition]

theorem isBody_or_isInBody (h : (id, category) ∈ kind.places) (hin : category.isInBody = true) :
    kind.isBody = true ∨ kind.category.isInBody = true := by
  cases kind <;> grind [places, isBody, NodeKind.category, Category.isInBody]

theorem isNodeType_or_isInNodeType (h : (id, category) ∈ kind.places)
    (hin : category.isInNodeType = true) :
    kind.isNodeType = true ∨ kind.category.isInNodeType = true := by
  cases kind <;>
    grind [places, isNodeType, NodeKind.category, Category.isInBody, Category.isInNodeType]

end NodeKind

namespace Tree

variable {tree : Tree}

/-! ## Documents -/

/-- A node is part of a document. -/
def InDocument (tree : Tree) (id : NodeId) : Prop := ∃ root ∈ tree.files, tree.Under id root

/-- A node that a walk through a document comes to, with its kind. -/
def DocumentNode (tree : Tree) (id : NodeId) (kind : NodeKind) : Prop :=
  ∃ root ∈ tree.files, ∃ entries, tree.subtree root = .ok entries ∧ (id, kind) ∈ entries

theorem InDocument.of_under {id other : NodeId} (hother : tree.InDocument other)
    (h : tree.Under id other) : tree.InDocument id := by
  obtain ⟨root, hroot, hunder⟩ := hother
  exact ⟨root, hroot, h.trans hunder⟩

namespace IsFinished

variable (hf : tree.IsFinished)
include hf

theorem file_lt_size {root : NodeId} (h : root ∈ tree.files) : root < tree.size := by
  obtain ⟨declarations, hkind⟩ := hf.kind_of_file h
  exact lt_size_of_kind hkind

/-- Nothing is above the root of a document. -/
theorem eq_of_file_under {root id : NodeId} (hroot : root ∈ tree.files)
    (h : tree.Under root id) : root = id := by
  obtain heq | ⟨parent, hparent, _⟩ := under_iff_eq_or_inside.mp h
  · exact heq
  · cases parent_inj (hf.parent_of_file hroot) hparent

/-- Whatever a node of a document is under is part of the same document. -/
theorem under_file {root id other : NodeId} (hroot : root ∈ tree.files)
    (hid : tree.Under id root) (h : tree.Under id other) : tree.Under other root := by
  obtain hother | hother := IsForest.under_total h hid
  · exact hother
  · rw [hf.eq_of_file_under hroot hother]

/-- Documents have no node in common. -/
theorem file_eq {first second id : NodeId} (hfirst : first ∈ tree.files)
    (hsecond : second ∈ tree.files) (hid : tree.Under id first) (hid' : tree.Under id second) :
    first = second :=
  hf.eq_of_file_under hfirst (hf.under_file hsecond hid' hid)

theorem inDocument_of_above {id other : NodeId} (hid : tree.InDocument id)
    (h : tree.Under id other) : tree.InDocument other := by
  obtain ⟨root, hroot, hunder⟩ := hid
  exact ⟨root, hroot, hf.under_file hroot hunder h⟩

theorem lt_size_of_inDocument {id : NodeId} (hid : tree.InDocument id) : id < tree.size := by
  obtain ⟨root, hroot, hunder⟩ := hid
  exact hf.lt_size_of_under hunder (hf.file_lt_size hroot)

/-- A node with a child in a document is in it itself. -/
theorem inDocument_of_hasChild {id child : NodeId} {kind : NodeKind}
    (hchild : tree.InDocument child) (hkind : tree.kind id = .ok kind)
    (hmem : child ∈ kind.children) : tree.InDocument id :=
  hf.inDocument_of_above hchild (.head (hf.parent_of_child hkind hmem) (.refl id))

theorem inDocument_of_child {id child : NodeId} {kind : NodeKind} (hid : tree.InDocument id)
    (hkind : tree.kind id = .ok kind) (hmem : child ∈ kind.children) : tree.InDocument child :=
  hid.of_under (hf.under_of_child (.refl id) hkind hmem)

theorem subtree_file {root : NodeId} (hroot : root ∈ tree.files) :
    tree.subtree root = .ok (tree.preorder root) :=
  hf.subtree_eq_preorder (hf.file_lt_size hroot)

/-- The walks through the documents come to the nodes of the documents. -/
theorem documentNode_iff {id : NodeId} {kind : NodeKind} :
    tree.DocumentNode id kind ↔ tree.InDocument id ∧ tree.kind id = .ok kind := by
  constructor
  · intro ⟨root, hroot, entries, hentries, hmem⟩
    rw [hf.subtree_file hroot] at hentries
    cases hentries
    obtain ⟨hunder, hkind⟩ := (hf.mem_preorder_iff (hf.file_lt_size hroot)).mp hmem
    exact ⟨⟨root, hroot, hunder⟩, hkind⟩
  · intro ⟨⟨root, hroot, hunder⟩, hkind⟩
    exact ⟨root, hroot, tree.preorder root, hf.subtree_file hroot,
      (hf.mem_preorder_iff (hf.file_lt_size hroot)).mpr ⟨hunder, hkind⟩⟩

end IsFinished

/-! ## Grammatical trees -/

/-- A finished tree in which every node of a document fits its place. -/
structure WellShaped (tree : Tree) : Prop extends tree.IsFinished where
  fits {id child : NodeId} {kind : NodeKind} {category : Category} : tree.InDocument id →
    tree.kind id = .ok kind → (child, category) ∈ kind.places →
      ∃ found, tree.kind child = .ok found ∧ found.category = category

theorem exists_kind_of_fits {place : NodeId × Category} (h : tree.fits place = true) :
    ∃ found, tree.kind place.1 = .ok found ∧ found.category = place.2 := by
  unfold fits at h
  split at h
  · next node hnode =>
    exact ⟨node.kind, kind_eq_ok_iff.mpr ⟨node, hnode, rfl⟩, of_decide_eq_true h⟩
  · cases h

theorem wellShaped_of_build {source : SourceId} {steps : List BuildStep}
    (hbuild : Tree.build source steps = .ok tree) (hgrammar : tree.isGrammatical = true) :
    tree.WellShaped := by
  have hf := isFinished_of_build hbuild
  refine ⟨hf, ?_⟩
  intro id child kind category ⟨root, hroot, hunder⟩ hkind hplace
  have hdocument := List.all_eq_true.mp hgrammar root hroot
  rw [hf.subtree_file hroot] at hdocument
  have hmem := (hf.mem_preorder_iff (hf.file_lt_size hroot)).mpr ⟨hunder, hkind⟩
  have hplaces := List.all_eq_true.mp hdocument (id, kind) hmem
  exact exists_kind_of_fits (List.all_eq_true.mp hplaces (child, category) hplace)

namespace WellShaped

variable (hw : tree.WellShaped)
include hw

/-- A node of a document is its root or stands in a place for its category,
in another node of the document. -/
theorem place {id : NodeId} {kind : NodeKind} (hid : tree.InDocument id)
    (hkind : tree.kind id = .ok kind) :
    (∃ declarations, kind = .file declarations) ∨
      ∃ parent pkind, tree.parent id = .ok (some parent) ∧ tree.InDocument parent ∧
        tree.kind parent = .ok pkind ∧ (id, kind.category) ∈ pkind.places := by
  obtain ⟨root, hroot, hunder⟩ := hid
  obtain rfl | ⟨parent, hparent, hunder⟩ := under_iff_eq_or_inside.mp hunder
  · obtain ⟨declarations, hfile⟩ := hw.kind_of_file hroot
    exact .inl ⟨declarations, kind_inj hkind hfile⟩
  · right
    obtain ⟨pkind, hpkind, hmem⟩ := hw.child_of_parent hparent
    obtain ⟨category, hplace⟩ := NodeKind.exists_mem_places hmem
    have hdocument : tree.InDocument parent := ⟨root, hroot, hunder⟩
    obtain ⟨found, hfound, rfl⟩ := hw.fits hdocument hpkind hplace
    cases kind_inj hkind hfound
    exact ⟨parent, pkind, hparent, hdocument, hpkind, hplace⟩

/-- To show something of the nodes of the documents, show it of the roots and
of every node that stands in a place of a node that has it. -/
theorem document_induction {motive : NodeId → NodeKind → Prop}
    (file : ∀ id declarations, motive id (.file declarations))
    (place : ∀ id kind parent pkind, tree.kind id = .ok kind →
      tree.parent id = .ok (some parent) → tree.kind parent = .ok pkind →
      (id, kind.category) ∈ pkind.places → motive parent pkind → motive id kind)
    {id : NodeId} {kind : NodeKind} (hid : tree.InDocument id) (hkind : tree.kind id = .ok kind) :
    motive id kind := by
  refine hw.upward_induction (motive := fun id => ∀ kind, tree.InDocument id →
    tree.kind id = .ok kind → motive id kind) ?_ ?_ (hw.lt_size_of_inDocument hid) kind hid hkind
  · intro id hnone kind hid hkind
    obtain ⟨declarations, rfl⟩ | ⟨parent, _, hparent, _⟩ := hw.place hid hkind
    · exact file id declarations
    · cases parent_inj hnone hparent
  · intro id above habove ih kind hid hkind
    obtain ⟨declarations, rfl⟩ | ⟨parent, pkind, hparent, hpdoc, hpkind, hplace⟩ :=
      hw.place hid hkind
    · exact file id declarations
    · cases parent_inj habove hparent
      exact place id kind above pkind hkind habove hpkind hplace (ih pkind hpdoc hpkind)

/-- If whatever has a place for a category of some class is of a sort or of
that class itself, then nodes of the class stand below a node of the sort. -/
theorem exists_ancestor {inner : Category → Bool} {sort : NodeKind → Bool}
    (hfile : inner .file = false)
    (hplaces : ∀ {kind : NodeKind} {id : NodeId} {category : Category},
      (id, category) ∈ kind.places → inner category = true →
        sort kind = true ∨ inner kind.category = true)
    {id : NodeId} {kind : NodeKind} (hid : tree.InDocument id) (hkind : tree.kind id = .ok kind)
    (hinner : inner kind.category = true) :
    ∃ ancestor akind, tree.Inside id ancestor ∧ tree.kind ancestor = .ok akind ∧
      sort akind = true := by
  refine hw.document_induction (motive := fun id kind => inner kind.category = true →
    ∃ ancestor akind, tree.Inside id ancestor ∧ tree.kind ancestor = .ok akind ∧
      sort akind = true) ?_ ?_ hid hkind hinner
  · intro id declarations hinner
    cases hfile.symm.trans hinner
  · intro id kind parent pkind _ hparent hpkind hplace ih hinner
    obtain hsort | hinner := hplaces hplace hinner
    · exact ⟨parent, pkind, ⟨parent, hparent, .refl parent⟩, hpkind, hsort⟩
    · obtain ⟨ancestor, akind, hinside, hakind, hsort⟩ := ih hinner
      exact ⟨ancestor, akind, ⟨parent, hparent, hinside.under⟩, hakind, hsort⟩

/-- Where an ancestor of a sort stands, a nearest one is found. -/
theorem exists_nearest_of_ancestor {id : NodeId} {sort : NodeKind → Bool}
    (h : ∃ ancestor akind, tree.Inside id ancestor ∧ tree.kind ancestor = .ok akind ∧
      sort akind = true) :
    ∃ ancestor akind, tree.nearest id sort = .ok (some (ancestor, akind)) ∧
      tree.Inside id ancestor ∧ tree.kind ancestor = .ok akind ∧ sort akind = true := by
  obtain ⟨ancestor, akind, hinside, hakind, hsort⟩ := h
  have hlt : id < tree.size := by
    obtain ⟨parent, hparent, _⟩ := hinside
    exact lt_size_of_parent hparent
  obtain ⟨found, hfound⟩ := hw.exists_nearest hlt sort
  cases found with
  | none => exact absurd hfound (hw.nearest_ne_none hinside hakind hsort)
  | some found => exact ⟨found.1, found.2, hfound, hw.of_nearest_eq_some hfound⟩

theorem exists_nearest_generic {id : NodeId} {kind : NodeKind} (hid : tree.InDocument id)
    (hkind : tree.kind id = .ok kind) (hin : kind.category.isInDefinition = true) :
    ∃ ancestor akind, tree.nearest id NodeKind.isGeneric = .ok (some (ancestor, akind)) ∧
      tree.Inside id ancestor ∧ tree.kind ancestor = .ok akind ∧ akind.isGeneric = true :=
  hw.exists_nearest_of_ancestor
    (hw.exists_ancestor rfl NodeKind.isGeneric_or_isInDefinition hid hkind hin)

theorem exists_nearest_nodeType {id : NodeId} {kind : NodeKind} (hid : tree.InDocument id)
    (hkind : tree.kind id = .ok kind) (hin : kind.category.isInNodeType = true) :
    ∃ ancestor akind, tree.nearest id NodeKind.isNodeType = .ok (some (ancestor, akind)) ∧
      tree.Inside id ancestor ∧ tree.kind ancestor = .ok akind ∧ akind.isNodeType = true :=
  hw.exists_nearest_of_ancestor
    (hw.exists_ancestor rfl NodeKind.isNodeType_or_isInNodeType hid hkind hin)

theorem exists_enclosing_body {id : NodeId} {kind : NodeKind} (hid : tree.InDocument id)
    (hkind : tree.kind id = .ok kind) (hin : kind.category.isInBody = true) :
    ∃ entries, tree.enclosing id NodeKind.isBody = .ok entries ∧ entries ≠ [] := by
  obtain ⟨ancestor, akind, hinside, hakind, hsort⟩ :=
    hw.exists_ancestor rfl NodeKind.isBody_or_isInBody hid hkind hin
  obtain ⟨entries, hentries⟩ := hw.exists_enclosing (hw.lt_size_of_inDocument hid) NodeKind.isBody
  refine ⟨entries, hentries, ?_⟩
  exact List.ne_nil_of_mem ((hw.mem_enclosing_iff hentries).mpr ⟨hinside, hakind, hsort⟩)

end WellShaped

end Tree

end Dataflow
