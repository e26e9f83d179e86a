import Mathlib.Order.WellFoundedSet
import Dataflow.Proofs.Safety

/-!
# Dataflow.Proofs.Circles

When inference comes to no end.  In a tree of any shape it does exactly if the
chain of nodes runs into a circle (`IsForest.neverEnds_iff`).  A circle that is
there at some point of linking stays, because no reference is bound a second
time (`Workspace.Stage.keeps`), and it passes through a document, because only
what is bound in a document leads upwards in the tree
(`IsForest.exists_inDocument_of_inCircle`).  So linking the documents and all
inference in them afterwards come to an end exactly if there is no circle at any
point of linking (`Tree.answers_iff_no_circle`).
-/

namespace Dataflow

/-- What is bound in one table is bound to the same in the other. -/
def Links.Keeps (after before : Links) : Prop :=
  ∀ site target, before.get? site = some target → after.get? site = some target

namespace Tree

variable {tree : Tree} {links : Links} {id : NodeId}

/-- A node has its type from itself: its chain comes back to it. -/
def InCircle (tree : Tree) (links : Links) (id : NodeId) : Prop :=
  Relation.TransGen (tree.PassesTo links) id id

/-! ## A chain in a circle has no end -/

theorem EndsIn.exists_of_passesTo (hf : tree.IsForest) {length : Nat} {next : NodeId}
    (h : tree.EndsIn links length id) (hnext : tree.PassesTo links id next) :
    ∃ rest < length, tree.EndsIn links rest next := by
  have hstep := hf.typeStep_eq_sameAs_iff.mpr hnext
  cases h with
  | stop hstop => exact absurd hstep (hstop next)
  | @step rest _ found hfound hends =>
    rw [hstep] at hfound
    cases hfound
    exact ⟨rest, Nat.lt_succ_self rest, hends⟩

/-- Further along a chain there are fewer steps to its end. -/
theorem EndsIn.exists_of_transGen (hf : tree.IsForest) {length : Nat} {next : NodeId}
    (h : tree.EndsIn links length id) (hnext : Relation.TransGen (tree.PassesTo links) id next) :
    ∃ rest < length, tree.EndsIn links rest next := by
  induction hnext with
  | single hstep => exact h.exists_of_passesTo hf hstep
  | tail _ hstep ih =>
    obtain ⟨between, hlt, hbetween⟩ := ih
    obtain ⟨rest, hrest, hends⟩ := hbetween.exists_of_passesTo hf hstep
    exact ⟨rest, Nat.lt_trans hrest hlt, hends⟩

theorem InCircle.not_endsIn (hf : tree.IsForest) (h : tree.InCircle links id) {length : Nat} :
    ¬ tree.EndsIn links length id := by
  intro hends
  obtain ⟨rest, hlt, hrest⟩ := hends.exists_of_transGen hf h
  rw [hrest.unique hends] at hlt
  exact Nat.lt_irrefl length hlt

/-! ## A chain without an end runs into a circle -/

/-- A node comes later in the chain from another one, which is in no circle. -/
def ComesAfter (tree : Tree) (links : Links) (later earlier : NodeId) : Prop :=
  Relation.TransGen (tree.PassesTo links) earlier later ∧ ¬ tree.InCircle links earlier

instance : IsStrictOrder NodeId (tree.ComesAfter links) where
  irrefl _ h := h.2 h.1
  trans _ _ _ h h' := ⟨h'.1.trans h.1, h'.2⟩

namespace IsForest

variable (hf : tree.IsForest) (hlinks : links.Within tree)
include hf hlinks

theorem exists_endsIn_of_not_inCircle (hid : id < tree.size)
    (h : ∀ knot, Relation.ReflTransGen (tree.PassesTo links) id knot →
      ¬ tree.InCircle links knot) : ∃ length, tree.EndsIn links length id := by
  have hwf : {node | node < tree.size}.WellFoundedOn (tree.ComesAfter links) :=
    (Set.finite_lt_nat tree.size).wellFoundedOn
  refine hwf.induction (P := fun node => (∀ knot,
    Relation.ReflTransGen (tree.PassesTo links) node knot → ¬ tree.InCircle links knot) →
      ∃ length, tree.EndsIn links length node) hid ?_ h
  intro node _ ih hnone
  refine hf.exists_endsIn_of_next ?_
  intro next hnext
  refine ih next (hf.lt_size_of_passesTo hlinks hnext) ⟨.single hnext, hnone node .refl⟩ ?_
  intro knot hknot
  exact hnone knot (.head hnext hknot)

theorem faultFree_infer_of_endsIn {length : Nat} (h : tree.EndsIn links length id)
    (hid : id < tree.size) : FaultFree (tree.infer links id) :=
  h.faultFree_infer (fun _ => hf.faultFree_typeStep hlinks)
    (fun _ _ _ hstep => hf.lt_size_of_passesTo hlinks (hf.typeStep_eq_sameAs_iff.mp hstep)) hid

/-- Inference comes to no end exactly if its chain runs into a circle. -/
theorem neverEnds_iff (hid : id < tree.size) :
    tree.NeverEnds links id ↔
      ∃ knot, Relation.ReflTransGen (tree.PassesTo links) id knot ∧ tree.InCircle links knot := by
  constructor
  · intro hnever
    by_contra hnone
    obtain ⟨length, hends⟩ := hf.exists_endsIn_of_not_inCircle hlinks hid
      fun knot hreach hcircle => hnone ⟨knot, hreach, hcircle⟩
    have hfree := hf.faultFree_infer_of_endsIn hlinks hends hid
    exact hfree .endless (hnever (tree.size + 1))
  · rintro ⟨knot, hreach, hcircle⟩ bound
    by_contra hends
    obtain ⟨length, _, hends⟩ := exists_endsIn_of_inferWithin hends
    obtain rfl | hreach := Relation.reflTransGen_iff_eq_or_transGen.mp hreach
    · exact hcircle.not_endsIn hf hends
    · obtain ⟨rest, _, hrest⟩ := hends.exists_of_transGen hf hreach
      exact hcircle.not_endsIn hf hrest

theorem faultFree_or_neverEnds (hid : id < tree.size) :
    FaultFree (tree.infer links id) ∨ tree.NeverEnds links id := by
  by_cases hendless : tree.infer links id = abort .endless
  · exact .inr (neverEnds_of_infer hendless)
  · left
    intro fault hfault
    have hsafe := hf.safe_infer hlinks (fun _ => trivial) hid
    rw [(hsafe.of_abort hfault).1] at hfault
    exact hendless hfault

end IsForest

/-! ## Circles stay, and pass through documents -/

theorem PassesTo.mono {next : NodeId} {links' : Links} (hkeeps : links'.Keeps links)
    (h : tree.PassesTo links id next) : tree.PassesTo links' id next := by
  cases h with
  | child hkind hchild => exact .child hkind hchild
  | target hkind hslot htarget => exact .target hkind hslot (hkeeps _ _ htarget)
  | argument hkind hparent happlication hplace htarget hconstructor hnext =>
    exact .argument hkind hparent happlication hplace (hkeeps _ _ htarget) hconstructor hnext

theorem InCircle.mono {links' : Links} (hkeeps : links'.Keeps links)
    (h : tree.InCircle links id) : tree.InCircle links' id :=
  Relation.TransGen.mono (fun _ _ => PassesTo.mono hkeeps) id id h

theorem lt_size_of_inCircle (hf : tree.IsForest) (h : tree.InCircle links id) :
    id < tree.size := by
  obtain ⟨next, hnext, _⟩ := Relation.TransGen.head'_iff.mp h
  exact lt_size_of_typeStep (hf.typeStep_eq_sameAs_iff.mpr hnext)

namespace IsForest

variable (hf : tree.IsForest) (hsites : ∀ site target, links.get? site = some target →
  tree.InDocument site.node)
include hf hsites

/-- Outside of the documents a chain goes down. -/
theorem inDocument_or_lt_of_passesTo {next : NodeId} (h : tree.PassesTo links id next) :
    tree.InDocument id ∨ next < id := by
  cases h with
  | child hkind hchild =>
    exact .inr (hf.child_lt hkind (NodeKind.mem_children_of_typedAs? hchild))
  | target _ _ htarget => exact .inl (hsites _ _ htarget)
  | argument _ hparent _ _ htarget =>
    exact .inl ((hsites _ _ htarget).of_under (.head hparent (.refl _)))

theorem exists_inDocument_or_lt {next : NodeId}
    (h : Relation.TransGen (tree.PassesTo links) id next) :
    (∃ node, Relation.ReflTransGen (tree.PassesTo links) id node ∧
      Relation.TransGen (tree.PassesTo links) node next ∧ tree.InDocument node) ∨ next < id := by
  induction h with
  | single hstep =>
    obtain hdocument | hlt := hf.inDocument_or_lt_of_passesTo hsites hstep
    · exact .inl ⟨id, .refl, .single hstep, hdocument⟩
    · exact .inr hlt
  | @tail between _ hreach hstep ih =>
    obtain ⟨node, hnode, hnext, hdocument⟩ | hlt := ih
    · exact .inl ⟨node, hnode, hnext.tail hstep, hdocument⟩
    · obtain hdocument | hlt' := hf.inDocument_or_lt_of_passesTo hsites hstep
      · exact .inl ⟨between, hreach.to_reflTransGen, .single hstep, hdocument⟩
      · exact .inr (Nat.lt_trans hlt' hlt)

theorem exists_inDocument_of_inCircle (h : tree.InCircle links id) :
    ∃ node, tree.InDocument node ∧ tree.InCircle links node := by
  obtain ⟨node, hnode, hback, hdocument⟩ | hlt := hf.exists_inDocument_or_lt hsites h
  · exact ⟨node, hdocument, hback.trans_left hnode⟩
  · exact absurd hlt (Nat.lt_irrefl id)

end IsForest

end Tree

/-! ## Points of linking -/

namespace Workspace

variable {ws : Workspace} {analysis linked : Analysis} {id : NodeId}

/-- Between a point of linking and its end more references are recorded, and each
only once. -/
theorem Stage.exists_record (hf : ws.tree.IsFinished) (h : ws.Stage analysis)
    (hlinked : ws.linkAll ws.tree.files ∅ = .ok linked) :
    ∃ earlier later, analysis = (∅ : Analysis).record earlier ∧
      linked = (∅ : Analysis).record (earlier ++ later) ∧
      (earlier ++ later).map (·.1) = ws.tree.files.flatMap ws.tree.linkOrder := by
  cases h with
  | @linked before after _ hfiles hbefore =>
    rw [hfiles, linkAll_append, hbefore, ok_bind] at hlinked
    obtain ⟨earlier, rfl, horder, _⟩ := exists_of_linkAll hf.toIsForest hbefore
    obtain ⟨later, rfl, horder', _⟩ := exists_of_linkAll hf.toIsForest hlinked
    refine ⟨earlier, later, rfl, ((∅ : Analysis).record_append earlier later).symm, ?_⟩
    rw [List.map_append, horder, horder', hfiles, List.flatMap_append]
  | @between before after root first ports start _ hfiles hbefore hlots hfirst =>
    have hroot : root ∈ ws.tree.files := by simp [hfiles]
    rw [lots_file hf hroot] at hlots
    cases hlots
    rw [hfiles, linkAll_append, hbefore, ok_bind, linkAll, List.foldlM_cons,
      link_file hf hroot, hfirst, ok_bind] at hlinked
    obtain ⟨next, hports, hlinked⟩ := bind_eq_ok_iff.mp hlinked
    obtain ⟨earlier, rfl, horder, _⟩ := exists_of_linkAll hf.toIsForest hbefore
    obtain ⟨found, hfound, rfl⟩ := exists_of_bindAll hfirst
    obtain ⟨found', hfound', rfl⟩ := exists_of_bindAll hports
    obtain ⟨later, rfl, horder', _⟩ := exists_of_linkAll hf.toIsForest hlinked
    refine ⟨earlier ++ found, found' ++ later, ?_, ?_, ?_⟩
    · rw [Analysis.record_append]
    · simp only [Analysis.record_append]
    · simp [List.map_append, horder, horder', hfound.order, hfound'.order, hfiles, Tree.linkOrder]

/-- What is bound at some point of linking stays bound to the same. -/
theorem Stage.keeps (hf : ws.tree.IsFinished) (h : ws.Stage analysis)
    (hlinked : ws.linkAll ws.tree.files ∅ = .ok linked) : linked.links.Keeps analysis.links := by
  obtain ⟨earlier, later, rfl, rfl, horder⟩ := h.exists_record hf hlinked
  have hnodup := hf.nodup_sites horder (fun _ hroot => hroot) hf.nodup_files
  intro site target htarget
  obtain hempty | ⟨⟨reference, resolution⟩, hmem, rfl, hresolution⟩ :=
    Links.of_get?_bindAll htarget
  · cases hempty
  · have hget : ((∅ : Links).bindAll (earlier ++ later)).get? reference.site = _ :=
      Links.get?_bindAll_of_mem hnodup (List.mem_append_left later hmem)
    rw [hresolution] at hget
    exact hget

theorem inDocument_of_linkAll (hf : ws.tree.IsFinished)
    (hlinked : ws.linkAll ws.tree.files ∅ = .ok linked) (site : Site) (target : NodeId)
    (htarget : linked.links.get? site = some target) : ws.tree.InDocument site.node := by
  obtain ⟨resolved, rfl, horder, _⟩ := exists_of_linkAll hf.toIsForest hlinked
  obtain hempty | ⟨entry, hmem, rfl, _⟩ := Links.of_get?_bindAll htarget
  · cases hempty
  · have href : entry.1 ∈ ws.tree.files.flatMap ws.tree.linkOrder :=
      horder ▸ List.mem_map_of_mem hmem
    exact (hf.mem_flatMap_linkOrder (fun _ hroot => hroot) href).1.1

/-- At some point of linking some node has its type from itself. -/
def HasCircle (ws : Workspace) : Prop :=
  ∃ analysis id, ws.Stage analysis ∧ ws.tree.InCircle analysis.links id

theorem IsPlain.loops_iff_hasCircle (hp : ws.IsPlain) : ws.Loops ↔ ws.HasCircle := by
  constructor
  · rintro ⟨analysis, id, hstage, hid, hnever⟩
    obtain ⟨knot, _, hcircle⟩ :=
      (hp.finished.neverEnds_iff (hp.within_of_stage hstage) hid).mp hnever
    exact ⟨analysis, knot, hstage, hcircle⟩
  · rintro ⟨analysis, id, hstage, hcircle⟩
    have hid := Tree.lt_size_of_inCircle hp.finished.toIsForest hcircle
    refine ⟨analysis, id, hstage, hid, ?_⟩
    exact (hp.finished.neverEnds_iff (hp.within_of_stage hstage) hid).mpr ⟨id, .refl, hcircle⟩

/-- A circle is still there when all documents are linked, in one of them. -/
theorem HasCircle.exists_inDocument (hf : ws.tree.IsFinished) (h : ws.HasCircle)
    (hlinked : ws.linkAll ws.tree.files ∅ = .ok linked) :
    ∃ id, ws.tree.InDocument id ∧ ws.tree.InCircle linked.links id := by
  obtain ⟨analysis, id, hstage, hcircle⟩ := h
  exact hf.exists_inDocument_of_inCircle (inDocument_of_linkAll hf hlinked)
    (hcircle.mono (hstage.keeps hf hlinked))

namespace IsRegular

variable (hr : ws.IsRegular)
include hr

/-- In a grammatical tree the table is supported at every point of linking. -/
theorem supports_of_stage (h : ws.Stage analysis) : ws.Supports analysis.links := by
  cases h with
  | @linked before after _ hfiles hlinked =>
    have hroots : ∀ root ∈ [] ++ before, root ∈ ws.tree.files := by
      simp_all
    have hnodup : ([] ++ before).Nodup :=
      hr.wellShaped.nodup_files.sublist (by simp [hfiles])
    obtain ⟨added, hadded, hlinked'⟩ := Linked.exists_linkAll hr ws.linked_nil hroots hnodup
    rw [hlinked] at hadded
    cases hadded
    exact hlinked'.supports
  | @between before after root first ports linked _ hfiles hlinked hlots hfirst =>
    obtain ⟨earlier, resolved, _, hearlier, _, hbinds, _⟩ := hr.exists_stage hfiles
    rw [lots_file hr.wellShaped.toIsFinished (by simp [hfiles])] at hlots
    cases hlots
    rw [hlinked] at hearlier
    cases hearlier
    rw [hbinds.bindAll] at hfirst
    cases hfirst
    exact hbinds.supports

theorem not_hasCircle : ¬ ws.HasCircle := by
  rintro ⟨analysis, id, hstage, hcircle⟩
  obtain ⟨length, hends⟩ := (hr.supports_of_stage hstage).exists_endsIn hr.wellShaped id
  exact hcircle.not_endsIn hr.wellShaped.toIsForest hends

end IsRegular

end Workspace

namespace Tree

variable {tree : Tree}

/-- Whatever the shape of a tree, linking its documents and then inferring the
type of each of their nodes comes to an end exactly if no node has its type from
itself at any point of linking.  A circle is all that can keep linking, a check
or a single inference from an answer, and grammatical trees have none. -/
theorem answers_iff_no_circle {source : SourceId} {steps : List BuildStep}
    (hbuild : Tree.build source steps = .ok tree) :
    ∃ index, tree.workspace = .ok { tree, index } ∧
      ((∃ linked, Workspace.linkAll { tree, index } tree.files ∅ = .ok linked ∧
          ∀ id, tree.InDocument id → FaultFree (tree.infer linked.links id)) ↔
        ¬ Workspace.HasCircle { tree, index }) ∧
      ((∃ linked, Workspace.linkAll { tree, index } tree.files ∅ = .ok linked) ∨
        Workspace.linkAll { tree, index } tree.files ∅ = abort .endless ∧
          Workspace.HasCircle { tree, index }) ∧
      (∀ checks, (∃ analysis, tree.check checks = .ok analysis) ∨
        tree.check checks = abort .endless ∧ Workspace.HasCircle { tree, index }) ∧
      (tree.isGrammatical = true → ¬ Workspace.HasCircle { tree, index }) ∧
      ∀ analysis, Workspace.Stage { tree, index } analysis → ∀ id < tree.size,
        (FaultFree (tree.infer analysis.links id) ∨ tree.NeverEnds analysis.links id) ∧
        (tree.NeverEnds analysis.links id ↔
          ∃ knot, Relation.ReflTransGen (tree.PassesTo analysis.links) id knot ∧
            tree.InCircle analysis.links knot) := by
  have hf := isFinished_of_build hbuild
  obtain ⟨index, hworkspace, hsound⟩ := hf.exists_workspace
  have hp : Workspace.IsPlain { tree, index } := ⟨hf, hsound.hasBoundedIndex hf, rfl⟩
  have hfiles : tree.files = tree.files ++ [] := (List.append_nil _).symm
  have hlinking : (∃ linked, Workspace.linkAll { tree, index } tree.files ∅ = .ok linked) ∨
      Workspace.linkAll { tree, index } tree.files ∅ = abort .endless ∧
        Workspace.HasCircle { tree, index } := by
    rw [← hp.loops_iff_hasCircle]
    refine (hp.safe_linkAll hfiles).answers_or.imp_left ?_
    rintro ⟨linked, hlinked, _⟩
    exact ⟨linked, hlinked⟩
  refine ⟨index, hworkspace, ⟨?_, ?_⟩, hlinking, ?_, ?_, ?_⟩
  · rintro ⟨linked, hlinked, hfree⟩ hcircle
    obtain ⟨id, hid, hcircle⟩ := hcircle.exists_inDocument hf hlinked
    have hwithin := hp.within_of_stage (.linked hfiles hlinked)
    have hnever := (hf.neverEnds_iff hwithin (hf.lt_size_of_inDocument hid)).mpr
      ⟨id, .refl, hcircle⟩
    exact hfree id hid .endless (hnever (tree.size + 1))
  · intro hnone
    obtain ⟨linked, hlinked⟩ := hlinking.resolve_right fun hloops => hnone hloops.2
    refine ⟨linked, hlinked, ?_⟩
    intro id hid
    have hlt := hf.lt_size_of_inDocument hid
    have hstage : Workspace.Stage { tree, index } linked := .linked hfiles hlinked
    refine (hf.faultFree_or_neverEnds (hp.within_of_stage hstage) hlt).resolve_right ?_
    intro hnever
    exact hnone (hp.loops_iff_hasCircle.mp (hstage.loops id hlt hnever))
  · intro checks
    rw [← hp.loops_iff_hasCircle, check, hworkspace, ok_bind]
    refine (hp.safe_check checks).answers_or.imp_left ?_
    rintro ⟨analysis, hanalysis, _⟩
    exact ⟨analysis, hanalysis⟩
  · intro hgrammar
    have hr : Workspace.IsRegular { tree, index } :=
      ⟨wellShaped_of_build hbuild hgrammar, hp.boundedIndex, rfl⟩
    exact hr.not_hasCircle
  · intro analysis hstage id hid
    have hwithin := hp.within_of_stage hstage
    exact ⟨hf.faultFree_or_neverEnds hwithin hid, hf.neverEnds_iff hwithin hid⟩

/-- The type of the port `p` is `self.q`, which is no type expression, and that
of `q` is `Int`. -/
def typedByPort : List BuildStep := [
  .node (.expr (.selfPort "q")),
  .node (.port "p" .input 0),
  .node (.type .integer),
  .node (.port "q" .input 2),
  .node (.nodeType "N" [] [1, 3] none none),
  .node (.file [4])]

/-- The type of the port `p` is `self.p`, and an instance re-exposes the port. -/
def knottedInstance : List BuildStep := [
  .node (.expr (.selfPort "p")),
  .node (.port "p" .input 0),
  .node (.source (.selfPort "p")),
  .node (.instanceDecl "a" 2),
  .node (.expr (.nodePort "a" "x")),
  .node (.expr (.string "y")),
  .node (.link 4 5),
  .node (.body [3] [6] []),
  .node (.nodeType "Knot" [] [1] none (some 7)),
  .node (.file [8])]

theorem answers_iff_no_circle_typedByPort :
    (∃ tree index linked, Tree.build 1 typedByPort = .ok tree ∧
      tree.workspace = .ok { tree, index } ∧
      Workspace.linkAll { tree, index } tree.files ∅ = .ok linked ∧
      tree.infer linked.links 1 = .ok (.primitive .integer) ∧ tree.isGrammatical = false ∧
      ¬ Workspace.HasCircle { tree, index } ∧
      ∀ checks, ∃ analysis, tree.check checks = .ok analysis) ∧
    ∃ tree index, Tree.build 1 knottedInstance = .ok tree ∧
      tree.workspace = .ok { tree, index } ∧
      Workspace.linkAll { tree, index } tree.files ∅ = abort .endless ∧
      Workspace.HasCircle { tree, index } := by
  constructor
  · obtain ⟨tree, hbuild⟩ : ∃ tree, Tree.build 1 typedByPort = .ok tree := ⟨_, rfl⟩
    obtain ⟨index, hworkspace, hiff, _, hcheck, _⟩ := answers_iff_no_circle hbuild
    obtain ⟨linked, hlinked⟩ :
        ∃ linked, Workspace.linkAll { tree, index } tree.files ∅ = .ok linked := by
      cases hbuild
      cases hworkspace
      exact ⟨_, rfl⟩
    have hok : ∀ id < tree.size, (tree.infer linked.links id).isOk = true := by
      cases hbuild
      cases hworkspace
      cases hlinked
      decide +kernel
    have hf := isFinished_of_build hbuild
    have hfree : ∀ id, tree.InDocument id → FaultFree (tree.infer linked.links id) := by
      intro id hid fault hfault
      have hisOk := hok id (hf.lt_size_of_inDocument hid)
      rw [hfault] at hisOk
      cases hisOk
    have hnone := hiff.mp ⟨linked, hlinked, hfree⟩
    refine ⟨tree, index, linked, hbuild, hworkspace, hlinked, ?_, ?_, hnone, ?_⟩
    · cases hbuild
      cases hworkspace
      cases hlinked
      rfl
    · cases hbuild
      decide +kernel
    · intro checks
      exact (hcheck checks).resolve_right fun hcircle => hnone hcircle.2
  · obtain ⟨tree, hbuild⟩ : ∃ tree, Tree.build 1 knottedInstance = .ok tree := ⟨_, rfl⟩
    obtain ⟨index, hworkspace, _, hlinking, _⟩ := answers_iff_no_circle hbuild
    refine ⟨tree, index, hbuild, hworkspace, hlinking.resolve_left ?_⟩
    rintro ⟨linked, hlinked⟩
    cases hbuild
    cases hworkspace
    cases hlinked

/-- The port whose type is `self.p` is bound, and then it has no end to find its
type or to check it. -/
theorem selfTyped_never_answers :
    ∃ tree index linked, Tree.build 1 selfTypedSteps = .ok tree ∧
      tree.workspace = .ok { tree, index } ∧
      Workspace.linkAll { tree, index } tree.files ∅ = .ok linked ∧
      linked.links.toList = [(⟨0, .selfPort⟩, 1)] ∧ tree.InDocument 0 ∧
      (∀ bound, tree.inferWithin linked.links bound 0 = abort .endless) ∧
      tree.check {} = abort .endless := by
  obtain ⟨tree, hbuild⟩ : ∃ tree, Tree.build 1 selfTypedSteps = .ok tree := ⟨_, rfl⟩
  have hf := isFinished_of_build hbuild
  obtain ⟨index, hworkspace, _⟩ := hf.exists_workspace
  obtain ⟨linked, hlinked⟩ :
      ∃ linked, Workspace.linkAll { tree, index } tree.files ∅ = .ok linked := by
    cases hbuild
    cases hworkspace
    exact ⟨_, rfl⟩
  have hnode : tree.DocumentNode 0 (.expr (.selfPort "p")) := by
    cases hbuild
    exact ⟨3, by decide, _, rfl, by decide⟩
  refine ⟨tree, index, linked, hbuild, hworkspace, hlinked, ?_, (hf.documentNode_iff.mp hnode).1,
    neverEnds_of_infer ?_, ?_⟩
  · cases hbuild
    cases hworkspace
    cases hlinked
    rfl
  · cases hbuild
    cases hworkspace
    cases hlinked
    rfl
  · cases hbuild
    rfl

end Tree

end Dataflow
