import Mathlib.Data.List.Infix
import Dataflow.Proofs.Binding
import Dataflow.Proofs.Enclosing

/-!
# Dataflow.Proofs.PatternVariables

What a use of a match variable sees, in a tree of any shape: the variables that
the match cases around it bind, case by case from the innermost outwards, and
those of one case in the order of a walk through its pattern
(`Tree.boundBy`).  Other cases bind nothing for it.  In a grammatical tree no
case stands in the pattern of another one, so no variable is listed twice
(`Workspace.matchVariables_nest`).
-/

namespace Dataflow

/-- The match variable that a node of the tree binds, if it binds one. -/
def NodeKind.asVariable (id : NodeId) : NodeKind → Option Candidate
  | .expr (.variableDefinition name) => some ⟨name, id⟩
  | _ => none

theorem NodeKind.variable_cases (kind : NodeKind) :
    (∃ name, kind = .expr (.variableDefinition name)) ∨
      (∀ id, kind.asVariable id = none) ∧ kind.isVariableDefinition = false := by
  unfold asVariable isVariableDefinition
  split <;> simp

theorem NodeKind.asVariable_eq_some_iff {id : NodeId} {kind : NodeKind} {candidate : Candidate} :
    kind.asVariable id = some candidate ↔
      kind = .expr (.variableDefinition candidate.name) ∧ id = candidate.declaration := by
  obtain ⟨name, rfl⟩ | ⟨hnone, hnot⟩ := kind.variable_cases
  · cases candidate
    simp [asVariable]
  · rw [hnone]
    constructor
    · simp
    · rintro ⟨rfl, _⟩
      cases hnot

theorem Scope.FirstMatch.mem {scope : Scope} {name : String} {declaration : NodeId}
    (h : Scope.FirstMatch scope name declaration) : ⟨name, declaration⟩ ∈ scope := by
  obtain ⟨nearer, candidate, farther, rfl, _, rfl, rfl⟩ := h
  exact List.mem_append_right nearer List.mem_cons_self

namespace Tree

/-- A match case binds a variable: the definition stands in its pattern. -/
def Binds (tree : Tree) (owner : NodeId) (name : String) (declaration : NodeId) : Prop :=
  ∃ pattern outcome, tree.kind owner = .ok (.matchCase pattern outcome) ∧
    tree.Under declaration pattern ∧ tree.kind declaration = .ok (.expr (.variableDefinition name))

/-- The match variables that a match case binds, in the order of a walk through
its pattern. -/
def boundBy (tree : Tree) (owner : NodeId) : Scope :=
  match tree.kind owner with
  | .ok (.matchCase pattern _) =>
    (tree.preorder pattern).filterMap fun entry => entry.2.asVariable entry.1
  | _ => []

/-! ## The variables of one case -/

section OneCase

variable {tree : Tree} {owner pattern outcome : NodeId}

theorem boundBy_eq (hkind : tree.kind owner = .ok (.matchCase pattern outcome)) :
    tree.boundBy owner =
      (tree.preorder pattern).filterMap fun entry => entry.2.asVariable entry.1 := by
  rw [boundBy, hkind]

theorem exists_matchCase_of_mem_boundBy {candidate : Candidate}
    (h : candidate ∈ tree.boundBy owner) :
    ∃ pattern outcome, tree.kind owner = .ok (.matchCase pattern outcome) := by
  unfold boundBy at h
  split at h
  · exact ⟨_, _, by assumption⟩
  · cases h

/-- Nodes of a walk that bind a variable, as variables and as nodes. -/
theorem map_declaration_asVariable (entries : List (NodeId × NodeKind)) :
    (entries.filterMap fun entry => entry.2.asVariable entry.1).map (·.declaration) =
      (entries.filter (·.2.isVariableDefinition)).map (·.1) := by
  induction entries with
  | nil => rfl
  | cons entry entries ih =>
    obtain ⟨id, kind⟩ := entry
    obtain ⟨name, rfl⟩ | ⟨hnone, hnot⟩ := kind.variable_cases
    · simpa [NodeKind.asVariable, NodeKind.isVariableDefinition] using ih
    · simpa [hnone, hnot] using ih

namespace IsForest

variable (hf : tree.IsForest)
include hf

theorem mem_boundBy_iff {candidate : Candidate} :
    candidate ∈ tree.boundBy owner ↔ tree.Binds owner candidate.name candidate.declaration := by
  constructor
  · intro h
    obtain ⟨pattern, outcome, hkind⟩ := exists_matchCase_of_mem_boundBy h
    have hpattern : pattern < tree.size := hf.child_lt_size hkind List.mem_cons_self
    rw [boundBy_eq hkind] at h
    obtain ⟨⟨id, kind⟩, hmem, hvariable⟩ := List.mem_filterMap.mp h
    obtain ⟨rfl, rfl⟩ := NodeKind.asVariable_eq_some_iff.mp hvariable
    exact ⟨pattern, outcome, hkind, (hf.mem_preorder_iff hpattern).mp hmem⟩
  · rintro ⟨pattern, outcome, hkind, hbinds⟩
    have hpattern : pattern < tree.size := hf.child_lt_size hkind List.mem_cons_self
    rw [boundBy_eq hkind]
    exact List.mem_filterMap.mpr ⟨_, (hf.mem_preorder_iff hpattern).mpr hbinds, rfl⟩

theorem lookup_boundBy_eq_none_iff {name : String} :
    Scope.lookup (tree.boundBy owner) name = none ↔
      ∀ declaration, ¬ tree.Binds owner name declaration := by
  rw [Scope.lookup_eq_none_iff]
  constructor
  · intro h declaration hbinds
    exact h ⟨name, declaration⟩ (hf.mem_boundBy_iff.mpr hbinds) rfl
  · rintro h candidate hmem rfl
    exact h candidate.declaration (hf.mem_boundBy_iff.mp hmem)

theorem nodup_boundBy : ((tree.boundBy owner).map (·.declaration)).Nodup := by
  unfold boundBy
  split
  · next pattern outcome hkind =>
    have hpattern : pattern < tree.size := hf.child_lt_size hkind List.mem_cons_self
    rw [map_declaration_asVariable]
    exact (hf.nodup_preorder hpattern).sublist (List.filter_sublist.map _)
  · simp

end IsForest

end OneCase

/-! ## Cases in patterns -/

/-- Everything below a node fits its place. -/
def FitsBelow (tree : Tree) (root : NodeId) : Prop :=
  ∀ id kind, tree.Under id root → tree.kind id = .ok kind → ∀ place ∈ kind.places,
    ∃ found, tree.kind place.1 = .ok found ∧ found.category = place.2

variable {tree : Tree}

/-- Below an expression stand expressions only. -/
theorem IsForest.category_eq_expr (hf : tree.IsForest) {root id : NodeId} {kind rkind : NodeKind}
    (hfits : tree.FitsBelow root) (hunder : tree.Under id root)
    (hrkind : tree.kind root = .ok rkind) (hexpr : rkind.category = .expr)
    (hkind : tree.kind id = .ok kind) : kind.category = .expr := by
  induction hunder using Relation.ReflTransGen.head_induction_on generalizing kind with
  | refl =>
    cases kind_inj hkind hrkind
    exact hexpr
  | head hparent habove ih =>
    obtain ⟨pkind, hpkind, hchild⟩ := hf.child_of_parent hparent
    obtain ⟨category, hplace⟩ := NodeKind.exists_mem_places hchild
    obtain ⟨found, hfound, rfl⟩ := hfits _ _ habove hpkind _ hplace
    cases kind_inj hkind hfound
    have hcategory := ih hpkind
    cases pkind <;> cases hcategory
    simp only [NodeKind.places, List.mem_map, Prod.mk.injEq] at hplace
    obtain ⟨_, _, _, hcategory⟩ := hplace
    exact hcategory.symm

/-- Where everything fits its place, two cases one inside of the other bind no
variable in common. -/
theorem IsForest.not_binds_of_inside (hf : tree.IsForest) {inner outer declaration : NodeId}
    {name name' : String} (hfits : tree.FitsBelow outer) (hinside : tree.Inside inner outer)
    (hinner : tree.Binds inner name declaration) : ¬ tree.Binds outer name' declaration := by
  rintro ⟨pattern, outcome, hkind, hunder, _⟩
  obtain ⟨ipattern, ioutcome, hikind, hiunder, _⟩ := hinner
  have hpattern : tree.parent pattern = .ok (some outer) :=
    hf.parent_of_child hkind List.mem_cons_self
  -- The inner case stands below one child of the outer one, and this is its
  -- pattern: the variable stands below both.
  have hin : tree.Under inner pattern := by
    obtain heq | ⟨child, hchild, hparent⟩ := Relation.ReflTransGen.cases_tail hinside.under
    · cases heq
      exact absurd (hf.lt_of_inside hinside) (Nat.lt_irrefl _)
    · have habove := (hiunder.tail (hf.parent_of_child hikind List.mem_cons_self)).trans hchild
      rwa [hf.child_eq_of_under hparent hpattern habove hunder] at hchild
  obtain ⟨pkind, hpkind, hexpr⟩ :=
    hfits outer _ (.refl outer) hkind (pattern, .expr) List.mem_cons_self
  have hbelow : tree.FitsBelow pattern := fun id kind h => hfits id kind (h.tail hpattern)
  cases hf.category_eq_expr hbelow hin hpkind hexpr hikind

/-! ## The variables of the cases around a node -/

theorem Binds.hasSort {owner declaration : NodeId} {name : String}
    (h : tree.Binds owner name declaration) : tree.HasSort NodeKind.isMatchCase owner := by
  obtain ⟨pattern, outcome, hkind, _⟩ := h
  exact ⟨_, hkind, rfl⟩

namespace IsForest

variable (hf : tree.IsForest) {id : NodeId} {owners : List NodeId}
  (hs : tree.Surrounds NodeKind.isMatchCase id owners)
include hf hs

theorem mem_boundBy_around_iff {declaration : NodeId} :
    declaration ∈ (owners.flatMap tree.boundBy).map (·.declaration) ↔
      ∃ owner name, tree.Inside id owner ∧ tree.Binds owner name declaration := by
  simp only [List.mem_map, List.mem_flatMap, hf.mem_boundBy_iff, hs.mem_iff]
  constructor
  · rintro ⟨candidate, ⟨owner, ⟨hinside, _⟩, hbinds⟩, rfl⟩
    exact ⟨owner, candidate.name, hinside, hbinds⟩
  · rintro ⟨owner, name, hinside, hbinds⟩
    exact ⟨⟨name, declaration⟩, ⟨owner, ⟨hinside, hbinds.hasSort⟩, hbinds⟩, rfl⟩

/-- A name means the first variable of that name of the innermost case around a
node that binds one. -/
theorem lookup_boundBy_around_iff {name : String} {target : NodeId} :
    Scope.lookup (owners.flatMap tree.boundBy) name = some target ↔
      ∃ owner, tree.Inside id owner ∧ Scope.FirstMatch (tree.boundBy owner) name target ∧
        ∀ nearer declaration, tree.Inside id nearer → tree.Inside nearer owner →
          ¬ tree.Binds nearer name declaration := by
  rw [Scope.lookup_flatMap_eq_some_iff]
  simp only [hf.lookup_boundBy_eq_none_iff, Scope.lookup_eq_some_iff]
  constructor
  · rintro ⟨before, owner, behind, rfl, hbefore, hfirst⟩
    have howner := (hs.mem_iff.mp (List.mem_append_right before List.mem_cons_self)).1
    refine ⟨owner, howner, hfirst, ?_⟩
    intro nearer declaration hnearer hinside hbinds
    have hmem := (hf.mem_nearer_iff hs).mpr ⟨hnearer, hbinds.hasSort, hinside⟩
    exact hbefore nearer hmem declaration hbinds
  · rintro ⟨owner, howner, hfirst, hnearer⟩
    have hbinds := hf.mem_boundBy_iff.mp hfirst.mem
    obtain ⟨before, behind, rfl⟩ := List.append_of_mem (hs.mem_iff.mpr ⟨howner, hbinds.hasSort⟩)
    refine ⟨before, owner, behind, rfl, ?_, hfirst⟩
    intro nearer hmem declaration
    obtain ⟨hinside, _, hbefore⟩ := (hf.mem_nearer_iff hs).mp hmem
    exact hnearer nearer declaration hinside hbefore

theorem nodup_boundBy_around (hfits : ∀ owner, tree.Inside id owner → tree.FitsBelow owner) :
    ((owners.flatMap tree.boundBy).map (·.declaration)).Nodup := by
  rw [List.map_flatMap, List.nodup_flatMap]
  refine ⟨fun owner _ => hf.nodup_boundBy, hs.pairwise.imp_of_mem ?_⟩
  intro inner outer _ houter hinside declaration hmem hmem'
  obtain ⟨candidate, hcandidate, rfl⟩ := List.mem_map.mp hmem
  obtain ⟨candidate', hcandidate', heq⟩ := List.mem_map.mp hmem'
  have hbinds := hf.mem_boundBy_iff.mp hcandidate
  have hbinds' := hf.mem_boundBy_iff.mp hcandidate'
  rw [heq] at hbinds'
  exact hf.not_binds_of_inside (hfits outer (hs.mem_iff.mp houter).1) hinside hbinds hbinds'

end IsForest

/-- Around a node of a grammatical document everything fits its place. -/
theorem WellShaped.fitsBelow (hw : tree.WellShaped) {id owner : NodeId}
    (hid : tree.InDocument id) (h : tree.Inside id owner) : tree.FitsBelow owner := by
  rintro below kind hunder hkind ⟨child, category⟩ hplace
  have howner := hw.inDocument_of_above hid h.under
  exact hw.fits (howner.of_under hunder) hkind hplace

end Tree

/-! ## The scope of a use -/

namespace Workspace

variable {ws : Workspace}

section Plain

variable (hplain : ws.naming = Naming.plain)
include hplain

/-- The nodes of a walk that bind a variable make a scope. -/
theorem candidates_asVariable {entries : List (NodeId × NodeKind)}
    (h : ∀ entry ∈ entries, ws.tree.kind entry.1 = .ok entry.2) :
    ws.candidates ((entries.filter (·.2.isVariableDefinition)).map (·.1)) =
      .ok (entries.filterMap fun entry => entry.2.asVariable entry.1) := by
  induction entries with
  | nil => rfl
  | cons entry entries ih =>
    obtain ⟨id, kind⟩ := entry
    have hkind : ws.tree.kind id = .ok kind := h (id, kind) List.mem_cons_self
    have hrest := ih fun entry hmem => h entry (List.mem_cons_of_mem _ hmem)
    obtain ⟨name, rfl⟩ | ⟨hnone, hnot⟩ := kind.variable_cases
    · have hhead : ws.candidate id = .ok ⟨name, id⟩ := by
        rw [candidate, hkind, hplain]
        rfl
      rw [List.filter_cons_of_pos rfl, List.map_cons, candidates, List.mapM_cons, hhead, ok_bind,
        ← candidates, hrest]
      rfl
    · simpa [hnone, hnot] using hrest

/-- A node sees the variables of the cases around it, case by case. -/
theorem matchVariables_eq (hf : ws.tree.IsForest) {id : NodeId}
    {entries : List (NodeId × NodeKind)}
    (h : ws.tree.enclosing id NodeKind.isMatchCase = .ok entries) :
    ws.matchVariables id = .ok ((entries.map (·.1)).flatMap ws.tree.boundBy) := by
  unfold matchVariables
  rw [h, ok_bind, bind_eq_ok_iff]
  refine ⟨entries.map fun entry => ws.tree.boundBy entry.1, ?_, ?_⟩
  · rw [mapM_eq_ok_iff, List.forall₂_map_right_iff, List.forall₂_same]
    rintro ⟨owner, kind⟩ hmem
    obtain ⟨_, hkind, hsort⟩ := (hf.mem_enclosing_iff h).mp hmem
    cases kind with
    | matchCase pattern outcome =>
      have hpattern : pattern < ws.tree.size := hf.child_lt_size hkind List.mem_cons_self
      rw [Tree.boundBy_eq hkind]
      simp only [hf.subtree_eq_preorder hpattern, ok_bind]
      refine candidates_asVariable hplain ?_
      rintro ⟨id, kind⟩ hmem
      exact ((hf.mem_preorder_iff hpattern).mp hmem).2
    | _ => cases hsort
  · rw [List.flatMap_map, List.flatMap_def]
    rfl

theorem exists_scope_matchVariable (hf : ws.tree.IsForest) {id : NodeId} {name : String}
    (hkind : ws.tree.kind id = .ok (.expr (.variableUsage name))) :
    ∃ owners, ws.tree.Surrounds NodeKind.isMatchCase id owners ∧
      ∀ links, ws.scope links ⟨id, .matchVariable⟩ = .ok (owners.flatMap ws.tree.boundBy) := by
  obtain ⟨entries, hentries⟩ :=
    hf.exists_enclosing (Tree.lt_size_of_kind hkind) NodeKind.isMatchCase
  refine ⟨entries.map (·.1), hf.surrounds_of_enclosing hentries, ?_⟩
  intro links
  have hslot : (NodeKind.expr (.variableUsage name)).hasSlot .matchVariable = true := rfl
  unfold scope
  simp only [hkind, ok_bind, hslot, if_true]
  exact matchVariables_eq hplain hf hentries

end Plain

/-- A use of a match variable sees what the match cases around it bind, and
nothing else, from the innermost case outwards.  A use that stands in fewer
cases sees the end of this list.  If everything fits its place, no variable is
seen twice. -/
theorem matchVariables_nest {source : SourceId} {steps : List BuildStep}
    (hbuild : Tree.build source steps = .ok ws.tree) (hplain : ws.naming = Naming.plain)
    (links : Links) {id : NodeId} {used : String}
    (hkind : ws.tree.kind id = .ok (.expr (.variableUsage used))) :
    ∃ owners scope, ws.scope links ⟨id, .matchVariable⟩ = .ok scope ∧
      ws.tree.Surrounds NodeKind.isMatchCase id owners ∧
      scope = owners.flatMap ws.tree.boundBy ∧
      (∀ declaration, declaration ∈ scope.map (·.declaration) ↔
        ∃ owner name, ws.tree.Inside id owner ∧ ws.tree.Binds owner name declaration) ∧
      (∀ name target, Scope.lookup scope name = some target ↔
        ∃ owner, ws.tree.Inside id owner ∧
          Scope.FirstMatch (ws.tree.boundBy owner) name target ∧
          ∀ nearer declaration, ws.tree.Inside id nearer → ws.tree.Inside nearer owner →
            ¬ ws.tree.Binds nearer name declaration) ∧
      (∀ other otherUsed, ws.tree.kind other = .ok (.expr (.variableUsage otherUsed)) →
        (∀ owner, ws.tree.Inside other owner → ws.tree.HasSort NodeKind.isMatchCase owner →
          ws.tree.Inside id owner) →
        ∃ outer, ws.scope links ⟨other, .matchVariable⟩ = .ok outer ∧ outer <:+ scope) ∧
      ((ws.tree.isGrammatical = true ∧ ws.tree.InDocument id ∨
          ∀ node kind, ws.tree.kind node = .ok kind → kind.places.all ws.tree.fits = true) →
        (scope.map (·.declaration)).Nodup) := by
  have hf := Tree.isFinished_of_build hbuild
  obtain ⟨owners, hs, hscope⟩ := exists_scope_matchVariable hplain hf.toIsForest hkind
  refine ⟨owners, _, hscope links, hs, rfl, fun _ => hf.mem_boundBy_around_iff hs,
    fun _ _ => hf.lookup_boundBy_around_iff hs, ?_, ?_⟩
  · intro other otherUsed hother houter
    obtain ⟨outer, hs', hscope'⟩ := exists_scope_matchVariable hplain hf.toIsForest hother
    exact ⟨_, hscope' links, (hf.surrounds_suffix hs hs' houter).flatMap ws.tree.boundBy⟩
  · intro hshape
    apply hf.nodup_boundBy_around hs
    intro owner hinside
    obtain ⟨hgrammar, hid⟩ | hall := hshape
    · exact (Tree.wellShaped_of_build hbuild hgrammar).fitsBelow hid hinside
    · intro below kind _ hbelow place hplace
      exact Tree.exists_kind_of_fits (List.all_eq_true.mp (hall below kind hbelow) place hplace)

/-- A match in a case of another match.  Both bind `x`, the outer one binds `y`
as well, and a second case of the inner one binds `z`. -/
def twoMatches : List BuildStep := [
  .node (.expr (.variableDefinition "x")),
  .node (.expr (.variableDefinition "y")),
  .node (.expr (.apply "Mk" [0, 1])),
  .node (.expr (.variableUsage "y")),
  .node (.expr (.variableDefinition "x")),
  .node (.expr (.variableUsage "x")),
  .node (.expr (.selfPort "p")),
  .node (.link 5 6),
  .node (.body [] [7] []),
  .node (.matchCase 4 8),
  .node (.expr (.variableDefinition "z")),
  .node (.body [] [] []),
  .node (.matchCase 10 11),
  .node (.matching 3 [9, 12]),
  .node (.body [] [] [13]),
  .node (.matchCase 2 14),
  .node (.expr (.string "scrutinee")),
  .node (.matching 16 [15]),
  .node (.body [] [] [17]),
  .node (.nodeType "N" [] [] none (some 18)),
  .node (.file [19])]

theorem matchVariables_nest_twoMatches :
    ∃ tree scope outer, Tree.build 1 twoMatches = .ok tree ∧
      tree.kind 5 = .ok (.expr (.variableUsage "x")) ∧
      tree.kind 3 = .ok (.expr (.variableUsage "y")) ∧
      tree.isGrammatical = true ∧ tree.InDocument 5 ∧
      Workspace.scope { tree } ∅ ⟨5, .matchVariable⟩ = .ok scope ∧
      scope = [⟨"x", 4⟩, ⟨"x", 0⟩, ⟨"y", 1⟩] ∧ Scope.lookup scope "x" = some 4 ∧
      (scope.map (·.declaration)).Nodup ∧
      Workspace.scope { tree } ∅ ⟨3, .matchVariable⟩ = .ok outer ∧ outer <:+ scope ∧
      Scope.lookup outer "x" = some 0 := by
  obtain ⟨tree, hbuild⟩ : ∃ tree, Tree.build 1 twoMatches = .ok tree := ⟨_, rfl⟩
  have hkind : tree.kind 5 = .ok (.expr (.variableUsage "x")) := by
    cases hbuild
    rfl
  have hother : tree.kind 3 = .ok (.expr (.variableUsage "y")) := by
    cases hbuild
    rfl
  have hgrammar : tree.isGrammatical = true := by
    cases hbuild
    decide +kernel
  have hnode : tree.DocumentNode 5 (.expr (.variableUsage "x")) := by
    cases hbuild
    exact ⟨20, by decide, _, rfl, by decide⟩
  have hid := ((Tree.isFinished_of_build hbuild).documentNode_iff.mp hnode).1
  have hbuild' : Tree.build 1 twoMatches = .ok (Workspace.tree { tree }) := hbuild
  obtain ⟨owners, scope, hscope, _, _, _, _, hsuffix, hnodup⟩ :=
    matchVariables_nest hbuild' rfl ∅ hkind
  -- The inner match stands around both uses.
  have houter : ∀ owner, tree.Inside 3 owner → tree.HasSort NodeKind.isMatchCase owner →
      tree.Inside 5 owner := by
    rintro owner ⟨parent, hparent, hunder⟩ _
    cases hbuild
    cases hparent
    exact ⟨7, rfl, .head rfl (.head rfl (.head rfl hunder))⟩
  obtain ⟨outer, hscope', houter⟩ := hsuffix 3 "y" hother houter
  refine ⟨tree, scope, outer, hbuild, hkind, hother, hgrammar, hid, hscope, ?_, ?_,
    hnodup (.inl ⟨hgrammar, hid⟩), hscope', houter, ?_⟩
  · cases hbuild
    cases hscope
    rfl
  · cases hbuild
    cases hscope
    rfl
  · cases hbuild
    cases hscope'
    rfl

end Workspace

end Dataflow
