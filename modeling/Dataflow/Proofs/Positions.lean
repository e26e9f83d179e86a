import Dataflow.Proofs.Enclosing
import Dataflow.Proofs.Safety

/-!
# Dataflow.Proofs.Positions

The types of match variables, in a tree of any shape.  Inference from a node
comes to whatever it comes to from the node that the type is passed on from, be
it an answer or not (`Tree.infer_of_sameAs`).  A variable that is an argument of
an application has one place among the arguments, because no node is listed
twice among the children of another, and it has the type that the constructor
declares in that place.  Any other variable has no type: inference climbs out of
parentheses to an application, but the application does not list the variable
(`Tree.infer_variable_by_place`).
-/

namespace Dataflow

namespace Tree

variable {tree : Tree} {links : Links} {id : NodeId}

/-! ## One step of inference -/

theorem infer_of_malformed {error : ShapeError} (h : tree.typeStep links id = malformed error) :
    tree.infer links id = malformed error := by
  rw [infer, inferWithin, h]
  rfl

/-- Inference comes to the same from a node as from the next one of its chain, also
where it comes to no end. -/
theorem infer_of_sameAs {next : NodeId} (h : tree.typeStep links id = .ok (.sameAs next)) :
    tree.infer links id = tree.infer links next := by
  -- From the next node there is one node less to go.  That is enough for a chain that
  -- ends, and makes no difference to one that does not.
  have hnext : tree.infer links id = tree.inferWithin links tree.size next := by
    rw [infer, inferWithin, h]
    rfl
  by_cases hends : ∃ length, tree.EndsIn links length next
  · obtain ⟨length, hends⟩ := hends
    have hlt : length < tree.size := (EndsIn.step h hends).le_size
    rw [hnext, infer, hends.inferWithin_eq hlt (Nat.lt_succ_of_lt hlt)]
  · have hnever : tree.NeverEnds links next := by
      intro bound
      by_contra hbound
      obtain ⟨length, _, hlength⟩ := exists_endsIn_of_inferWithin hbound
      exact hends ⟨length, hlength⟩
    rw [hnext, infer, hnever, hnever]

namespace IsForest

variable (hf : tree.IsForest)
include hf

theorem infer_eq_of_passesTo {next : NodeId} (h : tree.PassesTo links id next) :
    tree.infer links id = tree.infer links next :=
  infer_of_sameAs (hf.typeStep_eq_sameAs_iff.mpr h)

theorem infer_of_lacksType (h : tree.LacksType links id) : tree.infer links id = .ok .untyped :=
  infer_eq_ok_iff.mpr (.settled (hf.typeStep_of_lacksType h))

/-! ## Variables that are arguments -/

/-- A child of an application has exactly one place among its arguments. -/
theorem exists_only_place {application : NodeId} {applied : String} {args : List NodeId}
    (hparent : tree.parent id = .ok (some application))
    (hkind : tree.kind application = .ok (.expr (.apply applied args))) :
    ∃ place : Nat, ∀ other : Nat, args[other]? = some id ↔ other = place := by
  obtain ⟨place, hplace⟩ := hf.exists_place hparent hkind
  have hnodup : args.Nodup := hf.nodup_children hkind
  obtain ⟨hlt, _⟩ := List.getElem?_eq_some_iff.mp hplace
  refine ⟨place, fun other => ⟨?_, ?_⟩⟩
  · intro hother
    exact ((List.getElem?_inj hlt hnodup).mp (hplace.trans hother.symm)).symm
  · rintro rfl
    exact hplace

/-- An application that refers to something other than a constructor gives no types
to its arguments. -/
theorem infer_of_not_constructor (hlinks : links.Within tree) {name applied : String}
    {application constructor : NodeId} {args : List NodeId} {place : Nat}
    (hkind : tree.kind id = .ok (.expr (.variableDefinition name)))
    (happlication : tree.kind application = .ok (.expr (.apply applied args)))
    (hplace : args[place]? = some id)
    (htarget : links.target application .constructor = some constructor)
    (hnot : ∀ name declared, tree.kind constructor ≠ .ok (.constructor name declared)) :
    tree.infer links id = malformed (.unexpectedNode constructor .constructor) := by
  refine infer_of_malformed ?_
  obtain ⟨found, hfound⟩ := exists_kind_of_lt (hlinks _ _ _ htarget)
  rw [typeStep_of_variableDefinition hkind, hf.variableStep_of_argument happlication hplace,
    htarget, argumentStep, hfound, ok_bind]
  split
  · exact absurd hfound (hnot _ _)
  · rfl

end IsForest

/-! ## Variables elsewhere -/

/-- A node stands directly in parentheses. -/
def InParens (tree : Tree) (id parens : NodeId) : Prop :=
  tree.parent id = .ok (some parens) ∧ tree.HasSort NodeKind.isParens parens

/-- What stands in parentheses, once or more often, is no argument. -/
theorem not_argument_of_inParens {outermost : NodeId}
    (h : Relation.TransGen tree.InParens id outermost) {application : NodeId} {applied : String}
    {args : List NodeId} (hparent : tree.parent id = .ok (some application)) :
    tree.kind application ≠ .ok (.expr (.apply applied args)) := by
  obtain ⟨parens, ⟨hparens, hsort⟩, _⟩ := Relation.TransGen.head'_iff.mp h
  cases parent_inj hparent hparens
  intro hkind
  cases (hasSort_iff hkind).mp hsort

/-- A match variable that is an argument of an application has one place there, and
what inference comes to is said by the constructor that the application refers
to: the type that it declares in this place, or none if it declares fewer.
There is no type if the application refers to nothing, and a shape error if it
refers to something else.  A variable that is not an argument itself has no type
by any table, however many parentheses stand between it and an application. -/
theorem infer_variable_by_place {source : SourceId} {steps : List BuildStep}
    (hbuild : Tree.build source steps = .ok tree) (hlinks : links.Within tree) {name : String}
    (hkind : tree.kind id = .ok (.expr (.variableDefinition name))) :
    (∀ application applied args, tree.parent id = .ok (some application) →
      tree.kind application = .ok (.expr (.apply applied args)) →
      ∃ place : Nat, (∀ other : Nat, args[other]? = some id ↔ other = place) ∧
        (links.target application .constructor = none →
          tree.infer links id = .ok .untyped) ∧
        ∀ constructor, links.target application .constructor = some constructor →
          ((∀ constructorName declared,
              tree.kind constructor ≠ .ok (.constructor constructorName declared)) →
            tree.infer links id = malformed (.unexpectedNode constructor .constructor)) ∧
          ∀ constructorName declared,
            tree.kind constructor = .ok (.constructor constructorName declared) →
            (∀ type, declared[place]? = some type →
              tree.infer links id = tree.infer links type) ∧
            (declared.length ≤ place → tree.infer links id = .ok .untyped)) ∧
    ((∀ application applied args, tree.parent id = .ok (some application) →
        tree.kind application ≠ .ok (.expr (.apply applied args))) →
      ∀ table, tree.infer table id = .ok .untyped) ∧
    ∀ outermost application applied args, Relation.TransGen tree.InParens id outermost →
      tree.parent outermost = .ok (some application) →
      tree.kind application = .ok (.expr (.apply applied args)) →
      id ∉ args ∧ ∀ table, tree.infer table id = .ok .untyped := by
  have hf := (isFinished_of_build hbuild).toIsForest
  refine ⟨?_, ?_, ?_⟩
  · intro application applied args hparent happlication
    obtain ⟨place, honly⟩ := hf.exists_only_place hparent happlication
    have hplace := (honly place).mpr rfl
    refine ⟨place, honly, ?_, ?_⟩
    · intro htarget
      exact hf.infer_of_lacksType (.unmatched hkind happlication hplace htarget)
    · intro constructor htarget
      refine ⟨hf.infer_of_not_constructor hlinks hkind happlication hplace htarget, ?_⟩
      intro constructorName declared hconstructor
      refine ⟨?_, ?_⟩
      · intro type htype
        exact hf.infer_eq_of_passesTo
          (.argument hkind hparent happlication hplace htarget hconstructor htype)
      · intro hsurplus
        exact hf.infer_of_lacksType
          (.surplus hkind happlication hplace htarget hconstructor hsurplus)
  · intro hnot table
    exact hf.infer_of_lacksType (.unplaced hkind hnot)
  · intro outermost application applied args hparens _ happlication
    refine ⟨?_, ?_⟩
    · -- What an application lists has it as its parent.
      intro hmem
      exact not_argument_of_inParens hparens (hf.parent_of_child happlication hmem) happlication
    · intro table
      exact hf.infer_of_lacksType (.unplaced hkind fun _ _ _ => not_argument_of_inParens hparens)

/-- A constructor with one argument is applied to three, the last of them in
parentheses twice.  Another application refers to a type expression. -/
def variablesInPlaces : List BuildStep := [
  .node (.type .integer),
  .node (.constructor "Mk" [0]),
  .node (.dataType "Box" [] [1]),
  .node (.expr (.variableDefinition "x")),
  .node (.expr (.variableDefinition "y")),
  .node (.expr (.variableDefinition "z")),
  .node (.expr (.parens 5)),
  .node (.expr (.parens 6)),
  .node (.expr (.apply "Mk" [3, 4, 7])),
  .node (.expr (.variableDefinition "w")),
  .node (.expr (.apply "Mk" [9]))]

theorem infer_variable_by_place_variablesInPlaces :
    ∃ tree links, Tree.build 1 variablesInPlaces = .ok tree ∧ links.Within tree ∧
      links = ((∅ : Links).bind ⟨8, .constructor⟩ 1).bind ⟨10, .constructor⟩ 0 ∧
      tree.infer links 3 = tree.infer links 0 ∧
      tree.infer links 0 = .ok (.primitive .integer) ∧
      tree.infer links 4 = .ok .untyped ∧
      (∀ table, tree.infer table 5 = .ok .untyped) ∧
      tree.infer links 9 = malformed (.unexpectedNode 0 .constructor) := by
  obtain ⟨tree, hbuild⟩ : ∃ tree, Tree.build 1 variablesInPlaces = .ok tree := ⟨_, rfl⟩
  obtain ⟨links, hlinks⟩ :
      ∃ links, links = ((∅ : Links).bind ⟨8, .constructor⟩ 1).bind ⟨10, .constructor⟩ 0 := ⟨_, rfl⟩
  have hsize : tree.size = 11 := by
    cases hbuild
    rfl
  have hwithin : links.Within tree := by
    intro id slot target htarget
    rw [hlinks, Links.target, Links.get?_bind, Links.get?_bind, Links.get?_empty] at htarget
    split at htarget
    · cases htarget
      lia
    · split at htarget <;> cases htarget
      lia
  have htarget : links.target 8 .constructor = some 1 := by
    rw [hlinks]
    rfl
  have htarget' : links.target 10 .constructor = some 0 := by
    rw [hlinks]
    rfl
  have hconstructor : tree.kind 1 = .ok (.constructor "Mk" [0]) := by
    cases hbuild
    rfl
  have happlication : tree.kind 8 = .ok (.expr (.apply "Mk" [3, 4, 7])) := by
    cases hbuild
    rfl
  have hfirst : tree.infer links 3 = tree.infer links 0 := by
    have hkind : tree.kind 3 = .ok (.expr (.variableDefinition "x")) := by
      cases hbuild
      rfl
    have hparent : tree.parent 3 = .ok (some 8) := by
      cases hbuild
      rfl
    obtain ⟨place, honly, _, hbound⟩ :=
      (infer_variable_by_place hbuild hwithin hkind).1 8 _ _ hparent happlication
    cases (honly 0).mp rfl
    exact ((hbound 1 htarget).2 _ _ hconstructor).1 0 rfl
  have hsurplus : tree.infer links 4 = .ok .untyped := by
    have hkind : tree.kind 4 = .ok (.expr (.variableDefinition "y")) := by
      cases hbuild
      rfl
    have hparent : tree.parent 4 = .ok (some 8) := by
      cases hbuild
      rfl
    obtain ⟨place, honly, _, hbound⟩ :=
      (infer_variable_by_place hbuild hwithin hkind).1 8 _ _ hparent happlication
    cases (honly 1).mp rfl
    exact ((hbound 1 htarget).2 _ _ hconstructor).2 (by decide)
  have hwrapped : ∀ table, tree.infer table 5 = .ok .untyped := by
    have hkind : tree.kind 5 = .ok (.expr (.variableDefinition "z")) := by
      cases hbuild
      rfl
    have hparens : Relation.TransGen tree.InParens 5 7 := by
      cases hbuild
      exact .head ⟨rfl, _, rfl, rfl⟩ (.single ⟨rfl, _, rfl, rfl⟩)
    have hparent : tree.parent 7 = .ok (some 8) := by
      cases hbuild
      rfl
    exact ((infer_variable_by_place hbuild hwithin hkind).2.2 7 8 _ _ hparens hparent
      happlication).2
  have hmistaken : tree.infer links 9 = malformed (.unexpectedNode 0 .constructor) := by
    have hkind : tree.kind 9 = .ok (.expr (.variableDefinition "w")) := by
      cases hbuild
      rfl
    have hparent : tree.parent 9 = .ok (some 10) := by
      cases hbuild
      rfl
    have happlication' : tree.kind 10 = .ok (.expr (.apply "Mk" [9])) := by
      cases hbuild
      rfl
    have hnot : ∀ name declared, tree.kind 0 ≠ .ok (.constructor name declared) := by
      cases hbuild
      exact nofun
    obtain ⟨_, _, _, hbound⟩ :=
      (infer_variable_by_place hbuild hwithin hkind).1 10 _ _ hparent happlication'
    exact (hbound 0 htarget').1 hnot
  have htype : tree.infer links 0 = .ok (.primitive .integer) := by
    cases hbuild
    rfl
  exact ⟨tree, links, hbuild, hwithin, hlinks, hfirst, htype, hsurplus, hwrapped, hmistaken⟩

end Tree

end Dataflow
