import Dataflow.Id

/-!
# Dataflow.Scope.Basic

A scope is the list of declarations that are visible from a place, nearest
first, each under the name by which it is visible.  A name means the first
candidate that is visible under it.
-/

namespace Dataflow

/-- A declaration and the name under which it is visible. -/
structure Candidate where
  name : String
  declaration : NodeId
  deriving DecidableEq, Repr

/-- The visible declarations, nearest first. -/
abbrev Scope := List Candidate

/-- The declaration that a name means. -/
def Scope.lookup (scope : Scope) (name : String) : Option NodeId :=
  (scope.find? (·.name = name)).map (·.declaration)

/-- A way to present a declaration with its declared name as a candidate. -/
abbrev Naming := NodeId → String → Candidate

namespace Naming

/-- Every declaration is visible under its declared name. -/
def plain : Naming := fun declaration name => ⟨name, declaration⟩

/-- Some declarations are visible under other names, and some stand for other
declarations.  Of several entries for one declaration the last counts. -/
def adjusted (renamed : List (NodeId × String)) (redirected : List (NodeId × NodeId)) : Naming :=
  fun declaration name =>
    ⟨(renamed.reverse.lookup declaration).getD name,
      (redirected.reverse.lookup declaration).getD declaration⟩

end Naming

/-! ## What a name means -/

@[simp] theorem Scope.lookup_nil (name : String) : Scope.lookup [] name = none := rfl

theorem Scope.lookup_cons (candidate : Candidate) (scope : Scope) (name : String) :
    Scope.lookup (candidate :: scope) name =
      if candidate.name = name then some candidate.declaration else Scope.lookup scope name := by
  by_cases h : candidate.name = name <;> simp [Scope.lookup, h]

theorem Scope.lookup_append (inner outer : Scope) (name : String) :
    Scope.lookup (inner ++ outer) name =
      (Scope.lookup inner name).or (Scope.lookup outer name) := by
  induction inner with
  | nil => rfl
  | cons candidate inner ih =>
    rw [List.cons_append, lookup_cons, lookup_cons, ih]
    split <;> rfl

/-- A name means nothing exactly if no candidate is visible under it. -/
theorem Scope.lookup_eq_none_iff {scope : Scope} {name : String} :
    Scope.lookup scope name = none ↔ ∀ candidate ∈ scope, candidate.name ≠ name := by
  simp [Scope.lookup]

end Dataflow
