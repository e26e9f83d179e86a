import Dataflow.Id
import Dataflow.Reference.Slot

/-!
# Dataflow.Halt

Why a computation stops without an answer.  There are two kinds of reason,
and they are kept apart because they are treated differently:

* a `ShapeError` says that the tree breaks the grammar at some node.  It ends
  the one query that ran into it; whoever asked goes on with the next;
* a `Fault` says that the caller broke a rule of the data structure itself,
  such as naming a node that does not exist.  It ends the whole computation.

Every cause is a value; its wording is in one `message` function per type.
-/

namespace Dataflow

/-! ## Shape errors -/

/-- What a node should stand inside of. -/
inductive Enclosure where
  | nodeType
  | genericDefinition
  | body
  | dataType
  deriving DecidableEq, Repr

/-- An enclosure in words. -/
def Enclosure.describe : Enclosure → String
  | nodeType => "node type"
  | genericDefinition => "generic definition"
  | body => "node type body"
  | dataType => "data type"

/-- What a node should be. -/
inductive Role where
  | declaration
  | dataType
  | nodeType
  | dataOrNodeType
  | genericDefinition
  | constructor
  | instanceDecl
  | instanceSource
  | body
  | matchCase
  deriving DecidableEq, Repr

/-- A role in words. -/
def Role.describe : Role → String
  | declaration => "a declaration"
  | dataType => "a data type"
  | nodeType => "a node type"
  | dataOrNodeType => "a data or node type"
  | genericDefinition => "a generic definition"
  | constructor => "a constructor"
  | instanceDecl => "an instance"
  | instanceSource => "an instance source"
  | body => "a body"
  | matchCase => "a match case"

/-- A node where the grammar does not put one. -/
inductive ShapeError where
  /-- No ancestor of the node is what it has to stand inside of. -/
  | missingAncestor (node : NodeId) (expected : Enclosure)
  /-- The node is not what its place asks for. -/
  | unexpectedNode (node : NodeId) (expected : Role)
  /-- The node has no such reference. -/
  | noSuchSlot (node : NodeId) (slot : Slot)
  deriving DecidableEq, Repr

/-- The wording of a shape error. -/
def ShapeError.message : ShapeError → String
  | missingAncestor node expected =>
    "node " ++ node.label ++ " has no enclosing " ++ expected.describe
  | unexpectedNode node expected =>
    "node " ++ node.label ++ " was expected to be " ++ expected.describe
  | noSuchSlot node slot =>
    "node " ++ node.label ++ " has no `" ++ slot.property ++ "` reference"

/-! ## Faults -/

/-- A broken rule of the data structures, after which nothing can go on. -/
inductive Fault where
  /-- Node `index` of a tree of `len` nodes was looked at, and there is none. -/
  | outOfBounds (len index : Nat)
  /-- A node was adopted that has a parent already. -/
  | secondParent
  /-- A document root was adopted by another node. -/
  | nestedFile
  /-- Two spans of different sources were joined. -/
  | mixedSources (left right : SourceId)
  /-- A chain of nodes came back to where it had been. -/
  | endless
  deriving DecidableEq, Repr

/-- The wording of a fault. -/
def Fault.message : Fault → String
  | outOfBounds len index => s!"index out of bounds: the len is {len} but the index is {index}"
  | secondParent => "every node has at most one parent"
  | nestedFile => "files are always roots"
  | mixedSources left right =>
    "assertion `left == right` failed: only spans from the same source can be combined\n" ++
      "  left: " ++ left.label ++ "\n right: " ++ right.label
  | endless => "the chain of nodes does not end"

/-! ## Results -/

/-- Why a computation stops without an answer. -/
inductive Halt where
  | shape (error : ShapeError)
  | fault (fault : Fault)
  deriving DecidableEq, Repr

/-- The outcome of a computation on a tree. -/
abbrev Result := Except Halt

/-- Stop the query: the tree breaks the grammar. -/
def malformed {α : Type} (error : ShapeError) : Result α := .error (.shape error)

/-- Stop everything. -/
def abort {α : Type} (fault : Fault) : Result α := .error (.fault fault)

/-- A computation in two parts has an answer exactly if both parts have. -/
theorem bind_eq_ok_iff {α β : Type} {x : Result α} {f : α → Result β} {b : β} :
    (x >>= f) = .ok b ↔ ∃ a, x = .ok a ∧ f a = .ok b := by
  cases x with
  | error halt => simp [bind, Except.bind]
  | ok a => simp [bind, Except.bind]

/-- Turn a shape error into a value, so that the caller can go on after it.
A fault stays a fault. -/
def attempt {α : Type} : Result α → Result (Except ShapeError α)
  | .ok a => .ok (.ok a)
  | .error (.shape e) => .ok (.error e)
  | .error (.fault f) => .error (.fault f)

@[simp] theorem attempt_ok {α : Type} (a : α) : attempt (.ok a : Result α) = .ok (.ok a) := rfl

@[simp] theorem attempt_malformed {α : Type} (e : ShapeError) :
    attempt (malformed e : Result α) = .ok (.error e) := rfl

@[simp] theorem attempt_abort {α : Type} (f : Fault) :
    attempt (abort f : Result α) = abort f := rfl

end Dataflow
