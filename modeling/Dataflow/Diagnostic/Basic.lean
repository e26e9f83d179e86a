import Dataflow.Reference.Slot
import Dataflow.Text.Span

/-!
# Dataflow.Diagnostic.Basic

Messages to the author of a document.
-/

namespace Dataflow

/-- How bad a message is. -/
inductive Severity where
  | error
  | warning
  | info
  deriving DecidableEq, Repr

/-- Which part of the work a message comes from. -/
inductive DiagnosticKind where
  /-- Resolving names. -/
  | name
  /-- Validating what was resolved. -/
  | validation
  deriving DecidableEq, Repr

/-- What a message points at: a node, or one of its references. -/
structure Location where
  node : NodeId
  property : Option Slot := none
  span : Span
  deriving DecidableEq, Repr

/-- A message. -/
structure Diagnostic where
  kind : DiagnosticKind
  severity : Severity
  span : Span
  node : Option NodeId := none
  property : Option Slot := none
  title : String
  notes : List String := []
  deriving DecidableEq, Repr

/-- A message that points at a node. -/
def Diagnostic.at (kind : DiagnosticKind) (severity : Severity) (location : Location)
    (title : String) (notes : List String := []) : Diagnostic where
  kind := kind
  severity := severity
  span := location.span
  node := some location.node
  property := location.property
  title := title
  notes := notes

end Dataflow
