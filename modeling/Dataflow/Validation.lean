import Dataflow.Diagnostic.Store
import Dataflow.Typing.Infer

/-!
# Dataflow.Validation

Checks on what was resolved and typed: expressions and type expressions have
a type, match variables stand in patterns, and constructor applications pass
as many arguments as their constructor declares.

Each node is inspected by itself.  A shape error ends the inspection of that
node; what was found before it is kept, and the other nodes are inspected all
the same.
-/

namespace Dataflow

/-! ## Checks and problems -/

/-- Which checks are made. -/
structure Checks where
  /-- Every expression has a type. -/
  expressionTypes : Bool := true
  /-- Every type expression has a type. -/
  typeExpressionTypes : Bool := true
  /-- Match variables are arguments of constructors in a pattern. -/
  matchVariables : Bool := true
  /-- Constructor applications pass every declared argument. -/
  constructorArity : Bool := true
  deriving DecidableEq, Repr

/-- What can be wrong with a node. -/
inductive Problem where
  | untypedExpression
  | untypedTypeExpression
  | variableOutsideMatch
  | variableOutsideConstructor
  | constructorArity (name : String) (expected found : Nat)
  deriving DecidableEq, Repr

namespace Problem

/-- A problem in words. -/
def message : Problem → String
  | untypedExpression => "expression has no type"
  | untypedTypeExpression => "type expression has no type"
  | variableOutsideMatch =>
    "match variables can only be defined within pattern match definitions"
  | variableOutsideConstructor => "match variables can only be arguments of constructors"
  | constructorArity name expected found =>
    let plural := if expected = 1 then "" else "s"
    s!"constructor `{name}` expects {expected} argument{plural}, found {found}"

/-- The reference that a problem is about, if it is about one. -/
def property : Problem → Option Slot
  | constructorArity _ _ _ => some .constructor
  | _ => none

end Problem

/-- A problem and where it is. -/
structure Finding where
  problem : Problem
  location : Location
  deriving DecidableEq, Repr

/-- A finding as a message. -/
def Finding.diagnostic (finding : Finding) : Diagnostic :=
  .at .validation .error finding.location finding.problem.message

/-! ## The checks -/

/-- The problem that a node has if it has no type, provided that this is
checked.  A match variable may go without a type. -/
def Checks.untyped? (checks : Checks) : NodeKind → Option Problem
  | .expr (.variableDefinition _) => none
  | .expr _ => if checks.expressionTypes then some .untypedExpression else none
  | .type _ => if checks.typeExpressionTypes then some .untypedTypeExpression else none
  | _ => none

/-- Whether a match variable below these ancestors may be bound there: only
constructor applications and parentheses stand between it and its case. -/
def variableProblem? (ancestors : List NodeKind) : Option Problem :=
  if ancestors.any NodeKind.isMatchCase then
    match ancestors.dropWhile (fun kind => kind.isParens || kind.isApplication) with
    | kind :: _ => if kind.isMatchCase then none else some .variableOutsideConstructor
    | [] => none
  else
    some .variableOutsideMatch

namespace Tree

/-- Check that a node that needs a type has one. -/
def checkType (tree : Tree) (links : Links) (checks : Checks) (id : NodeId) (kind : NodeKind) :
    Result (List Problem) :=
  match checks.untyped? kind with
  | none => .ok []
  | some problem => do
    return if (← tree.infer links id).isUntyped then [problem] else []

/-- Check that a constructor application passes every declared argument. -/
def checkArity (tree : Tree) (links : Links) (checks : Checks) (id : NodeId) :
    NodeKind → Result (List Problem)
  | .expr (.apply _ args) =>
    match checks.constructorArity, links.target id .constructor with
    | true, some constructor => do
      match ← tree.kind constructor with
      | .constructor name declared =>
        return if declared.length = args.length then []
          else [.constructorArity name declared.length args.length]
      | _ => malformed (.unexpectedNode constructor .constructor)
    | _, _ => .ok []
  | _ => .ok []

/-- Check that a match variable stands in a pattern. -/
def checkVariable (tree : Tree) (checks : Checks) (id : NodeId) :
    NodeKind → Result (List Problem)
  | .expr (.variableDefinition _) =>
    if checks.matchVariables then do
      let ancestors ← tree.lineage id
      return (variableProblem? (ancestors.map (·.2))).toList
    else
      .ok []
  | _ => .ok []

end Tree

/-! ## Inspecting a node -/

/-- What was found at a node, and the shape error that ended the inspection,
if there was one. -/
structure Report where
  problems : List Problem := []
  skipped : Option ShapeError := none
  deriving DecidableEq, Repr

/-- The outcome of some checks, up to the first shape error. -/
def Report.ofChecks : List (Result (List Problem)) → Result Report
  | [] => .ok {}
  | check :: checks => do
    match ← attempt check with
    | .error e => return { skipped := some e }
    | .ok problems =>
      let report ← ofChecks checks
      return { report with problems := problems ++ report.problems }

namespace Tree

/-- Inspect a node. -/
def inspect (tree : Tree) (links : Links) (checks : Checks) (id : NodeId) (kind : NodeKind) :
    Result Report :=
  Report.ofChecks [
    tree.checkType links checks id kind,
    tree.checkArity links checks id kind,
    tree.checkVariable checks id kind]

/-- What was found at a node. -/
def findingsAt (tree : Tree) (links : Links) (checks : Checks) (id : NodeId) (kind : NodeKind) :
    Result (List Finding) := do
  let span ← tree.span id
  let report ← tree.inspect links checks id kind
  return report.problems.map fun problem => ⟨problem, ⟨id, problem.property, span⟩⟩

/-- What was found at a node and below it, in preorder. -/
def validate (tree : Tree) (links : Links) (checks : Checks) (root : NodeId) :
    Result (List Finding) := do
  let findings ← (← tree.subtree root).mapM fun (id, kind) => tree.findingsAt links checks id kind
  return findings.flatten

end Tree

/-- Add what was found to the messages. -/
def Diagnostics.report (store : Diagnostics) (findings : List Finding) : Diagnostics :=
  store.addAll (findings.map Finding.diagnostic)

end Dataflow
