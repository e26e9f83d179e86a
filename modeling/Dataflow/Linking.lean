import Dataflow.Diagnostic.Store
import Dataflow.Reference.Basic
import Dataflow.Scope.Visible

/-!
# Dataflow.Linking

Binding the references of a document.  A reference is bound to the first
visible declaration with its name; one that matches nothing is reported.

The ports visible in `a.port` depend on what `a` refers to, on the port that
its source re-exposes and on the type of that port.  So the ports of
instances are bound last, once everything else in the document is.
-/

namespace Dataflow

/-- What is known about a workspace: the resolved references and the messages
so far. -/
structure Analysis where
  links : Links := ∅
  diagnostics : Diagnostics := ∅

instance : EmptyCollection Analysis := ⟨{}⟩

/-- The message about a name that matches nothing. -/
def unknownName (reference : Reference) (span : Span) (nothingVisible : Bool) : Diagnostic :=
  let target := reference.site.slot.target
  .at .name .error ⟨reference.site.node, some reference.site.slot, span⟩
    ("could not resolve reference to " ++ target ++ " `" ++ reference.name ++ "`")
    (if nothingVisible then ["no " ++ target ++ "s are visible here"] else [])

/-- What came of resolving a reference. -/
inductive Resolution where
  /-- It refers to a declaration. -/
  | bound (target : NodeId)
  /-- It matches nothing, which is reported. -/
  | unresolved (diagnostic : Diagnostic)
  /-- The tree breaks the grammar there; the reference is left alone. -/
  | skipped (error : ShapeError)
  deriving DecidableEq, Repr

namespace Resolution

/-- The target of a reference that was resolved. -/
def target? : Resolution → Option NodeId
  | bound target => some target
  | _ => none

/-- The message about a reference that was not resolved. -/
def diagnostic? : Resolution → Option Diagnostic
  | unresolved diagnostic => some diagnostic
  | _ => none

end Resolution

/-- Bind the references that were resolved. -/
def Links.bindAll (links : Links) (resolved : List (Reference × Resolution)) : Links :=
  resolved.foldl
    (fun links (reference, resolution) =>
      match resolution.target? with
      | some target => links.bind reference.site target
      | none => links)
    links

namespace Workspace

/-- Resolve a reference. -/
def resolve (ws : Workspace) (links : Links) (reference : Reference) : Result Resolution := do
  match ← attempt (ws.scope links reference.site) with
  | .error e => return .skipped e
  | .ok scope =>
    match Scope.lookup scope reference.name with
    | some target => return .bound target
    | none =>
      let span ← ws.tree.span reference.site.node
      return .unresolved (unknownName reference span scope.isEmpty)

/-- Resolve some references, each by the same links. -/
def resolveAll (ws : Workspace) (links : Links) (references : List Reference) :
    Result (List (Reference × Resolution)) :=
  references.mapM fun reference => do return (reference, ← ws.resolve links reference)

/-- Resolve some references and take down what came of it. -/
def bindAll (ws : Workspace) (references : List Reference) (analysis : Analysis) :
    Result Analysis := do
  let resolved ← ws.resolveAll analysis.links references
  return {
    links := analysis.links.bindAll resolved
    diagnostics := analysis.diagnostics.addAll (resolved.filterMap (·.2.diagnostic?)) }

/-- The references below a node, in the two lots in which they are bound:
first everything but the ports of instances, then these. -/
def lots (ws : Workspace) (root : NodeId) : Result (List Reference × List Reference) := do
  return (← ws.tree.references root).partition (·.site.slot ≠ .nodePort)

/-- Bind the references of the document with the given root. -/
def link (ws : Workspace) (root : NodeId) (analysis : Analysis) : Result Analysis := do
  let (first, ports) ← ws.lots root
  ws.bindAll ports (← ws.bindAll first analysis)

/-- Bind the references of some documents, one after the other. -/
def linkAll (ws : Workspace) (roots : List NodeId) (analysis : Analysis) : Result Analysis :=
  roots.foldlM (fun analysis root => ws.link root analysis) analysis

end Workspace

end Dataflow
