import Dataflow.Checking

/-!
# Dataflow.Log

What each part of the work has to say about what it did.  The lines are a
function of the same inputs as the work itself, so whoever does not care for
them does not meet them.
-/

namespace Dataflow

/-- How important a line is, from the most to the least important. -/
inductive LogLevel where
  | error
  | warn
  | info
  | debug
  | trace
  deriving DecidableEq, Repr

/-- The place of a level, counting from the most important. -/
def LogLevel.rank : LogLevel → Nat
  | error => 0
  | warn => 1
  | info => 2
  | debug => 3
  | trace => 4

/-- A line of the log. -/
structure LogLine where
  level : LogLevel
  text : String
  deriving DecidableEq, Repr

/-- The lines of a log. -/
abbrev Log := List LogLine

namespace Log

/-- The lines that are at least as important as a level. -/
def upTo (level : LogLevel) (log : Log) : Log := log.filter (·.level.rank ≤ level.rank)

/-! ## Types and scopes -/

/-- Every node on the trail reports its type, the last one first, if there
is one to report. -/
def infer (tree : Tree) (links : Links) (id : NodeId) : Result Log :=
  match tree.infer links id with
  | .error _ => .ok []
  | .ok ty => do
    let text ← ty.render tree false
    return (tree.trail links id).reverse.map fun passed =>
      ⟨.trace, passed.label ++ " has type " ++ text⟩

/-- The type of a port is asked for where the ports of an instance hang on
it. -/
def portOwner (ws : Workspace) (links : Links) (id : NodeId) : Result Log := do
  match ← attempt (ws.portOwner links id) with
  | .ok (.typeOf port) => infer ws.tree links port
  | _ => return []

/-- The number of candidates of a site is reported. -/
def scope (ws : Workspace) (links : Links) (site : Site) : Result Log := do
  if (← ws.tree.kind site.node).hasSlot site.slot then
    let inferred ← if site.slot = .nodePort then portOwner ws links site.node else .ok []
    match ← attempt (ws.scope links site) with
    | .error _ => return inferred
    | .ok scope =>
      let text := s!"{scope.length} candidates for " ++ site.slot.property ++ " of " ++
        site.node.label
      return inferred ++ [⟨.trace, text⟩]
  else
    return []

/-- The scopes of some sites report in order, up to the first shape error. -/
def jointScope (ws : Workspace) (links : Links) : List Site → Result Log
  | [] => .ok []
  | site :: sites => do
    let first ← scope ws links site
    match ← attempt (ws.scope links site) with
    | .error _ => return first
    | .ok _ => return first ++ (← jointScope ws links sites)

/-! ## Linking -/

/-- A reference reports its target, or why it was left alone. -/
def resolve (ws : Workspace) (links : Links) (reference : Reference) : Result Log := do
  let visible ← scope ws links reference.site
  let property := reference.site.slot.property
  let node := reference.site.node.label
  match ← ws.resolve links reference with
  | .bound target =>
    return visible ++
      [⟨.trace, property ++ " `" ++ reference.name ++ "` of " ++ node ++ " is " ++ target.label⟩]
  | .unresolved _ => return visible
  | .skipped e =>
    return visible ++
      [⟨.error, "cannot resolve " ++ property ++ " of " ++ node ++ ": " ++ e.message⟩]

/-- The references of one lot report in order. -/
def resolveAll (ws : Workspace) (links : Links) (references : List Reference) : Result Log := do
  return (← references.mapM (resolve ws links)).flatten

/-- Linking a document reports the number of references, then each of them. -/
def link (ws : Workspace) (root : NodeId) (analysis : Analysis) : Result Log := do
  let (first, ports) ← ws.lots root
  let between ← ws.bindAll first analysis
  let total := first.length + ports.length
  return ⟨.debug, s!"linking {total} references in " ++ root.label⟩ ::
    (← resolveAll ws analysis.links first) ++ (← resolveAll ws between.links ports)

/-- Documents are linked one after the other. -/
def linkAll (ws : Workspace) : List NodeId → Analysis → Result Log
  | [], _ => .ok []
  | root :: roots, analysis => do
    let linked ← ws.link root analysis
    return (← link ws root analysis) ++ (← linkAll ws roots linked)

/-! ## Validation -/

/-- An inspected node reports the types that were asked for, and the shape
error that ended the inspection. -/
def inspect (tree : Tree) (links : Links) (checks : Checks) (id : NodeId) (kind : NodeKind) :
    Result Log := do
  let inferred ← match checks.untyped? kind with
    | some _ => infer tree links id
    | none => .ok []
  match (← tree.inspect links checks id kind).skipped with
  | none => return inferred
  | some e =>
    let text := "skipping the rest of the checks on " ++ id.label ++ ": " ++ e.message
    return inferred ++ [⟨.error, text⟩]

/-- Validation reports on each node, then the number of nodes. -/
def validate (tree : Tree) (links : Links) (checks : Checks) (root : NodeId) : Result Log := do
  let entries ← tree.subtree root
  let lines ← entries.mapM fun (id, kind) => inspect tree links checks id kind
  return lines.flatten ++ [⟨.debug, s!"validated {entries.length} nodes under " ++ root.label⟩]

/-! ## Whole workspaces -/

/-- Indexing a document reports the number of its declarations. -/
def index (tree : Tree) (root : NodeId) : Result Log := do
  let source := (← tree.span root).source
  let declarations ← tree.declarations root
  return [⟨.debug, s!"indexed {declarations.length} declarations of source {source}"⟩]

/-- Documents are indexed one after the other. -/
def indexAll (tree : Tree) (roots : List NodeId) : Result Log := do
  return (← roots.mapM (index tree)).flatten

/-- Checking reports on linking and validating, and sums up after each. -/
def check (ws : Workspace) (checks : Checks) : Result Log := do
  let roots := ws.tree.files
  let linking ← linkAll ws roots ∅
  let linked ← ws.linkAll roots ∅
  let validating ← roots.mapM (validate ws.tree linked.links checks)
  let checked ← ws.check checks
  let bound := linked.links.size
  let unresolved := linked.diagnostics.tally.errors
  let errors := checked.diagnostics.tally.errors
  return linking ++
    [⟨.debug, s!"linked {bound} references with {unresolved} unresolved"⟩] ++
    validating.flatten ++
    [⟨.debug, s!"checked {roots.length} documents: {errors} errors"⟩]

/-- Checking a tree reports on indexing its documents first. -/
def checkTree (tree : Tree) (checks : Checks) : Result Log := do
  return (← indexAll tree tree.files) ++ (← check (← tree.workspace) checks)

end Log

end Dataflow
