import Dataflow.Linking
import Dataflow.Validation

/-!
# Dataflow.Checking

A whole workspace at once: index every document, bind its references, then
validate it.
-/

namespace Dataflow

namespace Workspace

/-- Validate every document, each into a store of its own. -/
def validateAll (ws : Workspace) (links : Links) (checks : Checks) :
    Result (List Diagnostics) :=
  ws.tree.files.mapM fun root => do
    return (∅ : Diagnostics).report (← ws.tree.validate links checks root)

/-- Check every document by the declarations of the index. -/
def check (ws : Workspace) (checks : Checks) : Result Analysis := do
  let linked ← ws.linkAll ws.tree.files ∅
  let stores ← ws.validateAll linked.links checks
  return { linked with diagnostics := stores.foldl Diagnostics.merge linked.diagnostics }

end Workspace

/-- The workspace of a tree with the declarations of all of its documents. -/
def Tree.workspace (tree : Tree) : Result Workspace := do
  return { tree, index := (← Documents.ofTree tree).index }

/-- Check every document of a tree by the declarations of all of them. -/
def Tree.check (tree : Tree) (checks : Checks) : Result Analysis := do
  (← tree.workspace).check checks

end Dataflow
