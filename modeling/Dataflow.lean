import Dataflow.Id
import Dataflow.Reference.Slot
import Dataflow.Halt
import Dataflow.Text.Span
import Dataflow.Text.Slice
import Dataflow.Text.Sources
import Dataflow.Tree.Kind
import Dataflow.Tree.Basic
import Dataflow.Tree.Builder
import Dataflow.Tree.Walk
import Dataflow.Tree.Grammar
import Dataflow.Reference.Basic
import Dataflow.Reference.Links
import Dataflow.Typing.Ty
import Dataflow.Typing.Infer
import Dataflow.Scope.Basic
import Dataflow.Scope.Index
import Dataflow.Scope.Visible
import Dataflow.Diagnostic.Basic
import Dataflow.Diagnostic.Store
import Dataflow.Linking
import Dataflow.Validation
import Dataflow.Checking
import Dataflow.Log
import Dataflow.Proofs.Result
import Dataflow.Proofs.Forest
import Dataflow.Proofs.Walk
import Dataflow.Proofs.Grammar
import Dataflow.Proofs.Construction
import Dataflow.Proofs.Inference
import Dataflow.Proofs.Candidates
import Dataflow.Proofs.Typing
import Dataflow.Proofs.Untyped
import Dataflow.Proofs.Visible
import Dataflow.Proofs.Index
import Dataflow.Proofs.Linking
import Dataflow.Proofs.Binding
import Dataflow.Proofs.Validation
import Dataflow.Proofs.Checking
import Dataflow.Proofs.Consistency
import Dataflow.Proofs.Ownership
import Dataflow.Proofs.Independence
import Dataflow.Proofs.Totality
import Dataflow.Proofs.Clean
import Dataflow.Proofs.RootCause
import Dataflow.Proofs.Reporting
import Dataflow.Proofs.Modularity
import Dataflow.Proofs.Renaming
import Dataflow.Proofs.Correspondence
import Dataflow.Proofs.Invariance
import Dataflow.Proofs.Documents
import Dataflow.Proofs.Ledger
import Dataflow.Proofs.Extension
import Dataflow.Proofs.Safety
import Dataflow.Proofs.Spans
import Dataflow.Proofs.Enclosing
import Dataflow.Proofs.PatternVariables
import Dataflow.Proofs.InstanceChain
import Dataflow.Proofs.Circles
import Dataflow.Proofs.Positions
import Dataflow.Proofs.Growth
import Dataflow.Proofs.Failures
import Dataflow.Proofs.InstancePorts
import Dataflow.Proofs.Joining
import Dataflow.Proofs.Adoption
import Dataflow.Proofs.Composition
import Dataflow.Proofs.InstanceTypes
import Dataflow.Proofs.Placement
import Dataflow.Proofs.Subtrees
import Dataflow.Proofs.DerivedSpans
import Dataflow.Proofs.Chains
