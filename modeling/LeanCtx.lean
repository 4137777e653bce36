import LeanCtx.Python.Text
import LeanCtx.Python.Number
import LeanCtx.Python.Dict
import LeanCtx.Python.Sha256
import LeanCtx.Python.Regex
import LeanCtx.Json.Value
import LeanCtx.Json.Object
import LeanCtx.Json.Codec
import LeanCtx.Json.RoundTrip
import LeanCtx.Json.Writable
import LeanCtx.Json.Length
import LeanCtx.Python.Path
import LeanCtx.Workspace.Error
import LeanCtx.Workspace.Field
import LeanCtx.Workspace.Time
import LeanCtx.Workspace.Sensitive
import LeanCtx.Workspace.Digest
import LeanCtx.Workspace.Source
import LeanCtx.Workspace.Record
import LeanCtx.Workspace.Checkpoint
import LeanCtx.Workspace.Fork
import LeanCtx.Workspace.Conflict
import LeanCtx.Workspace.Handoff
import LeanCtx.Workspace.State
import LeanCtx.Workspace.Provenance
import LeanCtx.Workspace.Apply
import LeanCtx.Workspace.Step
import LeanCtx.Json.Equal
import LeanCtx.Workspace.Canonical
import LeanCtx.Machine.Run
import LeanCtx.Python.Padded
import LeanCtx.Workspace.Journal
import LeanCtx.Workspace.Reread
import LeanCtx.Workspace.Replay
import LeanCtx.Workspace.Accept
import LeanCtx.Workspace.Agreement
import LeanCtx.Workspace.Checkpointing
import LeanCtx.Workspace.Confinement
import LeanCtx.Workspace.References
import LeanCtx.Json.Fields
import LeanCtx.Workspace.Forking
import LeanCtx.Workspace.Floor
import LeanCtx.Workspace.Restoring
import LeanCtx.Workspace.Sampling
import LeanCtx.Workspace.Branching
import LeanCtx.Workspace.Operations
import LeanCtx.Workspace.Inheriting
import LeanCtx.Workspace.Handing
import LeanCtx.Workspace.Lineage
import LeanCtx.Workspace.Delivering
import LeanCtx.Workspace.Receiving
import LeanCtx.Workspace.Presence
import LeanCtx.Workspace.Structure
import LeanCtx.Session.Protocol
import LeanCtx.Session.Receipt
import LeanCtx.Session.Lifecycle
import LeanCtx.Session.Calls
import LeanCtx.Session.Trust
import LeanCtx.Session.Sealed
import LeanCtx.Session.Intent
import LeanCtx.TypeScript.Session
import LeanCtx.TypeScript.Calls
import LeanCtx.TypeScript.Interleaving
import LeanCtx.Go.Session
import LeanCtx.Session.Instance
import LeanCtx.Session.Response
import LeanCtx.Session.Evidence
import LeanCtx.Workspace.Sound
import LeanCtx.Workspace.Storing
import LeanCtx.Workspace.Taking
import LeanCtx.Json.Without
import LeanCtx.Enterprise.Fields
import LeanCtx.Enterprise.Outcome
import LeanCtx.Json.Printable
import LeanCtx.Enterprise.Receipt
import LeanCtx.Preview.Fields
import LeanCtx.Store.Lineage
import LeanCtx.Store.Truthful
import LeanCtx.Json.Kinds
import LeanCtx.Gateway.Receipt
import LeanCtx.Gateway.Egress
import LeanCtx.Python.Rounding
import LeanCtx.Json.Float
import LeanCtx.Json.Lexeme
import LeanCtx.Json.Decoding
import LeanCtx.Enterprise.Planning
import LeanCtx.Enterprise.SourcePlan
import LeanCtx.Enterprise.Execution
import LeanCtx.Enterprise.Client
import LeanCtx.Enterprise.Evaluation
import LeanCtx.Machine.Blocks
import LeanCtx.Json.Mention
import LeanCtx.Enterprise.Exposure
import LeanCtx.Enterprise.Declared
import LeanCtx.Json.Raw
import LeanCtx.Machine.Ranked
import LeanCtx.TypeScript.Canonical
import LeanCtx.TypeScript.Agreement
import LeanCtx.Workspace.Projecting
import LeanCtx.Agent.Protocol
import LeanCtx.Agent.Calls
import LeanCtx.Agent.Metrics
import LeanCtx.Agent.Correlation
import LeanCtx.Agent.Sessions
import LeanCtx.Workspace.Reporting
import LeanCtx.Workspace.Reconciling
import LeanCtx.Workspace.Mirroring
import LeanCtx.Workspace.Admitting
import LeanCtx.Python.Raises
import LeanCtx.Session.Typed
import LeanCtx.Store.Evidence
import LeanCtx.Gateway.Report
import LeanCtx.Preview.Typed
import LeanCtx.Store.Typed
import LeanCtx.Gateway.Typed
import LeanCtx.Enterprise.Unencodable
import LeanCtx.Enterprise.Typed
import LeanCtx.Enterprise.NormalForm
import LeanCtx.Enterprise.Returned
import LeanCtx.Enterprise.Selecting
import LeanCtx.Machine.Matching
import LeanCtx.Enterprise.Binding
import LeanCtx.Workspace.Calendar
import LeanCtx.Enterprise.Window
import LeanCtx.Gateway.Echo
import LeanCtx.Enterprise.PresentedUse
import LeanCtx.Enterprise.Refinement
import LeanCtx.Python.Inside
import LeanCtx.Session.Rooted
import LeanCtx.Json.Dumps
import LeanCtx.Agent.Frames
import LeanCtx.Json.Grammar
import LeanCtx.Java.Parser
import LeanCtx.Java.Strict
import LeanCtx.Java.Exact
import LeanCtx.Enterprise.Lineage
import LeanCtx.Go.Number
import LeanCtx.Go.Surrogates
import LeanCtx.Go.Decoder
import LeanCtx.Go.Scanning
import LeanCtx.Go.Loading
import LeanCtx.Python.Product
import LeanCtx.Agent.Confinement
import LeanCtx.Machine.Directory
import LeanCtx.Workspace.Directory
import LeanCtx.Workspace.Writing
import LeanCtx.Workspace.Observing
import LeanCtx.Workspace.Retrying
import LeanCtx.Machine.Difference
import LeanCtx.Workspace.Delta
import LeanCtx.Workspace.Patching
import LeanCtx.Workspace.Merging
import LeanCtx.Json.Integral
import LeanCtx.Java.Canonical
import LeanCtx.Go.Canonical
import LeanCtx.Workspace.Reordering
import LeanCtx.Workspace.Concurring
import LeanCtx.Workspace.Transferring
import LeanCtx.Workspace.Publishing
import LeanCtx.Workspace.Chaining
import LeanCtx.Workspace.Admitted
