import AgentBridge.Records.Memory
import AgentBridge.Reasoning.Serde
import AgentBridge.Records.Encoding
import AgentBridge.Records.Sqlite.Codec
import AgentBridge.Records.Sqlite.Schema
import AgentBridge.Records.Sqlite.Store
import AgentBridge.Reasoning.Except
import AgentBridge.Records.Sqlite.Statements
import AgentBridge.Records.Sqlite.Rows
import AgentBridge.Records.MemorySteps
import AgentBridge.Records.Refinement.Relation
import AgentBridge.Records.Refinement.Writes
import AgentBridge.Records.Refinement.Calls
import AgentBridge.Records.Refinement.Reads
import AgentBridge.Records.Refinement.Registrations
import AgentBridge.Records.Refinement.Equivalence
import AgentBridge.Records.Sqlite.Soundness
import AgentBridge.Records.Sqlite.Readings
import AgentBridge.Reasoning.Versioned
import AgentBridge.Records.History
import AgentBridge.Reasoning.Pairing
import AgentBridge.Records.Pairing
import AgentBridge.Reasoning.Chain
import AgentBridge.Records.Checkpoints
import AgentBridge.Records.Durability
import AgentBridge.Records.Retries
import AgentBridge.Reasoning.Transition
import AgentBridge.Records.SingleUse
import AgentBridge.Acp.Continuation
import AgentBridge.Acp.Resumption
import AgentBridge.Reasoning.Forest
import AgentBridge.Records.Delegation
import AgentBridge.Records.Authority
import AgentBridge.Host.Storage
import AgentBridge.Reasoning.Slots
import AgentBridge.Host.FailStop
import AgentBridge.Host.Tools
import AgentBridge.Host.ToolSteps
import AgentBridge.Host.Bindings
import AgentBridge.Host.Evidence
import AgentBridge.Host.Replies
import AgentBridge.Client.Value
import AgentBridge.Client.ToolResults
import AgentBridge.Records.Contexts
import AgentBridge.Reasoning.Paging
import AgentBridge.Records.Atomicity
import AgentBridge.Records.Journal
import AgentBridge.Records.Sequences
import AgentBridge.Records.Listing
import AgentBridge.Context.Prepare
import AgentBridge.Context.Resolution
import AgentBridge.Context.Limits
import AgentBridge.Context.Policy
import AgentBridge.Reasoning.JsonText
import AgentBridge.Acp.Context
import AgentBridge.Acp.PromptSize
import AgentBridge.Questions.Once
import AgentBridge.Acp.Route
import AgentBridge.Run
import AgentBridge.Acp.Routing
import AgentBridge.Acp.Session
import AgentBridge.Acp.Lifecycle
import AgentBridge.Acp.Permissions
import AgentBridge.Acp.Dispatch
import AgentBridge.Acp.Retirement
import AgentBridge.Acp.Handles
import AgentBridge.Reasoning.Prog
import AgentBridge.Acp.Configuration
import AgentBridge.Client.Reader
import AgentBridge.Client.Chunking
import AgentBridge.Client.Events
import AgentBridge.Client.Subscriptions
import AgentBridge.Client.Observers
import AgentBridge.Tools.Registry
import AgentBridge.Tools.Discovery
import AgentBridge.Context.Archive
import AgentBridge.Context.Revisions
import AgentBridge.Acp.SetOption
import AgentBridge.Acp.Attribution
import AgentBridge.Client.Questions
import AgentBridge.Reasoning.Prefixes
import AgentBridge.Questions.Frames
import AgentBridge.Questions.Announcements
import AgentBridge.Questions.Handles
import AgentBridge.Questions.Hosted
import AgentBridge.Questions.Notifications
import AgentBridge.Reasoning.Positions
import AgentBridge.Tools.Schemas
import AgentBridge.Identities
import AgentBridge.Reasoning.Counting
import AgentBridge.Questions.Entries
import AgentBridge.Questions.Limits
import AgentBridge.Reasoning.Feed
import AgentBridge.Records.Sqlite.Migration
import AgentBridge.Records.Migration
import AgentBridge.Records.Sqlite.Changes
import AgentBridge.Client.State
import AgentBridge.Client.Synchronization
import AgentBridge.Client.Convergence
import AgentBridge.Client.Quiescence
import AgentBridge.Host.Answers
import AgentBridge.Acp.Recording
import AgentBridge.Acp.RecordedRun
import AgentBridge.Acp.Structured
import AgentBridge.Acp.Starts
import AgentBridge.Acp.Ended
import AgentBridge.Acp.Guarded
import AgentBridge.Acp.Failures
