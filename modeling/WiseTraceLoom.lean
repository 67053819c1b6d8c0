import WiseTraceLoom.Lib.Interleaving
import WiseTraceLoom.Lib.NumberedLog
import WiseTraceLoom.Lib.HashChain
import WiseTraceLoom.Lib.MerkleTree
import WiseTraceLoom.Lib.Text
import WiseTraceLoom.Lib.Json
import WiseTraceLoom.Lib.Regex
import WiseTraceLoom.Lib.Sha256
import WiseTraceLoom.Lib.PurePath
import WiseTraceLoom.Tables
import WiseTraceLoom.Masking
import WiseTraceLoom.Residency
import WiseTraceLoom.Storage.Append
import WiseTraceLoom.Redaction
import WiseTraceLoom.Redaction.Completeness
import WiseTraceLoom.Storage.Log
import WiseTraceLoom.Storage.Contention
import WiseTraceLoom.AuditChain
import WiseTraceLoom.Checkpoint
import WiseTraceLoom.Storage.Read
import WiseTraceLoom.Lib.Grown
import WiseTraceLoom.CryptoShred
import WiseTraceLoom.Storage.Config
import WiseTraceLoom.System
import WiseTraceLoom.Audit.Integrity
import WiseTraceLoom.Audit.Binding
import WiseTraceLoom.Audit.Tampering
import WiseTraceLoom.Lib.MerklePadding
import WiseTraceLoom.Audit.Ambiguity
import WiseTraceLoom.Storage.TimeTravel
import WiseTraceLoom.Storage.Clock
import WiseTraceLoom.Erasure.Shredding
import WiseTraceLoom.Prompts.Promotion
import WiseTraceLoom.Prompts.Versions
import WiseTraceLoom.Prompts.Evaluation
import WiseTraceLoom.Prompts.Calls
import WiseTraceLoom.Prompts.Provenance
import WiseTraceLoom.Prompts.FailClosed
import WiseTraceLoom.Lib.Quantile
import WiseTraceLoom.Prompts.Percentile
import WiseTraceLoom.Prompts.SlotNames
import WiseTraceLoom.Prompts.Integrity
import WiseTraceLoom.Prompts.Fingerprint
import WiseTraceLoom.Instrumentation.Entered
import WiseTraceLoom.Instrumentation.FailOpen
import WiseTraceLoom.Instrumentation.Emission
import WiseTraceLoom.Instrumentation.Identity
import WiseTraceLoom.Lib.Bracketed
import WiseTraceLoom.Instrumentation.Program
import WiseTraceLoom.Instrumentation.Relay
import WiseTraceLoom.Instrumentation.Traceparent
import WiseTraceLoom.Residency.Cache
import WiseTraceLoom.Tenancy.Isolation
import WiseTraceLoom.Residency.Checkpoints
import WiseTraceLoom.Tenancy.Directory
import WiseTraceLoom.Tenancy.Identity
import WiseTraceLoom.Erasure.Accountability
import WiseTraceLoom.Erasure.OneTime
import WiseTraceLoom.Erasure.Confinement
import WiseTraceLoom.Storage.Instant
import WiseTraceLoom.Storage.AllOrNothing
import WiseTraceLoom.Storage.CheckpointLag
import WiseTraceLoom.Storage.Backlog
import WiseTraceLoom.Tenancy.History
import WiseTraceLoom.Tenancy.Atomicity
import WiseTraceLoom.Cost.Quota
import WiseTraceLoom.Lib.Tally
import WiseTraceLoom.Cost.Attribution
import WiseTraceLoom.Cost.Anomaly
import WiseTraceLoom.Lib.Calendar
import WiseTraceLoom.Lib.Backups
import WiseTraceLoom.Rotation
import WiseTraceLoom.Rotation.History
import WiseTraceLoom.Rotation.Retention
import WiseTraceLoom.OtelExport
import WiseTraceLoom.OtelExport.OptIn
import WiseTraceLoom.Settings
import WiseTraceLoom.Lib.LockedMemo
import WiseTraceLoom.Engines
import WiseTraceLoom.Logging.Configure
import WiseTraceLoom.Logging.Pipeline
import WiseTraceLoom.Lib.Liveness
import WiseTraceLoom.Storage.Draining
import WiseTraceLoom.Residency.Containment
import WiseTraceLoom.Storage.PendingCheckpoints
import WiseTraceLoom.Lib.ContextVars
import WiseTraceLoom.Instrumentation.Tasks
import WiseTraceLoom.Instrumentation.TaskTrees
import WiseTraceLoom.Audit.Tampering
