import CyranoAgent.Contracts.Canonical
import CyranoAgent.Lib.Action
import CyranoAgent.Lib.Rows
import CyranoAgent.Events.Export
import CyranoAgent.Sqlite.Commands
import CyranoAgent.Sqlite.Leases
import CyranoAgent.Sqlite.Observations
import CyranoAgent.Workflow.Board
import CyranoAgent.Workflow.Attempts
import CyranoAgent.Workflow.Cancellation
import CyranoAgent.Workflow.Settlement
import CyranoAgent.Workflow.Outcomes
import CyranoAgent.Sqlite.Usage
import CyranoAgent.Sqlite.Artifacts
import CyranoAgent.Lib.Session
import CyranoAgent.Sqlite.Restore
import CyranoAgent.Sqlite.Migrations
import CyranoAgent.Sqlite.MigrationFailures
import CyranoAgent.Sqlite.Migrated
import CyranoAgent.Sqlite.StoreRuns
import CyranoAgent.Kernel.Transitions
import CyranoAgent.Planning.Subject
import CyranoAgent.Planning.Changes
import CyranoAgent.Planning.Decisions
import CyranoAgent.Workflow.Service
import CyranoAgent.Workflow.Approval
import CyranoAgent.Contracts.Evaluation
import CyranoAgent.Planning.DeskRuns
import CyranoAgent.Planning.RevisionRuns
import CyranoAgent.Kernel.Approvals
import CyranoAgent.Workflow.BoardRuns
import CyranoAgent.Workflow.Budget
import CyranoAgent.Workflow.Mailbox
import CyranoAgent.Kernel.Actions
import CyranoAgent.Kernel.Releases
import CyranoAgent.Lib.Levels
import CyranoAgent.Lib.Program
import CyranoAgent.Memory.Store
import CyranoAgent.Contracts.PlainJson
import CyranoAgent.Memory.Recall
import CyranoAgent.Lib.Closure
import CyranoAgent.Memory.Service
import CyranoAgent.Memory.Activation
import CyranoAgent.Memory.Guards
import CyranoAgent.Memory.Interleavings
import CyranoAgent.Memory.Uniqueness
import CyranoAgent.Memory.Reads
import CyranoAgent.Planning.Validation
import CyranoAgent.Workflow.Compiler
import CyranoAgent.Workflow.Compilation
import CyranoAgent.Workflow.Digests
import CyranoAgent.Events.Transitions
import CyranoAgent.Events.Leaks
import CyranoAgent.Events.SelfReports
import CyranoAgent.Evaluation.Preregistration
import CyranoAgent.Contracts.FixedPoint
import CyranoAgent.Workflow.Verification
import CyranoAgent.Kernel.Rollback
import CyranoAgent.Kernel.Crashes
import CyranoAgent.Kernel.Hunks
import CyranoAgent.Planning.ReviewRuns
import CyranoAgent.Interview.Reviews
import CyranoAgent.Improvement.Candidates
import CyranoAgent.Improvement.Noninterference
import CyranoAgent.Dcode.RuleCoverage
import CyranoAgent.Memory.ObligationCheck
import CyranoAgent.Dcode.Currency
import CyranoAgent.Dcode.AttemptLoop
import CyranoAgent.Dcode.ExternalWorker
import CyranoAgent.Dcode.Normalization
import CyranoAgent.Dcode.Mediation
import CyranoAgent.Backends.Reading
import CyranoAgent.Backends.Shadowing
import CyranoAgent.Planning.Agreement
import CyranoAgent.Planning.Affected
import CyranoAgent.Workflow.Conditions
import CyranoAgent.Workflow.Expansion
import CyranoAgent.Workflow.Dispatch
import CyranoAgent.Summarization.History
import CyranoAgent.Cron.Boundary
import CyranoAgent.Context.Compiler
import CyranoAgent.Contracts.References
import CyranoAgent.Events.Orphans
import CyranoAgent.Planning.WriteScope
import CyranoAgent.Workflow.Worktrees
import CyranoAgent.Improvement.Classification
import CyranoAgent.Improvement.Episodes
import CyranoAgent.Events.Billing
import CyranoAgent.Contracts.Registry
import CyranoAgent.Planning.Cycles
import CyranoAgent.Workflow.Permits
import CyranoAgent.Backends.Replacement
import CyranoAgent.Backends.Paging
import CyranoAgent.Memory.Projection
import CyranoAgent.Memory.Attachment
import CyranoAgent.Memory.Playbook
import CyranoAgent.Cron.Daily
import CyranoAgent.Plugins.Composition
import CyranoAgent.Monitor.Confluence
import CyranoAgent.Sqlite.ResumeRuns
import CyranoAgent.Messages.Reducer
import CyranoAgent.Messages.ToolCalls
import CyranoAgent.Kernel.SessionRuns
import CyranoAgent.Kernel.Rollout
import CyranoAgent.Context.RunControls
import CyranoAgent.Context.Projection
import CyranoAgent.Intelligence.Lsp
import CyranoAgent.Intelligence.Manager
import CyranoAgent.Backends.Channel
import CyranoAgent.Backends.Permissions
