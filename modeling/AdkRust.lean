import AdkRust.A2a.HandlerRuns
import AdkRust.A2a.Reassembly
import AdkRust.Ambient.CronTriggerRuns
import AdkRust.Approvals.Fingerprint
import AdkRust.Approvals.Inbox
import AdkRust.Approvals.RenderedCall
import AdkRust.Budget.Linear
import AdkRust.Core.HistoryCut
import AdkRust.Core.QuotedContext
import AdkRust.Core.SharedState
import AdkRust.Core.TemplateReading
import AdkRust.Functional.Answers
import AdkRust.Functional.Parallel
import AdkRust.Governance.Authorize
import AdkRust.Governance.Freeze
import AdkRust.Graph.Arrivals
import AdkRust.Graph.Gates
import AdkRust.Graph.GotoParent
import AdkRust.Graph.Release
import AdkRust.Graph.RetryBudgets
import AdkRust.Graph.SoleWriter
import AdkRust.Graph.StepBudget
import AdkRust.Harness.GoalRuns
import AdkRust.Harness.PrivateTargets
import AdkRust.Harness.Redirects
import AdkRust.Harness.Mode
import AdkRust.Lease.Fence
import AdkRust.Lib.Except
import AdkRust.Payments.AcpRuns
import AdkRust.Payments.Governed
import AdkRust.Payments.Ap2Cart
import AdkRust.Payments.Journal
import AdkRust.Policy.Glob
import AdkRust.Runner.InFlightRuns
import AdkRust.Runner.LoopHistory
import AdkRust.Runs.Keys
import AdkRust.Runs.Signals
import AdkRust.Schedules.Fires
import AdkRust.Schema.Inlining
import AdkRust.Sessions.MemoryRuns
import AdkRust.SignedAudit.TreeWords
import AdkRust.SignedAudit.WriterRuns
import AdkRust.Spend.MeteredRuns
import AdkRust.Store.DropIn
import AdkRust.Team.RuntimeRuns
import AdkRust.Tools.LedgerKeys
import AdkRust.Tools.LedgerRuns
import AdkRust.Wakeups.QueueRuns
import AdkRust.Wakeups.SignatureRuns
import AdkRust.Wakeups.WebhookRuns
import AdkRust.Workspace.Checked
import AdkRust.Workspace.Searching
