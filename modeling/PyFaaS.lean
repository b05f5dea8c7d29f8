import PyFaaS.Runs
import PyFaaS.TextLines
import PyFaaS.JsonValue
import PyFaaS.Models
import PyFaaS.SandboxLogs
import PyFaaS.ExecutionTransactions
import PyFaaS.SortedSet
import PyFaaS.ExecutionTable
import PyFaaS.Platform
import PyFaaS.StepEffects
import PyFaaS.FrozenRecords
import PyFaaS.QueuedDelivery
import PyFaaS.CompletedRuns
import PyFaaS.SandboxAgreement
import PyFaaS.SandboxLaunches
import PyFaaS.TimeLimits
import PyFaaS.StatusInterleaving
import PyFaaS.ResultProtocol
import PyFaaS.Registry
import PyFaaS.ScheduleFiring
import PyFaaS.Routers.Functions
import PyFaaS.Routers.Executions
import PyFaaS.Routers.Schedules
import PyFaaS.Routers.Keys
import PyFaaS.Routers.Invoke
import PyFaaS.Ownership
import PyFaaS.Confinement.Rows
import PyFaaS.Confinement.Executions
import PyFaaS.Confinement.Deletes
import PyFaaS.Isolation.Functions
import PyFaaS.Isolation.Executions
import PyFaaS.Isolation.Schedules
import PyFaaS.Isolation.Keys
import PyFaaS.Isolation.Invoke
import PyFaaS.TenantIsolation
import PyFaaS.RouteEffects
import PyFaaS.FunctionQuota
import PyFaaS.VersionRegistry
import PyFaaS.ActivationHistory
import PyFaaS.Cancellation
import PyFaaS.ExpiringCounter
import PyFaaS.EphemeralRate
import PyFaaS.EphemeralConcurrency
import PyFaaS.TwoStores
import PyFaaS.ArtifactCleanup
import PyFaaS.SyntaxTree
import PyFaaS.PythonSyntax
import PyFaaS.CodeValidator
import PyFaaS.DenyRules
import PyFaaS.Dashboard
import PyFaaS.DashboardIsolation
import PyFaaS.Submissions
import PyFaaS.Circulation
import PyFaaS.PayloadLimit
import PyFaaS.ProcessEnvironment
import PyFaaS.PayloadDelivery
import PyFaaS.Deactivation
import PyFaaS.FileTree
import PyFaaS.FixedPattern
import PyFaaS.VersionCache
import PyFaaS.LockClients
import PyFaaS.ProcessingSet
import PyFaaS.RecordCoherence
import PyFaaS.LogSequence
import PyFaaS.QueueFailures
import PyFaaS.StaleRecovery
import PyFaaS.FailureClassification
import PyFaaS.FunctionDeletion
import PyFaaS.CronFields
import PyFaaS.ActiveFunctions
import PyFaaS.ScoredSet
import PyFaaS.Retry
import PyFaaS.JobDequeue
import PyFaaS.JobOrder
import PyFaaS.ValidatorExceptions
import PyFaaS.Directories
import PyFaaS.ArchiveExtraction
import PyFaaS.UploadOutcomes
import PyFaaS.SchedulerTick
import PyFaaS.CursorScan
import PyFaaS.AckJob
import PyFaaS.SortedPages
import PyFaaS.ExecutionPages
import PyFaaS.CommandLine
import PyFaaS.CallConvention
import PyFaaS.Entrypoints
import PyFaaS.LogLines
import PyFaaS.SandboxJobs
import PyFaaS.Registration
import PyFaaS.MetricLabels
import PyFaaS.DashboardSocket
import PyFaaS.WsManager
import PyFaaS.Backtracking
import PyFaaS.FunctionNames
import PyFaaS.DecimalText
import PyFaaS.UnitDisplays
import PyFaaS.Fleet
import PyFaaS.WorkerPool
import PyFaaS.Leases
import PyFaaS.Heartbeats
import PyFaaS.Sessions
import PyFaaS.Glob
import PyFaaS.Deployments
import PyFaaS.Roster
import PyFaaS.Footprints
import PyFaaS.KeyLedger
import PyFaaS.RoutedExecutions
import PyFaaS.WriteOnce
import PyFaaS.ArtifactIntegrity
import PyFaaS.Delimiters
import PyFaaS.Multipart
import PyFaaS.Overlays
import PyFaaS.LiveStore
import PyFaaS.Grouping
import PyFaaS.Trends
import PyFaaS.SocketSessions
import PyFaaS.Invocations
import PyFaaS.LogReading
import PyFaaS.Tailing
