import LaunchPad.Lib.Prog
import LaunchPad.Lib.SortBy
import LaunchPad.Lib.SortedMap
import LaunchPad.Lib.Journal
import LaunchPad.Lib.Crew
import LaunchPad.Lib.Split
import LaunchPad.Lib.Scan
import LaunchPad.Lib.Crontab
import LaunchPad.Lib.Calendar
import LaunchPad.Lib.Decimal
import LaunchPad.Shared.Types
import LaunchPad.Lib.FirstSeen
import LaunchPad.Shared.Keys
import LaunchPad.Shared.Registry
import LaunchPad.Shared.Schema
import LaunchPad.Lib.Lines
import LaunchPad.Lib.Paths
import LaunchPad.Lib.Load
import LaunchPad.Lib.Probe
import LaunchPad.Lib.Parts
import LaunchPad.Shared.Capacity
import LaunchPad.Shared.Sizing
import LaunchPad.Agent.Routes
import LaunchPad.Agent.Docker
import LaunchPad.Agent.Cron
import LaunchPad.Agent.CronFire
import LaunchPad.Agent.CronFields
import LaunchPad.Lib.Double
import LaunchPad.Shared.Cron
import LaunchPad.Shared.CronHorizon
import LaunchPad.Agent.CronAgree
import LaunchPad.Agent.Plan
import LaunchPad.Agent.Apply
import LaunchPad.Agent.Availability
import LaunchPad.Agent.LocalState
import LaunchPad.Agent.Upstream
import LaunchPad.Agent.Node
import LaunchPad.Agent.Volumes
import LaunchPad.Agent.CronOnce
import LaunchPad.Agent.ShardTruth
import LaunchPad.Agent.Gating
import LaunchPad.Agent.Draining
import LaunchPad.Agent.EdgePoll
import LaunchPad.Agent.EdgeRoutes
import LaunchPad.Agent.Wake
import LaunchPad.Agent.Wire
import LaunchPad.Agent.Overflow
import LaunchPad.Agent.Health
import LaunchPad.Agent.RolloutBounds
import LaunchPad.Agent.Rounds
import LaunchPad.Agent.TwoRounds
import LaunchPad.Lib.Delimited
import LaunchPad.Agent.Stamp
import LaunchPad.Shared.ConfigStamp
import LaunchPad.Agent.RunArgs
import LaunchPad.Agent.Secrets
import LaunchPad.Cli.Teardown
import LaunchPad.Cli.ExactPlacement
import LaunchPad.Cli.Relock
import LaunchPad.Cli.Rooms
import LaunchPad.Cli.Undeploy
import LaunchPad.Cli.Placement
import LaunchPad.Cli.Cluster
import LaunchPad.Cli.Preflight
import LaunchPad.Cli.ProjectIndex
import LaunchPad.Cli.ProvisionPlan
import LaunchPad.Cli.Siblings
import LaunchPad.Cli.Dockerignore
import LaunchPad.Cli.ChangedServices
import LaunchPad.Shared.Merge
import LaunchPad.Cli.S3State
import LaunchPad.Cli.Publish
import LaunchPad.Cli.Admission
import LaunchPad.Cli.Dotenv
import LaunchPad.Cli.Entry
import LaunchPad.Cli.Deploy
import LaunchPad.Cli.Sticky
import LaunchPad.Cli.Rebalance
import LaunchPad.Cli.RebalanceDiff
import LaunchPad.Shared.Footprint
import LaunchPad.Cli.EnvDestroy
import LaunchPad.Cli.Components
import LaunchPad.Cli.Images
import LaunchPad.Lib.History
import LaunchPad.Shared.Autoscale
import LaunchPad.Shared.AutoscaleRuns
import LaunchPad.Shared.MergeLaws
import LaunchPad.Cli.Fleet
import LaunchPad.Cli.ScaleIn
import LaunchPad.Cli.Auth
import LaunchPad.Cli.Autoscale
import LaunchPad.Cli.Absorb
import LaunchPad.Cli.Alerts
import LaunchPad.Lib.Glob
import LaunchPad.Cli.Iam
import LaunchPad.Cli.ProjectDeployPolicy
import LaunchPad.Cli.Domains
import LaunchPad.Agent.Observed
import LaunchPad.Agent.Ports
import LaunchPad.Agent.PortRuns
import LaunchPad.Agent.JobOnce
import LaunchPad.Agent.Status
import LaunchPad.Agent.StatusWrite
import LaunchPad.Agent.Liveness
import LaunchPad.Agent.Backup
import LaunchPad.Agent.BackupRun
import LaunchPad.Agent.BackupStatus
import LaunchPad.Agent.BackupLog
import LaunchPad.Agent.BackupFires
import LaunchPad.Cli.JobKept
import LaunchPad.Agent.CloudwatchLogs
import LaunchPad.Agent.LogBatches
import LaunchPad.Cli.Logs
import LaunchPad.Cli.ClusterJson
import LaunchPad.Agent.JobStatus
import LaunchPad.Lib.Utf8Lines
import LaunchPad.Lib.FileTree
import LaunchPad.Cli.Backup
import LaunchPad.Agent.Reported
import LaunchPad.Cli.Watch
import LaunchPad.Cli.NodeCalls
import LaunchPad.Cli.Provision
import LaunchPad.Cli.Lifecycle
import LaunchPad.Cli.Drain
import LaunchPad.Agent.Converged
import LaunchPad.Agent.Drained
import LaunchPad.Agent.Config
import LaunchPad.Cli.Scripts
import LaunchPad.Lib.Json
import LaunchPad.Lib.Shell
import LaunchPad.Cli.External
