import Nazg.Lib.Bytes
import Nazg.Lib.Brackets
import Nazg.Lib.Decimal
import Nazg.Lib.Kahn
import Nazg.Lib.OrdMap
import Nazg.Lib.Sqlite
import Nazg.Lib.Query
import Nazg.Lib.Columns
import Nazg.Lib.Hex
import Nazg.Lib.Stream
import Nazg.Lib.Stdio
import Nazg.Lib.System
import Nazg.Lib.Transaction
import Nazg.Lib.FileTree
import Nazg.Lib.RollingHash
import Nazg.Lib.Cursor
import Nazg.Lib.Shell
import Nazg.Lib.ShellWords
import Nazg.Lib.ShellExact
import Nazg.Agent.Protocol
import Nazg.Agent.Runtime
import Nazg.Bot.Transport
import Nazg.Bot.Doctor
import Nazg.Nexus.Schema
import Nazg.Nexus.DockerStore
import Nazg.Nexus.Crypto
import Nazg.Nexus.GitServers
import Nazg.Nexus.Initialize
import Nazg.Nexus.Migrator
import Nazg.Nexus.References
import Nazg.Nexus.Snapshots
import Nazg.Engine.Runtime
import Nazg.Git.ServerRegistry
import Nazg.Docker.ComposeFile
import Nazg.Docker.ComposeParser
import Nazg.Docker.ComposeText
import Nazg.Docker.Client
import Nazg.Docker.Stacks
import Nazg.Agent.Scanner
import Nazg.Workspace.Scan
import Nazg.Workspace.Diff
import Nazg.Workspace.Manager
import Nazg.Tui.Layout
import Nazg.Proofs.StartOrder
import Nazg.Proofs.HardEdges
import Nazg.Proofs.LayoutRemove
import Nazg.Proofs.ScanStore
import Nazg.Proofs.StackServers
import Nazg.Proofs.StackFiles
import Nazg.Proofs.AbsentReferences
import Nazg.Proofs.SaltAgreement
import Nazg.Proofs.TokenLoss
import Nazg.Proofs.MigrationAtomic
import Nazg.Proofs.MigrationOrder
import Nazg.Proofs.Recency
import Nazg.Proofs.AutoRecovery
import Nazg.Proofs.Restoring
import Nazg.Proofs.RestoreRoundTrip
import Nazg.Proofs.SmartRestore
import Nazg.Proofs.CapturedEnvironment
import Nazg.Proofs.ChangeDetection
import Nazg.Proofs.PatternLookup
import Nazg.Proofs.PatternCounts
import Nazg.Proofs.RecoveryRestore
import Nazg.Proofs.Confinement
import Nazg.Nexus.Facts
import Nazg.Brain.Detector
import Nazg.Proofs.DetectorFacts
import Nazg.Proofs.Suggestions
import Nazg.Proofs.GitStatus
import Nazg.Proofs.TestFiles
import Nazg.Proofs.TreeHash
import Nazg.Proofs.BuildStatus
import Nazg.Proofs.SnapshotDiffs
import Nazg.Proofs.SmartBuild
import Nazg.Proofs.Pruning
import Nazg.Proofs.ScanText
import Nazg.Proofs.ScanCodec
import Nazg.Proofs.Framing
import Nazg.Proofs.ActionParams
import Nazg.Proofs.AdminToken
import Nazg.Proofs.AgentAuth
import Nazg.Proofs.ScriptResult
import Nazg.Proofs.ApiResults
import Nazg.Proofs.AtMostOnce
import Nazg.Proofs.ComposeLines
import Nazg.Proofs.ComposeParse
import Nazg.Proofs.ComposeServices
import Nazg.Proofs.ComposeSections
import Nazg.Lib.Words
import Nazg.Lib.Regex
import Nazg.Nexus.Failures
import Nazg.Brain.Learner
import Nazg.Brain.PatternMatcher
import Nazg.Brain.Recovery
import Nazg.Brain.AutoRecover
import Nazg.Lib.Location
import Nazg.Lib.PrefixCode
import Nazg.Brain.Snapshotter
import Nazg.Task.Builder
import Nazg.System.Process
import Nazg.Bot.Ssh
import Nazg.Testsuite.Runner
import Nazg.Proofs.ShellQuoting
import Nazg.Git.Client
import Nazg.Proofs.PassThrough
import Nazg.Proofs.ExecutorLines
import Nazg.Git.Bare
import Nazg.Proofs.BareRepos
import Nazg.Git.Sync
import Nazg.Proofs.SyncRecords
import Nazg.Proofs.ConfigDrift
import Nazg.Bot.Hosts
import Nazg.Proofs.SshConfigText
import Nazg.Proofs.BotSettings
import Nazg.Engine.Updater
import Nazg.Proofs.Updates
import Nazg.Lib.Runs
import Nazg.Tui.ModeManager
import Nazg.Proofs.PrefixMode
import Nazg.Tui.MenuManager
import Nazg.Proofs.MenuLife
import Nazg.Tui.TuiContext
import Nazg.Proofs.WindowList
import Nazg.Tui.Window
import Nazg.Proofs.WindowPanes
import Nazg.Lib.Rotation
import Nazg.Blackbox.Logger
import Nazg.Proofs.LogRotation
import Nazg.Proofs.ScanMirror
import Nazg.Proofs.Scrollback
import Nazg.Lib.Variables
import Nazg.Config.Store
import Nazg.Proofs.Expansion
import Nazg.Testsuite.Adapters
import Nazg.Proofs.CTestLines
import Nazg.Proofs.PytestLines
import Nazg.Proofs.TestVerdict
import Nazg.Proofs.ComposeSharing
import Nazg.Lib.EditDistance
import Nazg.Lib.Like
import Nazg.Proofs.LevenshteinRows
import Nazg.Proofs.TokenEnvelope
import Nazg.Proofs.RecoveryStats
import Nazg.Proofs.RepoListing
import Nazg.Proofs.StaleSweep
import Nazg.Lib.JsonString
import Nazg.Git.Gitea
import Nazg.Proofs.StringEscapes
import Nazg.Agent.Images
import Nazg.Proofs.ImageIdentity
import Nazg.Proofs.ComposeReaders
import Nazg.Proofs.OwnPattern
import Nazg.Proofs.LayoutSnapshots
import Nazg.Proofs.LayoutTiling
import Nazg.Proofs.PaneDirections
import Nazg.Tui.Render
import Nazg.Proofs.RenderSizes
import Nazg.Proofs.Rollbacks
import Nazg.Proofs.VersionNames
import Nazg.Lib.FilteredLimit
import Nazg.Bot.History
import Nazg.Proofs.BotHistory
import Nazg.Lib.BashWord
import Nazg.Bot.GitDoctor
import Nazg.Proofs.ScriptHeader
import Nazg.Lib.QuotedText
import Nazg.Bot.HealthScripts
import Nazg.Proofs.HealthStatus
import Nazg.Bot.GitDoctorParser
import Nazg.Proofs.GitDoctorText
import Nazg.Proofs.GitDoctorReports
import Nazg.Proofs.FailureIds
import Nazg.Proofs.ConfigText
import Nazg.Lib.LineFill
import Nazg.Lib.ShellProgram
import Nazg.Proofs.ComposeProgress
import Nazg.Proofs.ShellParts
import Nazg.Proofs.TimedCommands
import Nazg.Proofs.WrappedText
import Nazg.Proofs.KeyBindings
import Nazg.Proofs.AppModes
import Nazg.Proofs.ShellInput
import Nazg.Proofs.DeadKeys
import Nazg.Proofs.MenuMoves
import Nazg.Proofs.DockerKeys
import Nazg.Proofs.Dashboards
import Nazg.Proofs.Reaping
import Nazg.Proofs.PaneOwners
import Nazg.Agent.LocalStore
import Nazg.Proofs.AgentCache
import Nazg.Proofs.Registration
