import ProcessExplorer.Cli.History
import ProcessExplorer.Cli.KillRun
import ProcessExplorer.Cli.Tree
import ProcessExplorer.Cli.WhoHas
import ProcessExplorer.Control.KillSafety
import ProcessExplorer.Daemon.Duplicates
import ProcessExplorer.Daemon.Retention
import ProcessExplorer.Daemon.Sherd
import ProcessExplorer.Gui.AppSafety
import ProcessExplorer.Gui.TreeView
import ProcessExplorer.History.Migration
import ProcessExplorer.History.Queries
import ProcessExplorer.Intelligence.Bookkeeping
import ProcessExplorer.Intelligence.CpuRate
import ProcessExplorer.Intelligence.FailedRefresh
import ProcessExplorer.Intelligence.HiddenNames
import ProcessExplorer.Intelligence.KernelLog
import ProcessExplorer.Intelligence.Lifecycle
import ProcessExplorer.Intelligence.ListingOrder
import ProcessExplorer.Intelligence.MockHosts
import ProcessExplorer.Intelligence.NewChildren
import ProcessExplorer.Intelligence.VanishedTarget
import ProcessExplorer.Intelligence.WhoHasPort
import ProcessExplorer.Investigation.Contention
import ProcessExplorer.Investigation.CrashAnalysis
import ProcessExplorer.Investigation.GrowthRules
import ProcessExplorer.Investigation.OomLines
import ProcessExplorer.Investigation.RepeatedGrowth
import ProcessExplorer.Telemetry.Linux.Perf
import ProcessExplorer.Telemetry.Linux.Procfs.AddressFields
import ProcessExplorer.Telemetry.Linux.Procfs.CgroupPath
import ProcessExplorer.Telemetry.Linux.Procfs.Cmdline
import ProcessExplorer.Telemetry.Linux.Procfs.Maps
import ProcessExplorer.Telemetry.Linux.Procfs.Security
import ProcessExplorer.Telemetry.Linux.Procfs.StatLine
import ProcessExplorer.Telemetry.Linux.Procfs.StatRanges
import ProcessExplorer.Telemetry.Linux.Procfs.UnixNames
import ProcessExplorer.Telemetry.Linux.Strace
import ProcessExplorer.Telemetry.Linux.Threads
import ProcessExplorer.Telemetry.Linux.TornReads
import ProcessExplorer.Telemetry.Linux.Container
import ProcessExplorer.Investigation.HostContention
