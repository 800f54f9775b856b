import AsyncProcfs.Cells
import AsyncProcfs.ProgramRuns
import AsyncProcfs.Interleavings
import AsyncProcfs.EntryLoops
import AsyncProcfs.Results
import AsyncProcfs.Words
import AsyncProcfs.Tables
import AsyncProcfs.Text
import AsyncProcfs.IntText
import AsyncProcfs.Packing
import AsyncProcfs.Procfs
import AsyncProcfs.KernelVersion
import AsyncProcfs.CachedHistories
import AsyncProcfs.CachedCallers
import AsyncProcfs.OrdinaryFiles
import AsyncProcfs.Sysctl
import AsyncProcfs.SysctlRuns
import AsyncProcfs.SysrqSetting
import AsyncProcfs.Semaphores
import AsyncProcfs.KernelBuild
import AsyncProcfs.Processes
import AsyncProcfs.Descriptors
import AsyncProcfs.Tasks
import AsyncProcfs.ProcessFiles
import AsyncProcfs.CursorReads
import AsyncProcfs.TaskChildren
import AsyncProcfs.Environment
import AsyncProcfs.AuxiliaryVector
import AsyncProcfs.OomScore
import AsyncProcfs.Releases
import AsyncProcfs.BuildNumber
import AsyncProcfs.TornWrites
import AsyncProcfs.Permissions
import AsyncProcfs.FileRights
import AsyncProcfs.CoredumpFilter
import AsyncProcfs.Accessors
import AsyncProcfs.SysKernel
import AsyncProcfs.Sessions
import AsyncProcfs.Trees
import AsyncProcfs.Regions
import AsyncProcfs.ReusedNumbers
import AsyncProcfs.SettingsRuns
import AsyncProcfs.RacingWriters
import AsyncProcfs.VersionGates
import AsyncProcfs.BuildQueries
import AsyncProcfs.ProcessTree
import AsyncProcfs.FailingRequests
import AsyncProcfs.ErrorReports
