import AsyncProcfs.AuxiliaryVector
import AsyncProcfs.CoredumpFilter
import AsyncProcfs.CursorReads
import AsyncProcfs.Environment
import AsyncProcfs.TaskChildren

/-!
# The other calls of a process and of a task

Most calls read one file of the process and parse it whole. The rest follow a
link, ask whose the directory is, give a file's text as it is, hand out a handle,
or write a setting. Files
of the instance itself are read the same way, below the root.
-/

namespace Accessors

open ProgramRuns Text IntText Procfs KernelVersion Processes Descriptors Tasks CursorReads

/-- What the crate uses of procfs-core's `Stat`. -/
class Stat (T : Type) where
  state : T → Char

/-- What the crate uses of procfs-core's `KernelStats`. -/
class KernelStats (T : Type) where
  btime : T → UInt64

/-- procfs-core's `Status::parse_uid_gid`. -/
class Status (ε : Type) where
  parseUidGid : Str → Nat → Except ε UInt32

/-- procfs-core's `ClearRefs`, which the crate only prints. -/
class ClearRefs (C : Type) where
  display : C → Str

/-- procfs-core's wrappers around a parsed table. -/
structure Entries (E : Type) where
  entries : E

section Instances

variable {ε : Type} [ProcError ε] {T : Type} (procfs : AsyncProcfs)

/-- `AsyncCurrent::current` and `AsyncCurrentSI::current_with_system_info` up to the parser. -/
def readCurrent (relativePath : Path) (parser : Bytes → Io ε T) : Io ε T := do
  let file ← propagate (wrapIoError (joinPath procfs.root relativePath)
    (← sys (.openAt procfs.file relativePath { read := true })))
  let buffer ← propagate (← sys (.readToEnd file))
  parser buffer

def current [FromRead ε T] (relativePath : Path) : Io ε T :=
  readCurrent procfs relativePath fun cursor => ofOutcome (FromRead.fromRead cursor)

def currentWithSystemInfo [FromReadSI ε T] (relativePath : Path) (si : AsyncLocalSystemInfo) :
    Io ε T :=
  readCurrent procfs relativePath fun cursor => FromReadSI.fromRead cursor si

def currentSI [FromReadSI ε T] (relativePath : Path) : Io ε T :=
  currentWithSystemInfo procfs relativePath (currentSystemInfo procfs)

def loadAverage [FromRead ε T] : Io ε T := current procfs "loadavg"

def kernelStats [FromReadSI ε T] : Io ε T := currentSI procfs "stat"

def bootTimeSecs (T : Type) [FromReadSI ε T] [KernelStats T] : Io ε UInt64 := do
  let stat ← (kernelStats procfs : Io ε T)
  return KernelStats.btime stat

end Instances

section Processes

variable {ε : Type} [ProcError ε] {T : Type} (self : Process)

/-- `cwd`, `root` and `exe`: the target of a link. -/
def readLinkIn (name : Path) : Io ε Bytes := do
  propagate (wrapIoError (joinPath self.path name) (← sys (.readLinkAt self.fd name)))

def cwd : Io ε Bytes := readLinkIn self "cwd"

def root : Io ε Bytes := readLinkIn self "root"

def exe : Io ε Bytes := readLinkIn self "exe"

/-- `metadata`: of the directory itself, so no path is named. -/
def metadata : Io ε Metadata := do
  propagate (← sys (.metadataAt self.fd ""))

def uid : Io ε UInt32 := do
  let metadata ← metadata self
  return metadata.uid

/-- The text of a file; only a failing open says which. -/
def readText (name : Path) : Io ε Str := do
  let file ← propagate (wrapIoError (joinPath self.path name)
    (← sys (.openAt self.fd name { read := true })))
  propagate (← readToString file)

def autogroup : Io ε Str := readText self "autogroup"

def wchan : Io ε Str := readText self "wchan"

def loginuid [Status ε] : Io ε UInt32 := do
  let uid ← readText self "loginuid"
  ofOutcome (Status.parseUidGid uid 0)

def oomScore : Io ε UInt16 := do
  let oom ← readText self "oom_score"
  expect (parse UInt16 (trim oom)).toOption

section Parsed

variable [FromRead ε T]

def io : Io ε T := Process.readWithCursor self "io"

def maps : Io ε T := Process.readWithCursor self "maps"

def smaps : Io ε T := Process.readWithCursor self "smaps"

def smapsRollup : Io ε T := Process.readWithCursor self "smaps_rollup"

def mountstats : Io ε T := Process.readWithCursor self "mountstats"

def mountinfo : Io ε T := Process.readWithCursor self "mountinfo"

def status : Io ε T := Process.readWithCursor self "status"

def stat : Io ε T := Process.readWithCursor self "stat"

def limits : Io ε T := Process.readWithCursor self "limits"

def statm : Io ε T := Process.readWithCursor self "statm"

def schedstat : Io ε T := Process.readWithCursor self "schedstat"

def syscall : Io ε T := Process.readWithCursor self "syscall"

def snmp : Io ε T := Process.readWithCursor self "net/snmp"

def snmp6 : Io ε T := Process.readWithCursor self "net/snmp6"

end Parsed

section Tables

variable [FromRead ε (Entries T)]

def devStatus : Io ε T := Entries.entries <$> Process.readWithCursor self "net/dev"

def unix : Io ε T := Entries.entries <$> Process.readWithCursor self "net/unix"

def arp : Io ε T := Entries.entries <$> Process.readWithCursor self "net/arp"

def route : Io ε T := Entries.entries <$> Process.readWithCursor self "net/route"

end Tables

section Sockets

variable [FromReadSI ε (Entries T)]

def tcp : Io ε T := Entries.entries <$> Process.readSiWithCursor self "net/tcp"

def tcp6 : Io ε T := Entries.entries <$> Process.readSiWithCursor self "net/tcp6"

def udp : Io ε T := Entries.entries <$> Process.readSiWithCursor self "net/udp"

def udp6 : Io ε T := Entries.entries <$> Process.readSiWithCursor self "net/udp6"

end Sockets

/-- Alive unless the state says otherwise, or cannot be read. -/
def isAlive (ε T : Type) [ProcError ε] [FromRead ε T] [Stat T] (self : Process) : Async Bool := do
  let read ← (stat self : Io ε T).run
  return match read with
    | .ok stat => Stat.state stat ≠ 'Z' ∧ Stat.state stat ≠ 'X'
    | .error _ => false

def fdFromFd [Platform] (Target : Type) [FDTarget Target] (fd : Int32) : Io ε (FDInfo Target) :=
  FDInfo.fromProcessAt Target self fd

def taskFromTid (tid : Int32) : Io ε Task := Task.fromProcessAt self tid

def taskMainThread : Io ε Task := taskFromTid self self.pid

/-- `open_relative_flags`: the flags are the caller's. -/
def openRelativeFlags (path : Path) (flags : OpenOptions) : Io ε File := do
  propagate (wrapIoError (joinPath self.path path) (← sys (.openAt self.fd path flags)))

def openRelative (path : Path) : Io ε File := openRelativeFlags self path { read := true }

def mem : Io ε File := openRelative self "mem"

def clearRefs {C : Type} [ClearRefs C] (clear : C) : Io ε Unit := do
  let file ← propagate (wrapIoError (joinPath self.path "clear_refs")
    (← sys (.openAt self.fd "clear_refs" { write := true })))
  propagate (← sys (.writeAll file (encodeUtf8 (ClearRefs.display clear))))

end Processes

namespace Task

variable {ε : Type} [ProcError ε] {T : Type} [FromRead ε T] (self : Task)

def stat : Io ε T := CursorReads.Task.readWithCursor self "stat"

def status : Io ε T := CursorReads.Task.readWithCursor self "status"

def io : Io ε T := CursorReads.Task.readWithCursor self "io"

def schedstat : Io ε T := CursorReads.Task.readWithCursor self "schedstat"

def syscall : Io ε T := CursorReads.Task.readWithCursor self "syscall"

end Task

end Accessors
