import AsyncProcfs.KernelBuild
import AsyncProcfs.Semaphores
import AsyncProcfs.Sysctl
import AsyncProcfs.SysrqSetting

/-!
# The calls of `sys().kernel()`

The settings that have no module of their own, and the handle that offers all
of them. The queries of a build ask for one flag word each.
-/

namespace SysKernel

open Text Procfs KernelVersion KernelBuild SysrqSetting Semaphores

/-- The source's `Type`. -/
structure KernelType where
  sysname : Str
  deriving DecidableEq, Repr

/-- Every text is a kernel type. -/
def KernelType.fromStr (s : Str) : Except Str KernelType := .ok { sysname := s }

section Functions

variable {ε : Type} [ProcError ε] (procfs : AsyncProcfs)

def KernelType.current : Io ε KernelType :=
  procfs.readValue KernelType.fromStr ProcError.fromStr "sys/kernel/ostype"

def BuildInfo.current (isUppercase : Char → Bool) : Io ε BuildInfo :=
  procfs.readValue (BuildInfo.fromStr isUppercase) ProcError.fromStr "sys/kernel/version"

def pidMax : Io ε Int32 := procfs.readInt Int32 "sys/kernel/pid_max"

def shmall : Io ε UInt64 := procfs.readInt UInt64 "sys/kernel/shmall"

def shmmni : Io ε UInt64 := procfs.readInt UInt64 "sys/kernel/shmmni"

end Functions

section Queries

variable (self : BuildInfo)

def smp : Bool := "SMP".toList ∈ self.flags

def preempt : Bool := "PREEMPT".toList ∈ self.flags

def preemptrt : Bool := "PREEMPTRT".toList ∈ self.flags

end Queries

structure AsyncProcfsSysKernel where
  inner : AsyncProcfs
  deriving DecidableEq, Repr

namespace AsyncProcfsSysKernel

variable {ε : Type} [ProcError ε] (self : AsyncProcfsSysKernel)

def currentVersion : Io ε Version := Version.current self.inner

def currentType : Io ε KernelType := KernelType.current self.inner

def currentBuildInfo (isUppercase : Char → Bool) : Io ε BuildInfo :=
  BuildInfo.current self.inner isUppercase

def semaphoreLimits : Io ε SemaphoreLimits := SemaphoreLimits.new self.inner

def pidMax : Io ε Int32 := SysKernel.pidMax self.inner

def shmmax : Io ε UInt64 := Sysctl.shmmax self.inner

def setShmmax (newValue : UInt64) : Io ε Unit := Sysctl.setShmmax self.inner newValue

def shmmni : Io ε UInt64 := SysKernel.shmmni self.inner

def shmall : Io ε UInt64 := SysKernel.shmall self.inner

def sysrq : Io ε SysRq := SysrqSetting.sysrq self.inner

def setSysrq (new : SysRq) : Io ε Unit := SysrqSetting.setSysrq self.inner new

def setThreadsMax [Platform] (newLimit : UInt32) : Io ε Unit :=
  Sysctl.setThreadsMax self.inner newLimit

def threadsMax : Io ε UInt32 := Sysctl.threadsMax self.inner

end AsyncProcfsSysKernel

/-- `AsyncProcfs::sys` and `AsyncProcfsSys::kernel`. -/
def kernel (procfs : AsyncProcfs) : AsyncProcfsSysKernel := { inner := procfs }

end SysKernel
