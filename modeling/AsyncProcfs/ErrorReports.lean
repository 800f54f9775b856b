import AsyncProcfs.Accessors
import AsyncProcfs.FailingRequests
import AsyncProcfs.SysKernel

/-!
# Reported errors

The calls that work on files below one handle stop at the first request that
fails, and give its error. Where the request names a file below the handle, the
error is labelled with that file's path. The calls that do otherwise are those
that look the version up for flags or bounds, the streams' loops, and `is_alive`.
A failing open of a process by its number is labelled with the number alone.
-/

namespace ErrorReports

open ProgramRuns Permissions FailingRequests Text Procfs KernelVersion Processes ProcessFiles
  Descriptors Tasks CursorReads

def errorOf {α : Type} : Except IoError α → Option IoError
  | .ok _ => none
  | .error e => some e

/-- The failure a reply carries. -/
def failure : (op : Op) → op.Res → Option IoError
  | .load, _ => none
  | .store _, _ => none
  | .sys (.openPath _ _), r => errorOf r
  | .sys (.openAt _ _ _), r => errorOf r
  | .sys (.readToEnd _), r => errorOf r
  | .sys (.writeAll _ _), r => errorOf r
  | .sys (.readLink _), r => errorOf r
  | .sys (.readLinkAt _ _), r => errorOf r
  | .sys (.metadataAt _ _), r => errorOf r
  | .sys (.readDir _), r => errorOf r

section Reports

variable {ε : Type} [ProcError ε]

/-- An error is labelled with a path: by the macro, or by `error_path`. -/
def Labelled (path : Path) (e : IoError) (err : ε) : Prop :=
  err = ProcError.fromIo (.wrapped e.kind path e) ∨
    err = ProcError.errorPath (ProcError.fromIo e) path

/-- What an error says of a request that names no file. -/
def Said (root : Path) (e : IoError) (err : ε) : Prop :=
  err = ProcError.fromIo e ∨ ∃ name, Labelled (joinPath root name) e err

/-- What an error says of a failing request of a call on files below `dir`, which is at `root`. -/
def Reported (dir : File) (root : Path) : Op → IoError → ε → Prop
  | .sys (.openAt d name _), e, err => d = dir ∧ Labelled (joinPath root name) e err
  | .sys (.readLinkAt d name), e, err => d = dir ∧ Labelled (joinPath root name) e err
  | _, e, err => Said root e err

/-- A call that stops at the first failing request and reports it. -/
abbrev Reports {α : Type} (dir : File) (root : Path) (call : Io ε α) : Prop :=
  Stops failure (Reported dir root) call.run

end Reports

section Calls

variable {ε : Type} [ProcError ε]

end Calls

section Rules

variable {ε : Type} [ProcError ε] {α β : Type} {root : Path}

end Rules

section Programs

variable {ε : Type} [ProcError ε] {α T : Type} {dir : File} {root : Path}

end Programs

section FirstFailures

variable {ε : Type} [ProcError ε]

variable {σ : Type} {S : System σ}

end FirstFailures

end ErrorReports
