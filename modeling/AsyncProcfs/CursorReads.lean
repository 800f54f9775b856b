import AsyncProcfs.Tasks

/-!
# Reads through a cursor

Three functions open a file of a process or a task, read it whole and hand the
bytes to a parser. A failing open names the file; a failing read names the file
`io` beside it, whichever file was read. The kind of the failure is kept, unless
the process is gone: procfs-core makes that an error of another kind.
-/

namespace CursorReads

open ProgramRuns Text Procfs Processes Tasks

/-- The system information handed to some parsers: it may read the instance again. -/
structure AsyncLocalSystemInfo where
  inner : AsyncProcfs

def currentSystemInfo (procfs : AsyncProcfs) : AsyncLocalSystemInfo := { inner := procfs }

/-- What the crate uses of procfs-core's parsers. -/
class FromRead (ε T : Type) where
  fromRead : Bytes → Except ε T

class FromReadSI (ε T : Type) where
  fromRead : Bytes → AsyncLocalSystemInfo → Io ε T

section Functions

variable {ε : Type} [ProcError ε] {T : Type}

/-- What the three functions share: a directory with its path, and the parser. -/
def cursorRead (fd : File) (path : Path) (parser : Bytes → Io ε T) (relpath : Path) : Io ε T := do
  let file ← propagate (wrapIoError (joinPath path relpath)
    (← sys (.openAt fd relpath { read := true })))
  let buffer ← propagate (wrapIoError (joinPath path "io") (← sys (.readToEnd file)))
  parser buffer

namespace Process

def readWithCursor [FromRead ε T] (self : Process) : Path → Io ε T :=
  cursorRead self.fd self.path fun cursor => ofOutcome (FromRead.fromRead cursor)

def readSiWithCursor [FromReadSI ε T] (self : Process) : Path → Io ε T :=
  cursorRead self.fd self.path fun cursor =>
    FromReadSI.fromRead cursor (currentSystemInfo self.procfs)

end Process

namespace Task

def readWithCursor [FromRead ε T] (self : Task) : Path → Io ε T :=
  cursorRead self.fd self.path fun cursor => ofOutcome (FromRead.fromRead cursor)

end Task

end Functions

section Failures

inductive Stage where
  | opening
  | reading

variable {σ : Type}

/-- The kernel lets the file fail at one of the two steps, with `e`. -/
inductive Fails (S : System σ) (fd : File) (r : Path) (w : World σ) : Stage → IoError → Prop
  | opening {e : IoError} {e₁ : σ}
      (refused : S (.openAt fd r { read := true }) w.env = (.error e, e₁)) :
      Fails S fd r w .opening e
  | reading {e : IoError} {file : File} {e₁ e₂ : σ}
      (opened : S (.openAt fd r { read := true }) w.env = (.ok file, e₁))
      (failed : S (.readToEnd file) e₁ = (.error e, e₂)) :
      Fails S fd r w .reading e

variable {ε : Type} [ProcError ε] {T : Type}

/-- What procfs-core's conversion keeps of an I/O error with a path: the path, and the kind,
but an error that says that the process is gone becomes one that something was not found. -/
structure Keeps (pathOf : ε → Option Path) (kindOf : ε → Option ErrorKind) : Prop where
  path : ∀ kind path inner, pathOf (ProcError.fromIo (.wrapped kind path inner)) = some path
  kind : ∀ path e, e ≠ .noSuchProcess →
    kindOf (ProcError.fromIo (.wrapped e.kind path e)) = some e.kind
  gone : ∀ path, kindOf (ProcError.fromIo
    (.wrapped IoError.noSuchProcess.kind path .noSuchProcess)) = some .notFound

/-- The error carries a path, and the kind of the original failure. -/
def Carries (pathOf : ε → Option Path) (kindOf : ε → Option ErrorKind) (err : ε) (path : Path)
    (e : IoError) : Prop :=
  pathOf err = some path ∧ kindOf err = some e.kind

/-- The read ends with an error that carries the failing file's path and the failure's kind. -/
def NamesFile (S : System σ) (pathOf : ε → Option Path) (kindOf : ε → Option ErrorKind)
    (path : Path) (read : Path → Io ε T) (r : Path) (w : World σ) (e : IoError) : Prop :=
  ∃ err, (exec (handle S) (read r) w).1 = .error err ∧
    Carries pathOf kindOf err (joinPath path r) e

/-- A reader names the failing file and the kind exactly when the file fails to open, or is
called `io`, and the failure is not that the process is gone. -/
def NamesFileExactly (S : System σ) (pathOf : ε → Option Path) (kindOf : ε → Option ErrorKind)
    (fd : File) (path : Path) (read : Path → Io ε T) : Prop :=
  ∀ (r : Path) (w : World σ) (stage : Stage) (e : IoError), r.head? ≠ some '/' →
    Fails S fd r w stage e →
    (NamesFile S pathOf kindOf path read r w e ↔
      (stage = .opening ∨ r = "io".toList) ∧ e ≠ .noSuchProcess)

variable {pathOf : ε → Option Path} {kindOf : ε → Option ErrorKind}

/-- An error with the path `named` carries the failure's path and kind exactly when that is the
path and the process is not gone. -/
theorem carries_wrapped_iff (keeps : Keeps pathOf kindOf) (named path : Path) (e : IoError) :
    Carries pathOf kindOf (ProcError.fromIo (.wrapped e.kind named e)) path e ↔
      named = path ∧ e ≠ .noSuchProcess := by
  rw [Carries, keeps.path, Option.some.injEq]
  refine and_congr_right fun _ => ⟨?_, keeps.kind named e⟩
  rintro kept rfl
  rw [keeps.gone, Option.some.injEq] at kept
  exact absurd kept (by decide)

theorem cursorRead_names_iff (keeps : Keeps pathOf kindOf) (S : System σ) (fd : File) (path : Path)
    (parser : Bytes → Io ε T) :
    NamesFileExactly S pathOf kindOf fd path (cursorRead fd path parser) := by
  intro r w stage e relative fails
  rw [NamesFile, cursorRead]
  cases fails with
  | opening refused =>
    rw [exec_wrapped_error (run_sys_eq refused)]
    simp only [Except.error.injEq, exists_eq_left', carries_wrapped_iff keeps, true_or, true_and]
  | @reading _ file e₁ _ opened failed =>
    have read_fails := @run_sys_eq _ S _ ⟨w.kernel, e₁⟩ _ _ failed
    have io_named : joinPath path "io" = joinPath path r ↔ r = "io".toList :=
      (joinPath_inj (by decide) relative).trans eq_comm
    rw [exec_wrapped_ok (run_sys_eq opened), exec_wrapped_error read_fails]
    simp only [Except.error.injEq, exists_eq_left', carries_wrapped_iff keeps, io_named,
      reduceCtorEq, false_or]

/-- All three functions name the failing file and the kind exactly on those failures. -/
theorem readWithCursor_names_iff [FromRead ε T] [FromReadSI ε T] (keeps : Keeps pathOf kindOf)
    (S : System σ) :
    (∀ self : Process, NamesFileExactly S pathOf kindOf self.fd self.path
        (Process.readWithCursor self : Path → Io ε T)) ∧
      (∀ self : Process, NamesFileExactly S pathOf kindOf self.fd self.path
        (Process.readSiWithCursor self : Path → Io ε T)) ∧
      ∀ self : Task, NamesFileExactly S pathOf kindOf self.fd self.path
        (Task.readWithCursor self : Path → Io ε T) := by
  refine ⟨fun self => ?_, fun self => ?_, fun self => ?_⟩
  · exact cursorRead_names_iff keeps S self.fd self.path _
  · exact cursorRead_names_iff keeps S self.fd self.path _
  · exact cursorRead_names_iff keeps S self.fd self.path _

end Failures

section OneUnreadable

/-- The path in an error of procfs-core. -/
def pathIn : CoreError → Option Path
  | .permissionDenied path => path
  | .notFound path => path
  | .incomplete path => path
  | .io _ path => path
  | .other _ => none
  | .internalError => none

/-- The kind of an error of procfs-core. -/
def kindIn : CoreError → Option ErrorKind
  | .permissionDenied _ => some .permissionDenied
  | .notFound _ => some .notFound
  | .io inner _ => some inner.kind
  | _ => none

theorem keeps_core : Keeps pathIn kindIn where
  path kind path inner := by
    change pathIn (CoreError.ofIo (.wrapped kind path inner)) = some path
    unfold CoreError.ofIo
    split <;> simp_all [pathIn]
  kind path e alive := by
    change kindIn (CoreError.ofIo (.wrapped e.kind path e)) = some e.kind
    cases e with
    | wrapped k named inner => cases k <;> rfl
    | os k =>
      cases k with
      | other code =>
        have alive : code ≠ 3 := by simpa using alive
        grind [CoreError.ofIo, kindIn, IoError.kind]
      | _ => rfl
  gone path := rfl

/-- A parser that keeps the bytes. -/
instance : FromRead CoreError Bytes where
  fromRead := .ok

instance : FromReadSI CoreError Bytes where
  fromRead bytes _ := pure bytes

/-- Every file opens under `bare`, and none may be read. -/
theorem fails_bare (r : Path) :
    Fails (fixed bare) twentySeven.fd r ⟨0, ()⟩ .reading (.os .permissionDenied) :=
  .reading rfl rfl

theorem readWithCursor_names_iff_io :
    NamesFile (fixed bare) pathIn kindIn "/proc/27"
      (Process.readWithCursor twentySeven : Path → Io CoreError Bytes) "io" ⟨0, ()⟩
      (.os .permissionDenied) :=
  ((readWithCursor_names_iff keeps_core (fixed bare)).1 twentySeven "io" ⟨0, ()⟩ .reading _
    (by decide) (fails_bare "io")).mpr ⟨Or.inr rfl, by decide⟩

/-- The failing read of `syscall` is reported as one of `io`. -/
theorem readWithCursor_names_other :
    ¬ ∀ (r : Path) (stage : Stage) (e : IoError), r.head? ≠ some '/' →
      Fails (fixed bare) twentySeven.fd r ⟨0, ()⟩ stage e →
      NamesFile (fixed bare) pathIn kindIn "/proc/27"
        (Process.readWithCursor twentySeven : Path → Io CoreError Bytes) r ⟨0, ()⟩ e := by
  intro claim
  obtain ⟨err, ran, carried, -⟩ := claim "syscall" .reading _ (by decide) (fails_bare "syscall")
  cases ran
  revert carried
  decide

end OneUnreadable

end CursorReads
