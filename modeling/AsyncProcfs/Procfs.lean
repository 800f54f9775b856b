import AsyncProcfs.ProgramRuns
import AsyncProcfs.IntText

/-!
# The procfs handle and its file helpers

The crate reaches the kernel through a few calls of its file library and keeps
one atomic word of its own. These are the requests of the model; every `async`
function is a program over them, so that the same text can be run alone or
interleaved with other callers. procfs-core's error type is not part of the
crate: it is any type with the constructors and conversions the crate uses.
-/

namespace Procfs

open ProgramRuns Text IntText

abbrev Path := Str

/-- `Path::join`: an absolute second path replaces the first. -/
def joinPath (base rel : Path) : Path :=
  if rel.head? = some '/' then rel
  else if base = [] ∨ base.getLast? = some '/' then base ++ rel
  else base ++ '/' :: rel

theorem joinPath_inj {base rel rel' : Path} (relative : rel.head? ≠ some '/')
    (relative' : rel'.head? ≠ some '/') :
    joinPath base rel = joinPath base rel' ↔ rel = rel' := by
  simp only [joinPath, if_neg relative, if_neg relative']
  split <;> simp

inductive ErrorKind where
  | notFound
  | permissionDenied
  | unexpectedEof
  | invalidData
  | other (code : Nat)
  deriving DecidableEq, Repr

/-- `std::io::Error`: a plain error, or one built around an `IoErrorWrapper`. -/
inductive IoError where
  | os (kind : ErrorKind)
  | wrapped (kind : ErrorKind) (path : Path) (inner : IoError)
  deriving DecidableEq, Repr

def IoError.kind : IoError → ErrorKind
  | .os kind => kind
  | .wrapped kind _ _ => kind

/-- `ESRCH`: the process is gone. -/
abbrev IoError.noSuchProcess : IoError := .os (.other 3)

/-- What the crate uses of procfs-core's `ProcError`: the variants it builds, the
conversions behind `?` and `into`, and `ProcErrorExt::error_path`. -/
class ProcError (ε : Type) where
  other : Str → ε
  notFound : Option Path → ε
  internalError : ε
  fromIo : IoError → ε
  fromStr : Str → ε
  fromParseInt : IntErrorKind → ε
  errorPath : ε → Path → ε

/-- procfs-core's published variants: one instance of the interface, to compute with. -/
inductive CoreError where
  | permissionDenied (path : Option Path)
  | notFound (path : Option Path)
  | incomplete (path : Option Path)
  | io (inner : IoError) (path : Option Path)
  | other (message : Str)
  | internalError
  deriving DecidableEq, Repr

def CoreError.ofIo : IoError → CoreError
  | .os .permissionDenied => .permissionDenied none
  | .os .notFound => .notFound none
  | .os kind => .io (.os kind) none
  | .wrapped .permissionDenied path _ => .permissionDenied (some path)
  | .wrapped .notFound path _ => .notFound (some path)
  | .wrapped _ path (.os (.other 3)) => .notFound (some path)
  | .wrapped _ path inner => .io inner (some path)

instance : ProcError CoreError where
  other := .other
  notFound := .notFound
  internalError := .internalError
  fromIo := CoreError.ofIo
  fromStr := .other
  fromParseInt _ := .other "ParseIntError"
  errorPath e path := match e with
    | .permissionDenied none => .permissionDenied (some path)
    | .notFound none => .notFound (some path)
    | .incomplete none => .incomplete (some path)
    | .io inner none => .io inner (some path)
    | e => e

inductive OFlag where
  | directory
  | path
  | cloexec
  | nofollow
  deriving DecidableEq, Repr

structure OpenOptions where
  read : Bool := false
  write : Bool := false
  create : Bool := false
  truncate : Bool := false
  customFlags : List OFlag := []
  deriving DecidableEq, Repr

/-- An open file; the crate never looks inside a handle. -/
structure File where
  label : Path
  deriving DecidableEq, Repr

structure Metadata where
  mode : UInt32
  size : UInt64
  uid : UInt32
  deriving DecidableEq, Repr

/-- The calls into the file library. -/
inductive SysOp where
  | openPath (path : Path) (options : OpenOptions)
  | openAt (dir : File) (path : Path) (options : OpenOptions)
  | readToEnd (file : File)
  | writeAll (file : File) (data : Bytes)
  | readLink (file : File)
  | readLinkAt (dir : File) (path : Path)
  | metadataAt (file : File) (path : Path)
  | readDir (dir : File)
  deriving DecidableEq, Repr

/-- The replies; a directory answers with what its stream gives, one result an entry. -/
abbrev SysOp.Res : SysOp → Type
  | .openPath _ _ => Except IoError File
  | .openAt _ _ _ => Except IoError File
  | .readToEnd _ => Except IoError Bytes
  | .writeAll _ _ => Except IoError Unit
  | .readLink _ => Except IoError Bytes
  | .readLinkAt _ _ => Except IoError Bytes
  | .metadataAt _ _ => Except IoError Metadata
  | .readDir _ => Except IoError (List (Except IoError Bytes))

/-- All requests: the atomic `static KERNEL`, and the file library. -/
inductive Op where
  | load
  | store (value : UInt32)
  | sys (op : SysOp)
  deriving DecidableEq, Repr

abbrev Op.Res : Op → Type
  | .load => UInt32
  | .store _ => Unit
  | .sys op => op.Res

/-- An `async fn` returning a plain value. -/
abbrev Async (α : Type) := Prog Op.Res α

/-- An `async fn` returning a `ProcResult`. -/
abbrev Io (ε α : Type) := Fallible Op.Res ε α

/-- The kernel's side: it answers file calls and moves a state of its own. -/
abbrev System (σ : Type) := Handler SysOp.Res σ

/-- A kernel whose answers never change. -/
def fixed (answer : (op : SysOp) → op.Res) : System Unit := fun op _ => (answer op, ())

/-- A kernel where every path opens, and nothing can be done with what it opens. -/
def bare : (op : SysOp) → op.Res
  | .openPath path _ => .ok ⟨path⟩
  | .openAt dir path _ => .ok ⟨joinPath dir.label path⟩
  | .readToEnd _ => .error (.os .permissionDenied)
  | .writeAll _ _ => .error (.os .permissionDenied)
  | .readLink _ => .error (.os .notFound)
  | .readLinkAt _ _ => .error (.os .notFound)
  | .metadataAt _ _ => .error (.os .notFound)
  | .readDir _ => .error (.os .notFound)

structure World (σ : Type) where
  kernel : UInt32
  env : σ

variable {σ ε α β : Type}

/-- The static is plain memory; everything else is up to the kernel. -/
def handle (S : System σ) : Handler Op.Res (World σ)
  | .load, w => (w.kernel, w)
  | .store value, w => ((), { w with kernel := value })
  | .sys op, w => ((S op w.env).1, { w with env := (S op w.env).2 })

def load : Async UInt32 := request Op.load

def store (value : UInt32) : Async Unit := request (Op.store value)

def sys (op : SysOp) : Async op.Res := request (Op.sys op)

@[simp] theorem run_store (S : System σ) (value : UInt32) (w : World σ) :
    run (handle S) (store value) w = ((), { w with kernel := value }) := rfl

@[simp] theorem run_sys (S : System σ) (op : SysOp) (w : World σ) :
    run (handle S) (sys op) w = ((S op w.env).1, { w with env := (S op w.env).2 }) := rfl

theorem run_sys_eq {S : System σ} {op : SysOp} {w : World σ} {r : op.Res} {e : σ}
    (replied : S op w.env = (r, e)) : run (handle S) (sys op) w = (r, ⟨w.kernel, e⟩) := by
  rw [run_sys, replied]

theorem run_fixed {answer : (op : SysOp) → op.Res} {op : SysOp} {r : op.Res}
    (given : answer op = r) (w : World Unit) :
    run (handle (fixed answer)) (sys op) w = (r, w) :=
  Prod.ext given rfl

/-- The bytes of a file as a text; malformed UTF-8 is an error of kind `InvalidData`. -/
def textOf : Except IoError Bytes → Except IoError Str
  | .error e => .error e
  | .ok bytes => match decodeUtf8 bytes with
    | some s => .ok s
    | none => .error (.os .invalidData)

@[simp] theorem textOf_encodeUtf8 (s : Str) : textOf (.ok (encodeUtf8 s)) = .ok s := by
  simp [textOf]

/-- `read_to_string`. -/
def readToString (file : File) : Async (Except IoError Str) := do
  return textOf (← sys (.readToEnd file))

@[simp] theorem run_readToString (S : System σ) (file : File) (w : World σ) :
    run (handle S) (readToString file) w =
      (textOf (S (.readToEnd file) w.env).1, { w with env := (S (.readToEnd file) w.env).2 }) :=
  rfl

/-- The macro `wrap_io_error!`. -/
def wrapIoError (path : Path) : Except IoError α → Except IoError α
  | .ok v => .ok v
  | .error e => .error (.wrapped e.kind path e)

section Errors

variable [ProcError ε]

/-- `?` on an I/O result in a function that returns a `ProcResult`. -/
def propagate (r : Except IoError α) : Io ε α := ofOutcome (r.mapError ProcError.fromIo)

/-- A call that succeeds inside `wrap_io_error!(path, ..)?` goes on with its value. -/
theorem exec_wrapped_ok {h : Handler Op.Res σ} {p : Async (Except IoError α)} {s s' : σ} {a : α}
    (ran : run h p s = (.ok a, s')) (path : Path) (f : α → Io ε β) :
    exec h ((liftM p : Io ε (Except IoError α)) >>= fun r =>
      propagate (wrapIoError path r) >>= f) s = exec h (f a) s' := by
  rw [exec_bind, exec_lift, ran]
  rfl

/-- A call that fails inside `wrap_io_error!(path, ..)?` ends with the wrapped error. -/
theorem exec_wrapped_error {h : Handler Op.Res σ} {p : Async (Except IoError α)} {s s' : σ}
    {e : IoError} (ran : run h p s = (.error e, s')) (path : Path) (f : α → Io ε β) :
    exec h ((liftM p : Io ε (Except IoError α)) >>= fun r =>
      propagate (wrapIoError path r) >>= f) s =
        (.error (ProcError.fromIo (.wrapped e.kind path e)), s') := by
  rw [exec_bind, exec_lift, ran]
  rfl

/-- The same without the macro: `call?`. -/
theorem exec_propagated_ok {h : Handler Op.Res σ} {p : Async (Except IoError α)} {s s' : σ} {a : α}
    (ran : run h p s = (.ok a, s')) (f : α → Io ε β) :
    exec h ((liftM p : Io ε (Except IoError α)) >>= fun r => propagate r >>= f) s =
      exec h (f a) s' := by
  rw [exec_bind, exec_lift, ran]
  rfl

/-- `.map_err(|e| e.into()).error_path(path)`. -/
def errorPath (path : Path) (r : Except IoError α) : Except ε α :=
  r.mapError fun e => ProcError.errorPath (ProcError.fromIo e) path

end Errors

/-- A handle to a procfs instance: its root directory, and the path of it. -/
structure AsyncProcfs where
  file : File
  root : Path
  deriving DecidableEq, Repr

/-- The instance over `/proc` itself. -/
def slashProc : AsyncProcfs where
  file := ⟨"/proc"⟩
  root := "/proc"

variable [ProcError ε]

def AsyncProcfs.newWithRoot (root : Path) : Io ε AsyncProcfs := do
  let file ← propagate (wrapIoError root
    (← sys (.openPath root { read := true, customFlags := [.directory] })))
  return { file, root }

namespace AsyncProcfs

variable (io : AsyncProcfs)

/-- `AsyncProcfsIo::read_file`. -/
def readFile (path : Path) : Io ε Str := do
  let file ← ofOutcome (errorPath (joinPath io.root path)
    (← sys (.openAt io.file path { read := true })))
  let string ← ofOutcome (errorPath (joinPath io.root path) (← readToString file))
  return string

/-- `AsyncProcfsIo::write_file`: create or empty the file, then write. -/
def writeFile (path : Path) (data : Bytes) : Io ε Unit := do
  let file ← ofOutcome (errorPath (joinPath io.root path)
    (← sys (.openAt io.file path { write := true, create := true, truncate := true })))
  ofOutcome (errorPath (joinPath io.root path) (← sys (.writeAll file data)))

/-- `AsyncProcfsIo::read_value` at a type with parser `parse` and error conversion `into`. -/
def readValue {E : Type} (parse : Str → Except E α) (into : E → ε) (path : Path) :
    Io ε α := do
  let s ← io.readFile path
  ofOutcome ((parse (trim s)).mapError into)

/-- `AsyncProcfsIo::read_value` at an integer type. -/
def readInt (α : Type) [MachineInt α] (path : Path) : Io ε α :=
  io.readValue (parse α) ProcError.fromParseInt path

/-- `AsyncProcfsIo::write_value` at an integer type. -/
def writeValue [MachineInt α] (path : Path) (value : α) : Io ε Unit :=
  io.writeFile path (encodeUtf8 (display value))

/-- `AsyncProcfsIo::write_value_to` at an integer type. -/
def writeValueTo [MachineInt α] (file : File) (value : α) : Io ε Unit := do
  propagate (← sys (.writeAll file (encodeUtf8 (display value))))

end AsyncProcfs

section Frames

/-- Requests to the file library, as opposed to the static. -/
def ToSystem : Op → Prop
  | .sys _ => True
  | _ => False

/-- The requests of a plain read: opening for reading, and reading. -/
def Reading : Op → Prop
  | .sys (.openAt _ _ options) => options = { read := true }
  | .sys (.readToEnd _) => True
  | _ => False

theorem toSystem_of_reading (op : Op) (reading : Reading op) : ToSystem op := by
  cases op with
  | sys op => trivial
  | load => exact reading
  | store value => exact reading

theorem issues_sys {P : Op → Prop} {op : SysOp} (permitted : P (.sys op)) :
    Issues P (sys op) :=
  ⟨permitted, fun _ => trivial⟩

theorem issues_readToString (file : File) : Issues Reading (readToString file) :=
  issues_bind (issues_sys trivial) fun _ => trivial

theorem issues_readFile (io : AsyncProcfs) (path : Path) :
    Issues Reading (io.readFile path : Io ε Str).run := by
  refine issues_run_bind (issues_lift (issues_sys rfl)) fun r => ?_
  refine issues_run_bind (issues_ofOutcome _) fun file => ?_
  refine issues_run_bind (issues_lift (issues_readToString file)) fun r => ?_
  exact issues_ofOutcome _

theorem issues_readValue {E : Type} (io : AsyncProcfs) (parse : Str → Except E α)
    (into : E → ε) (path : Path) : Issues Reading (io.readValue parse into path).run :=
  issues_run_bind (issues_readFile io path) fun _ => issues_ofOutcome _

omit [ProcError ε] in
/-- A program that only calls the file library neither sees nor moves the static. -/
theorem run_toSystem (S : System σ) {p : Async α} (issues : Issues ToSystem p)
    (kernel kernel' : UInt32) (env : σ) :
    run (handle S) p ⟨kernel, env⟩ =
      ((run (handle S) p ⟨kernel', env⟩).1,
        ⟨kernel, (run (handle S) p ⟨kernel', env⟩).2.env⟩) := by
  induction p generalizing env with
  | done a => rfl
  | call op next ih =>
    cases op with
    | load => exact issues.1.elim
    | store value => exact issues.1.elim
    | sys op => exact ih _ (issues.2 _) (S op env).2

end Frames

end Procfs
