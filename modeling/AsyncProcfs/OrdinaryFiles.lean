import AsyncProcfs.Procfs

/-!
# A tree of ordinary files

Contents by path, with what one call may meet: an open, a read or a write that
fails, and white space around the contents on reading. Opening with truncation
empties a file, a failing open leaves it alone, and a write replaces the bytes
it covers from the start of the file: no handle of the crate is written twice.
-/

namespace OrdinaryFiles

open ProgramRuns Text IntText Procfs

/-- The contents; `none` where there is no file. -/
abbrev Files := File → Option Bytes

/-- What one call meets; a failing write leaves some first part of the bytes. -/
structure Conditions where
  openError : File → OpenOptions → Option IoError
  readError : File → Option IoError
  writeError : File → Option (Nat × IoError)
  before : File → Str
  after : File → Str
  blankBefore : ∀ file, ∀ c ∈ before file, isWhitespace c = true
  blankAfter : ∀ file, ∀ c ∈ after file, isWhitespace c = true

/-- Nothing fails, and files read as they are. -/
def Conditions.calm : Conditions where
  openError _ _ := none
  readError _ := none
  writeError _ := none
  before _ := []
  after _ := []
  blankBefore _ _ mem := absurd mem List.not_mem_nil
  blankAfter _ _ mem := absurd mem List.not_mem_nil

def Conditions.padded (c : Conditions) (file : File) (content : Bytes) : Bytes :=
  encodeUtf8 (c.before file) ++ (content ++ encodeUtf8 (c.after file))

def openFile (c : Conditions) (file : File) (options : OpenOptions) (fs : Files) :
    Except IoError File × Files :=
  match c.openError file options with
  | some e => (.error e, fs)
  | none => match fs file with
    | none =>
      if options.create then (.ok file, Function.update fs file (some []))
      else (.error (.os .notFound), fs)
    | some _ => (.ok file, if options.truncate then Function.update fs file (some []) else fs)

def overwrite (old data : Bytes) : Bytes := data ++ old.drop data.length

/-- Files alone: there is no directory, link or metadata to ask for. -/
def files (c : Conditions) : System Files
  | .openPath path options, fs => openFile c ⟨path⟩ options fs
  | .openAt dir path options, fs => openFile c ⟨joinPath dir.label path⟩ options fs
  | .readToEnd file, fs => match c.readError file, fs file with
    | some e, _ => (.error e, fs)
    | none, none => (.error (.os .notFound), fs)
    | none, some content => (.ok (c.padded file content), fs)
  | .writeAll file data, fs =>
    let old := (fs file).getD []
    match c.writeError file with
    | some (n, e) => (.error e, Function.update fs file (some (overwrite old (data.take n))))
    | none => (.ok (), Function.update fs file (some (overwrite old data)))
  | .readLink _, fs => (.error (.os .invalidData), fs)
  | .readLinkAt _ _, fs => (.error (.os .invalidData), fs)
  | .metadataAt _ _, fs => (.error (.os .invalidData), fs)
  | .readDir _, fs => (.error (.os .invalidData), fs)

/-- Where a path of an instance is in the tree. -/
def fileAt (io : AsyncProcfs) (path : Path) : File := ⟨joinPath io.file.label path⟩

theorem fileAt_inj {io : AsyncProcfs} {path path' : Path} (relative : path.head? ≠ some '/')
    (relative' : path'.head? ≠ some '/') : fileAt io path = fileAt io path' ↔ path = path' := by
  rw [fileAt, fileAt, File.mk.injEq, joinPath_inj relative relative']

abbrev reading : OpenOptions := { read := true }

abbrev writing : OpenOptions := { write := true, create := true, truncate := true }

/-- Reading, and the static: the requests that change no file. -/
def Peeking : Op → Prop
  | .sys op => Reading (.sys op)
  | _ => True

theorem peeking_still (c : Conditions) (op : Op) (peeking : Peeking op) (w : World Files) :
    (handle (files c) op w).2.env = w.env := by
  have unopened (file : File) : (openFile c file reading w.env).2 = w.env := by
    simp only [openFile, reading]
    split
    · rfl
    · split <;> rfl
  cases op with
  | load => rfl
  | store value => rfl
  | sys op =>
    cases op with
    | openAt dir path options =>
      obtain rfl : options = reading := peeking
      exact unopened _
    | readToEnd file =>
      simp only [handle, files]
      split <;> rfl
    | _ => exact peeking.elim

theorem peeking_of_reading (op : Op) (reading : Reading op) : Peeking op := by
  cases op with
  | sys op => exact reading
  | load => trivial
  | store value => trivial

section Calls

variable (c : Conditions) (dir : File) (path : Path) {options : OpenOptions} (w : World Files)

/-- An open that fails changes nothing. -/
theorem run_openAt_refused {e : IoError}
    (refuses : c.openError ⟨joinPath dir.label path⟩ options = some e) :
    run (handle (files c)) (sys (.openAt dir path options)) w = (.error e, w) := by
  rw [run_sys]
  simp only [files, openFile]
  rw [refuses]

/-- Opening a file that is there changes nothing, unless it is truncated. -/
theorem run_openAt_present {content : Bytes}
    (opens : c.openError ⟨joinPath dir.label path⟩ options = none)
    (present : w.env ⟨joinPath dir.label path⟩ = some content) (keeps : options.truncate = false) :
    run (handle (files c)) (sys (.openAt dir path options)) w =
      (.ok ⟨joinPath dir.label path⟩, w) := by
  rw [run_sys]
  simp only [files, openFile]
  rw [opens, present]
  simp [keeps]

/-- Opening for replacement leaves an empty file. -/
theorem run_openAt_writing (opens : c.openError ⟨joinPath dir.label path⟩ writing = none) :
    run (handle (files c)) (sys (.openAt dir path writing)) w =
      (.ok ⟨joinPath dir.label path⟩,
        { w with env := Function.update w.env ⟨joinPath dir.label path⟩ (some []) }) := by
  rw [run_sys]
  simp only [files, openFile]
  rw [opens]
  cases w.env ⟨joinPath dir.label path⟩ with
  | none => rfl
  | some content => rfl

theorem run_readToString_present {file : File} {content : Bytes} (reads : c.readError file = none)
    (present : w.env file = some content) :
    run (handle (files c)) (readToString file) w =
      (textOf (.ok (c.padded file content)), w) := by
  rw [run_readToString]
  simp only [files]
  rw [reads, present]

end Calls

section Helpers

variable {ε α E : Type} [ProcError ε] (c : Conditions) (io : AsyncProcfs) (path : Path)
  (w : World Files)

/-- What a content means to `read_value`: the parse of its trimmed text. -/
def valueIn (parse : Str → Except E α) (into : E → ε) (path : Path) (content : Bytes) :
    Except ε α :=
  match decodeUtf8 content with
  | none => .error (ProcError.errorPath (ProcError.fromIo (.os .invalidData)) path)
  | some s => (parse (trim s)).mapError into

theorem valueIn_encodeUtf8 (parse : Str → Except E α) (into : E → ε) {s : Str}
    (solid : ∀ c ∈ s, isWhitespace c = false) :
    valueIn parse into path (encodeUtf8 s) = (parse s).mapError into := by
  rw [valueIn, decodeUtf8_encodeUtf8]
  exact congrArg (fun s => (parse s).mapError into) (trim_solid solid)

theorem valueIn_padded (parse : Str → Except E α) (into : E → ε) (file : File)
    (content : Bytes) :
    valueIn parse into path (c.padded file content) = valueIn parse into path content := by
  rw [valueIn, valueIn, Conditions.padded, decodeUtf8_padded]
  cases decodeUtf8 content with
  | none => rfl
  | some s =>
    rw [Option.map_some]
    exact congrArg (fun s => (parse s).mapError into)
      (trim_padded s (c.blankBefore file) (c.blankAfter file))

/-- A read that meets no failure gives what the content means, whatever is around it. -/
theorem exec_readValue (parse : Str → Except E α) (into : E → ε) {content : Bytes}
    (opens : c.openError (fileAt io path) reading = none)
    (reads : c.readError (fileAt io path) = none)
    (present : w.env (fileAt io path) = some content) :
    exec (handle (files c)) (io.readValue parse into path) w =
      (valueIn parse into (joinPath io.root path) content, w) := by
  let file := fileAt io path
  have opened := run_openAt_present c io.file path w opens present rfl
  have read := run_readToString_present c w reads present
  have whole : exec (handle (files c)) (io.readFile path : Io ε Str) w =
      (errorPath (joinPath io.root path) (textOf (.ok (c.padded file content))), w) := by
    simp only [AsyncProcfs.readFile, exec_bind, exec_lift, exec_ofOutcome]
    rw [opened]
    change (errorPath _ (run _ (readToString file) w).1, (run _ (readToString file) w).2) = _
    rw [read]
  rw [AsyncProcfs.readValue, exec_bind, whole, ← valueIn_padded c _ _ _ file]
  simp only [textOf, valueIn]
  cases decodeUtf8 (c.padded file content) with
  | none => rfl
  | some s => rfl

/-- Replacing a file: nothing happens unless it opens, and then it holds what got written. -/
theorem exec_writeFile (data : Bytes) :
    exec (handle (files c)) (io.writeFile path data : Io ε Unit) w =
      match c.openError (fileAt io path) writing, c.writeError (fileAt io path) with
      | some e, _ => (.error (ProcError.errorPath (ProcError.fromIo e) (joinPath io.root path)), w)
      | none, some (n, e) =>
        (.error (ProcError.errorPath (ProcError.fromIo e) (joinPath io.root path)),
          { w with env := Function.update w.env (fileAt io path) (some (data.take n)) })
      | none, none =>
        (.ok (), { w with env := Function.update w.env (fileAt io path) (some data) }) := by
  simp only [AsyncProcfs.writeFile, exec_bind, exec_lift, exec_ofOutcome]
  let file := fileAt io path
  cases fails : c.openError file writing with
  | some e =>
    rw [run_openAt_refused c io.file path w fails]
    rfl
  | none =>
    have opened : run (handle (files c)) (sys (.openAt io.file path writing)) w =
        (.ok file, { w with env := Function.update w.env file (some []) }) :=
      run_openAt_writing c io.file path w fails
    rw [opened]
    change (errorPath _ (run _ (sys (.writeAll file data)) _).1,
      (run _ (sys (.writeAll file data)) _).2) = _
    rw [run_sys]
    simp only [files, Function.update_self, Option.getD_some, overwrite, List.drop_nil,
      List.append_nil, Function.update_idem]
    cases c.writeError file with
    | some failure => rfl
    | none => rfl

/-- A value that was written is the whole content of its file. -/
theorem writeValue_content [MachineInt α] {value : α}
    (succeeds : (exec (handle (files c)) (io.writeValue path value : Io ε Unit) w).1 = .ok ()) :
    (exec (handle (files c)) (io.writeValue path value : Io ε Unit) w).2.env (fileAt io path) =
      some (encodeUtf8 (display value)) := by
  rw [AsyncProcfs.writeValue, exec_writeFile] at *
  split at succeeds
  · cases succeeds
  · cases succeeds
  · exact Function.update_self _ _ _

end Helpers

/-- A run of calls on the tree, each under its own conditions. -/
abbrev runCalls {ε Call : Type} {Ans : Call → Type} (program : (call : Call) → Io ε (Ans call))
    (calls : List (Conditions × Call)) (w : World Files) :
    List ((call : Call) × Except ε (Ans call)) × World Files :=
  runEach (fun c => handle (files c)) (fun call => (program call).run) calls w

end OrdinaryFiles
