import AsyncProcfs.Cells
import AsyncProcfs.Sysctl

/-!
# Runs of setters and getters

The abstract store is one cell for each setting: it holds the last value whose
setter succeeded. The files refine it: after any run of calls every file holds
the text of that value, or its initial content.
-/

namespace SysctlRuns

open ProgramRuns Cells Text IntText Procfs KernelVersion OrdinaryFiles Sysctl

inductive Call where
  | setShmmax (newValue : UInt64)
  | setThreadsMax (newLimit : UInt32)
  | shmmax
  | threadsMax
  deriving DecidableEq, Repr

/-- What the calls return. -/
inductive Value where
  | unit
  | shmmax (value : UInt64)
  | threadsMax (value : UInt32)
  deriving DecidableEq, Repr

section Model

variable [Platform] {ε : Type} [ProcError ε]

def Call.program (procfs : AsyncProcfs) : Call → Io ε Value
  | .setShmmax newValue => (fun _ => .unit) <$> Sysctl.setShmmax procfs newValue
  | .setThreadsMax newLimit => (fun _ => .unit) <$> Sysctl.setThreadsMax procfs newLimit
  | .shmmax => .shmmax <$> Sysctl.shmmax procfs
  | .threadsMax => .threadsMax <$> Sysctl.threadsMax procfs

section Steps

/-- A setter that succeeds replaces its file, and one that fails changes nothing. -/
def Replaces {α : Type} (file : File) (text : Bytes) (before : Files) (result : Except ε α)
    (after : Files) : Prop :=
  match result with
  | .ok _ => after = Function.update before file (some text)
  | .error _ => after = before

variable {c : Conditions} (quiet : ∀ file, c.writeError file = none) (procfs : AsyncProcfs)
  (w : World Files)
include quiet

omit [Platform] in
theorem writeValue_replaces {α : Type} [MachineInt α] (path : Path) (value : α) :
    let out := exec (handle (files c)) (procfs.writeValue path value : Io ε Unit) w
    Replaces (fileAt procfs path) (encodeUtf8 (display value)) w.env out.1 out.2.env := by
  rw [AsyncProcfs.writeValue, exec_writeFile, quiet]
  cases c.openError (fileAt procfs path) writing with
  | some e => rfl
  | none => rfl

theorem setThreadsMax_replaces (newLimit : UInt32) :
    let out := exec (handle (files c)) (Sysctl.setThreadsMax procfs newLimit : Io ε Unit) w
    Replaces (fileAt procfs "sys/kernel/threads-max") (encodeUtf8 (display newLimit)) w.env
      out.1 out.2.env := by
  rw [exec_setThreadsMax]
  have looked := @looked_env _ ε _ c procfs w
  dsimp only
  split
  · exact looked
  · rw [← looked]
    exact writeValue_replaces quiet procfs _ _ newLimit

end Steps

/-- The file a call sets, and the text it writes there. -/
def Call.sets : Call → Option (Path × Bytes)
  | .setShmmax newValue => some ("sys/kernel/shmmax".toList, encodeUtf8 (display newValue))
  | .setThreadsMax newLimit =>
    some ("sys/kernel/threads-max".toList, encodeUtf8 (display newLimit))
  | .shmmax => none
  | .threadsMax => none

/-- A finished call: what was asked, and what it returned. -/
abbrev Event (ε : Type) := (_ : Call) × Except ε Value

/-- What a finished call leaves in a file, where it writes it. -/
def leaves (procfs : AsyncProcfs) (file : File) :
    Event ε → Option (Option Bytes)
  | ⟨call, .ok _⟩ => match call.sets with
    | some (path, text) => if file = fileAt procfs path then some (some text) else none
    | none => none
  | ⟨_, .error _⟩ => none

section Runs

variable (procfs : AsyncProcfs)

omit [Platform] [ProcError ε] in
theorem leaves_of_replaces {call : Call} {path : Path} {text : Bytes}
    (sets : call.sets = some (path, text)) {before after : Files} {result : Except ε Unit}
    (replaces : Replaces (fileAt procfs path) text before result after) (file : File) :
    after file =
      (leaves procfs file ⟨call, result.map fun _ => Value.unit⟩).getD (before file) := by
  cases result with
  | error e => exact congrFun replaces file
  | ok u =>
    rw [replaces, Function.update_apply, Except.map, leaves, sets]
    dsimp only
    split <;> rfl

omit [Platform] [ProcError ε] in
/-- A call leaves a file alone unless it is the one it sets. -/
theorem leaves_eq_none {call : Call} {file : File}
    (other : ∀ path text, call.sets = some (path, text) → file ≠ fileAt procfs path)
    (result : Except ε Value) : leaves procfs file ⟨call, result⟩ = none := by
  cases result with
  | error e => rfl
  | ok value =>
    cases sets : call.sets with
    | none => rw [leaves, sets]
    | some target =>
      rw [leaves, sets]
      exact if_neg (other target.1 target.2 sets)

omit [Platform] in
theorem getter_files {α : Type} [MachineInt α] (c : Conditions) (path : Path) (wrap : α → Value)
    (w : World Files) :
    (exec (handle (files c)) (wrap <$> procfs.readInt α path : Io ε Value) w).2.env = w.env := by
  rw [exec_map]
  exact run_view World.env (peeking_still c)
    (issues_mono peeking_of_reading (issues_readValue _ _ _ _)) w

/-- One call: every file is as the call leaves it, or as it was. -/
theorem step_files {c : Conditions} (quiet : ∀ file, c.writeError file = none)
    (call : Call) (w : World Files) (file : File) :
    let out := exec (handle (files c)) (call.program procfs : Io ε Value) w
    out.2.env file = (leaves procfs file ⟨call, out.1⟩).getD (w.env file) := by
  cases call with
  | setShmmax newValue =>
    rw [Call.program, exec_map]
    exact leaves_of_replaces procfs rfl (writeValue_replaces quiet procfs w _ newValue) file
  | setThreadsMax newLimit =>
    rw [Call.program, exec_map]
    exact leaves_of_replaces procfs rfl (setThreadsMax_replaces quiet procfs w newLimit) file
  | shmmax =>
    have untouched := @leaves_eq_none ε procfs .shmmax file (by rintro path text ⟨⟩)
    dsimp only
    rw [untouched, Option.getD_none]
    exact congrFun (getter_files procfs c _ _ w) file
  | threadsMax =>
    have untouched := @leaves_eq_none ε procfs .threadsMax file (by rintro path text ⟨⟩)
    dsimp only
    rw [untouched, Option.getD_none]
    exact congrFun (getter_files procfs c _ _ w) file

/-- The files refine the abstract store: after a run, each holds what was last left in it. -/
theorem run_files (calls : List (Conditions × Call))
    (quiet : ∀ x ∈ calls, ∀ file, x.1.writeError file = none) (w : World Files) (file : File) :
    let out : List (Event ε) × World Files := runCalls (Call.program procfs) calls w
    out.2.env file = lastWrite (leaves procfs file) (w.env file) out.1 := by
  refine runEach_kept (P := fun (events : List (Event ε)) (now : World Files) =>
    now.env file = lastWrite (leaves procfs file) (w.env file) events) rfl ?_
  intro events now x mem stored
  rw [lastWrite_snoc, ← stored]
  exact step_files procfs (quiet x mem) x.2 now file

end Runs

section Store

/-- The `shmmax` cell of the abstract store: what a finished call sets there. -/
def setsShmmax : Event ε → Option UInt64
  | ⟨.setShmmax newValue, .ok _⟩ => some newValue
  | _ => none

def setsThreadsMax : Event ε → Option UInt32
  | ⟨.setThreadsMax newLimit, .ok _⟩ => some newLimit
  | _ => none

variable {procfs : AsyncProcfs}

omit [Platform] [ProcError ε] in
theorem files_apart :
    fileAt procfs "sys/kernel/shmmax" ≠ fileAt procfs "sys/kernel/threads-max" := by
  rw [ne_eq, fileAt_inj (by decide) (by decide)]
  decide

omit [Platform] [ProcError ε] in
theorem leaves_shmmax (e : Event ε) :
    leaves procfs (fileAt procfs "sys/kernel/shmmax") e =
      (setsShmmax e).map fun v => some (encodeUtf8 (display v)) := by
  obtain ⟨call, result⟩ := e
  cases result with
  | error err => cases call <;> rfl
  | ok value =>
    cases call with
    | setShmmax newValue => exact if_pos rfl
    | setThreadsMax newLimit => exact if_neg files_apart
    | shmmax => rfl
    | threadsMax => rfl

omit [Platform] [ProcError ε] in
theorem leaves_threadsMax (e : Event ε) :
    leaves procfs (fileAt procfs "sys/kernel/threads-max") e =
      (setsThreadsMax e).map fun v => some (encodeUtf8 (display v)) := by
  obtain ⟨call, result⟩ := e
  cases result with
  | error err => cases call <;> rfl
  | ok value =>
    cases call with
    | setShmmax newValue => exact if_neg files_apart.symm
    | setThreadsMax newLimit => exact if_pos rfl
    | shmmax => rfl
    | threadsMax => rfl

/-- A getter answers with the value in its cell, or with what the initial content means. -/
def Answers {α : Type} [MachineInt α] (wrap : α → Value) (path : Path) (cell : Option α)
    (initial : Option Bytes) (read : Except ε Value) : Prop :=
  match cell with
  | some v => read = .ok (wrap v)
  | none => ∀ content, initial = some content →
    read = (valueIn (parse α) ProcError.fromParseInt path content).map wrap

theorem readInt_after {α : Type} [MachineInt α] {path : Path} (wrap : α → Value)
    {sets : Event ε → Option α}
    (encoded : ∀ e, leaves procfs (fileAt procfs path) e =
      (sets e).map fun v => some (encodeUtf8 (display v)))
    {calls : List (Conditions × Call)} (quiet : ∀ x ∈ calls, ∀ file, x.1.writeError file = none)
    (w : World Files) {c : Conditions} (opens : c.openError (fileAt procfs path) reading = none)
    (reads : c.readError (fileAt procfs path) = none) :
    let out : List (Event ε) × World Files := runCalls (Call.program procfs) calls w
    Answers wrap (joinPath procfs.root path) (lastSet sets out.1) (w.env (fileAt procfs path))
      (exec (handle (files c)) (wrap <$> procfs.readInt α path : Io ε Value) out.2).1 := by
  have stored := @run_files _ ε _ procfs calls quiet w (fileAt procfs path)
  dsimp only at stored ⊢
  rw [lastWrite_eq_lastSet _ _ _ fun e _ => encoded e] at stored
  generalize (runCalls (Call.program procfs) calls w : List (Event ε) × World Files) = out at stored ⊢
  rw [exec_map, AsyncProcfs.readInt]
  cases last : lastSet sets out.1 with
  | some v =>
    rw [last] at stored
    rw [exec_readValue c procfs path _ _ _ opens reads stored,
      valueIn_encodeUtf8 _ _ _ (display_solid v), parse_display]
    rfl
  | none =>
    rw [last] at stored
    intro content initial
    rw [exec_readValue c procfs path _ _ _ opens reads (stored.trans initial)]

variable (procfs)

/-- What the next call does, after calls that started on the files of `w` and returned
`events`, when the files are now those of `now`. -/
structure Serves (w : World Files) (events : List (Event ε)) (c : Conditions)
    (now : World Files) : Prop where
  shmmax : c.openError (fileAt procfs "sys/kernel/shmmax") reading = none →
    c.readError (fileAt procfs "sys/kernel/shmmax") = none →
    Answers .shmmax (joinPath procfs.root "sys/kernel/shmmax") (lastSet setsShmmax events)
      (w.env (fileAt procfs "sys/kernel/shmmax"))
      (exec (handle (files c)) (Call.shmmax.program procfs : Io ε Value) now).1
  threadsMax : c.openError (fileAt procfs "sys/kernel/threads-max") reading = none →
    c.readError (fileAt procfs "sys/kernel/threads-max") = none →
    Answers .threadsMax (joinPath procfs.root "sys/kernel/threads-max")
      (lastSet setsThreadsMax events) (w.env (fileAt procfs "sys/kernel/threads-max"))
      (exec (handle (files c)) (Call.threadsMax.program procfs : Io ε Value) now).1
  failed : ∀ (call : Call) (e : ε),
    (exec (handle (files c)) (call.program procfs) now).1 = .error e →
      (exec (handle (files c)) (call.program procfs : Io ε Value) now).2.env = now.env
  frame : ∀ (call : Call) (file : File),
    (∀ path text, call.sets = some (path, text) → file ≠ fileAt procfs path) →
      (exec (handle (files c)) (call.program procfs : Io ε Value) now).2.env file = now.env file
  apart : fileAt procfs "sys/kernel/shmmax" ≠ fileAt procfs "sys/kernel/threads-max"

/-- After any run of setters and getters the files serve the abstract store. -/
theorem runCalls_serves (calls : List (Conditions × Call))
    (quiet : ∀ x ∈ calls, ∀ file, x.1.writeError file = none) (w : World Files)
    (c : Conditions) (next_quiet : ∀ file, c.writeError file = none) :
    let out : List (Event ε) × World Files := runCalls (Call.program procfs) calls w
    Serves procfs w out.1 c out.2 where
  shmmax opens reads := readInt_after .shmmax leaves_shmmax quiet w opens reads
  threadsMax opens reads := readInt_after .threadsMax leaves_threadsMax quiet w opens reads
  failed call e failed := by
    funext file
    rw [step_files procfs next_quiet call, failed]
    rfl
  frame call file other := by
    rw [step_files procfs next_quiet call, leaves_eq_none procfs other, Option.getD_none]
  apart := files_apart

end Store

end Model

section OneRun

/-- A tree of a 5.4 kernel. -/
def fiveFour : World Files where
  kernel := Version.sentinel
  env file :=
    if file = ⟨"/proc/sys/kernel/osrelease"⟩ then some (encodeUtf8 "5.4.0-42\n")
    else if file = ⟨"/proc/sys/kernel/threads-max"⟩ then some (encodeUtf8 "63704\n")
    else none

/-- No file opens. -/
def locked : Conditions := { Conditions.calm with openError := fun _ _ => some (.os .permissionDenied) }

/-- Two successes, one call out of range and one that cannot open its file. -/
def attempts : List (Conditions × Call) :=
  [(.calm, .setShmmax 18446744073709551615), (.calm, .setThreadsMax 4096), (.calm, .setThreadsMax 5),
    (locked, .setShmmax 7)]

theorem runCalls_serves_attempts :
    let out : List (Event CoreError) × World Files :=
      runCalls (@Call.program littleEndian64 CoreError _ slashProc) attempts fiveFour
    lastSet setsShmmax out.1 = some 18446744073709551615 ∧
      lastSet setsThreadsMax out.1 = some 4096 ∧
      @Serves littleEndian64 CoreError _ slashProc fiveFour out.1 .calm out.2 := by
  refine ⟨by decide, by decide, @runCalls_serves littleEndian64 CoreError _ slashProc attempts
    (fun x mem file => ?_) fiveFour .calm fun _ => rfl⟩
  simp only [attempts, List.mem_cons, List.not_mem_nil, or_false] at mem
  rcases mem with rfl | rfl | rfl | rfl <;> rfl

end OneRun

end SysctlRuns
