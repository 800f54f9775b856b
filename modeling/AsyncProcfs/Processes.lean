import AsyncProcfs.EntryLoops
import AsyncProcfs.KernelVersion

/-!
# Processes and the stream of all of them

A process is opened by its number under the root. `all_processes` lists the
root and tries every name that parses as a number: a process that cannot be
constructed is skipped, although the documentation promises its error, and a
name that parses without being the number's own text is tried as well.
-/

namespace Processes

open ProgramRuns EntryLoops Text IntText Procfs KernelVersion

structure Process where
  fd : File
  pid : Int32
  path : Path
  procfs : AsyncProcfs
  deriving DecidableEq, Repr

/-- The last of a path's `components`, if it is a normal one. -/
def lastNormal (path : Path) : Option Str :=
  match ((path.splitOn '/').filter fun c => c ≠ [] ∧ c ≠ ['.']).getLast? with
  | some c => if c = ['.', '.'] then none else some c
  | none => none

def numberIn (s : Str) : Option Int32 :=
  match parse Int32 s with
  | .ok pid => some pid
  | .error _ => none

section Functions

variable [Platform] {ε : Type} [ProcError ε]

/-- The choice of flags by the kernel version; an unknown version counts as a new one. -/
def before36 (kernel : Except ε Version) : Prop :=
  match kernel with
  | .ok v => v < ⟨3, 6, 0⟩
  | .error _ => False

instance (kernel : Except ε Version) : Decidable (before36 kernel) :=
  match kernel with
  | .ok v => inferInstanceAs (Decidable (v < _))
  | .error _ => inferInstanceAs (Decidable False)

/-- The pid a path stands for: its last component, or else the link it is. -/
def resolvePid (procfs : AsyncProcfs) (relativePath : Path) : Async (Option Int32) :=
  match (lastNormal relativePath).bind numberIn with
  | some pid => pure (some pid)
  | none => do
    let link ← sys (.readLinkAt procfs.file relativePath)
    return match link with
      | .ok s => numberIn (toStringLossy s)
      | .error _ => none

namespace Process

def newWithPath (procfs : AsyncProcfs) (relativePath : Path) : Io ε Process := do
  let kernel ← attempt (Version.cached procfs : Io ε Version)
  let flags : List OFlag :=
    if before36 kernel then [.directory, .cloexec] else [.path, .directory, .cloexec]
  let file ← propagate (wrapIoError relativePath
    (← sys (.openAt procfs.file relativePath { read := true, customFlags := flags })))
  match ← resolvePid procfs relativePath with
  | some pid => return { fd := file, pid, path := joinPath procfs.root relativePath, procfs }
  | none => throw (ProcError.notFound (some relativePath))

def new (procfs : AsyncProcfs) (pid : Int32) : Io ε Process :=
  newWithPath procfs (display pid)

def myself (procfs : AsyncProcfs) : Io ε Process := newWithPath procfs "self"

end Process

/-- The body of the loops over numbered entries: a name that is no number, or whose object
cannot be constructed, yields nothing. -/
def numbered {α : Type} (construct : Int32 → Io ε α) (name : Bytes) : Async (Option α) :=
  match parse Int32 (toStringLossy name) with
  | .ok n => do
    let constructed ← (construct n).run
    return match constructed with
      | .ok a => some a
      | .error _ => none
  | .error _ => pure none

/-- `all_processes`: the inner program is the stream, run to its end. -/
def allProcesses (procfs : AsyncProcfs) : Io ε (Async (List (Except ε Process))) := do
  let dirClone ← propagate (wrapIoError (joinPath procfs.root ".")
    (← sys (.openAt procfs.file "." { read := true, customFlags := [.directory] })))
  let dirClone ← propagate (wrapIoError (joinPath procfs.root ".") (← sys (.readDir dirClone)))
  return forAwait ProcError.fromIo (numbered (Process.new procfs : Int32 → Io ε Process)) dirClone

end Functions

section Pids

theorem lastNormal_display (pid : Int32) : lastNormal (display pid) = some (display pid) := by
  have absent {c : Char} (sign : c ≠ '-') (nondigit : ¬ c.isDigit) : c ∉ display pid :=
    fun mem => (mem_display mem).elim sign nondigit
  have dotless : '.' ∉ display pid := absent (by decide) (by decide)
  have notDot : display pid ≠ ['.'] := fun same => dotless (by simp [same])
  have notDots : display pid ≠ ['.', '.'] := fun same => dotless (by simp [same])
  rw [lastNormal, List.splitOn_eq_singleton (absent (by decide) (by decide))]
  simp [display_ne_nil, notDot, notDots]

variable [Platform] {ε : Type} [ProcError ε] {σ : Type} (S : System σ)

theorem new_pid {procfs : AsyncProcfs} {pid : Int32} {w : World σ} {p : Process}
    (ok : (exec (handle S) (Process.new procfs pid : Io ε Process) w).1 = .ok p) :
    p.pid = pid := by
  have resolved (w : World σ) : run (handle S) (resolvePid procfs (display pid)) w =
      (some pid, w) := by
    rw [resolvePid, lastNormal_display]
    simp [numberIn]
  rw [Process.new, Process.newWithPath, exec_bind, exec_attempt] at ok
  simp only [exec_bind, exec_lift, resolved, propagate, exec_ofOutcome] at ok
  split at ok
  · cases ok
    rfl
  · cases ok

end Pids

section Streams

variable [Platform] {ε : Type} [ProcError ε] {σ : Type} (S : System σ)

omit [Platform] [ProcError ε] in
/-- The items of a loop over numbered entries. -/
theorem yielded_numbered {α : Type} (construct : Int32 → Io ε α) (x : Bytes × World σ) :
    (yielded (handle S) (numbered construct) x : Option (Except ε α)) =
      match parse Int32 (toStringLossy x.1) with
      | .ok n => match (exec (handle S) (construct n) x.2).1 with
        | .ok a => some (.ok a)
        | .error _ => none
      | .error _ => none := by
  rw [yielded, numbered]
  cases parse Int32 (toStringLossy x.1) with
  | error e => rfl
  | ok n =>
    simp only [run_bind, run_pure]
    change Option.map Except.ok (match (exec (handle S) (construct n) x.2).1 with
      | .ok a => some a
      | .error _ => none) = _
    cases (exec (handle S) (construct n) x.2).1 with
    | ok a => rfl
    | error e => rfl

/-- The number whose canonical decimal text a name is. -/
def canonical (name : Bytes) : Option Int32 :=
  match parse Int32 (toStringLossy name) with
  | .ok pid => if name = encodeUtf8 (display pid) then some pid else none
  | .error _ => none

omit [Platform] in
theorem canonical_eq_some_iff {name : Bytes} {pid : Int32} :
    canonical name = some pid ↔ name = encodeUtf8 (display pid) := by
  constructor
  · intro found
    rw [canonical] at found
    split at found
    · split at found
      · rename_i same
        cases found
        exact same
      · cases found
    · cases found
  · rintro rfl
    rw [canonical, toStringLossy_encodeUtf8, parse_display]
    exact if_pos rfl

variable (ε) (procfs : AsyncProcfs)

/-- The item the documentation promises for an entry: whatever constructing it gives. -/
def promised (x : Bytes × World σ) : Option (Except ε Process) :=
  (canonical x.1).map fun pid => (exec (handle S) (Process.new procfs pid) x.2).1

/-- The entries of a listing, with the states in which the loop reaches them. -/
def reached (names : List Bytes) (w : World σ) : List (Bytes × World σ) :=
  stages (handle S) (numbered (Process.new procfs : Int32 → Io ε Process)) names w

/-- What the documentation of `all_processes` says of a stream run from a state. -/
structure Documented (names : List Bytes) (stream : Async (List (Except ε Process)))
    (w : World σ) : Prop where
  items : (run (handle S) stream w).1 =
    (reached ε S procfs names w).filterMap (promised ε S procfs)
  pids : ∀ x ∈ reached ε S procfs names w, ∀ pid, canonical x.1 = some pid →
    ∀ p, promised ε S procfs x = some (.ok p) → p.pid = pid

/-- The loop does as documented when, of the names that parse, exactly those that are a
number's own text belong to a process that can be constructed. -/
def Openable (names : List Bytes) (w : World σ) : Prop :=
  ∀ x ∈ reached ε S procfs names w, ∀ pid, parse Int32 (toStringLossy x.1) = .ok pid →
    (x.1 = encodeUtf8 (display pid) ↔
      ∃ p, (exec (handle S) (Process.new procfs pid : Io ε Process) x.2).1 = .ok p)

theorem yielded_eq_promised_iff (x : Bytes × World σ) :
    yielded (handle S) (numbered (Process.new procfs : Int32 → Io ε Process)) x =
        promised ε S procfs x ↔
      ∀ pid, parse Int32 (toStringLossy x.1) = .ok pid →
        (x.1 = encodeUtf8 (display pid) ↔
          ∃ p, (exec (handle S) (Process.new procfs pid : Io ε Process) x.2).1 = .ok p) := by
  rw [yielded_numbered, promised, canonical]
  cases parse Int32 (toStringLossy x.1) with
  | error e => simp
  | ok pid =>
    simp only [Except.ok.injEq, forall_eq']
    by_cases own : x.1 = encodeUtf8 (display pid)
    · rw [if_pos own, Option.map_some]
      cases (exec (handle S) (Process.new procfs pid : Io ε Process) x.2).1 with
      | ok p => simp [own]
      | error e => simp [own]
    · rw [if_neg own, Option.map_none]
      cases (exec (handle S) (Process.new procfs pid : Io ε Process) x.2).1 with
      | ok p => simp [own]
      | error e => simp [own]

theorem documented_iff (names : List Bytes) (w : World σ) :
    Documented ε S procfs names (forAwait ProcError.fromIo
        (numbered (Process.new procfs : Int32 → Io ε Process)) (names.map .ok)) w ↔
      Openable ε S procfs names w := by
  have items := run_forAwait (handle S) (ProcError.fromIo : IoError → ε)
    (numbered (Process.new procfs : Int32 → Io ε Process)) (names.map .ok) w
  rw [values_map_ok, failure_map_ok, Option.toList_none, List.map_nil, List.append_nil] at items
  have entries := filterMap_eq_iff
    (yielded (handle S) (numbered (Process.new procfs : Int32 → Io ε Process)))
    (promised ε S procfs) (fun item => ∃ p, item = .ok p) ?_ ?_ (reached ε S procfs names w)
  · simp only [yielded_eq_promised_iff] at entries
    constructor
    · exact fun documented => entries.mp (items.symm.trans documented.items)
    · intro openable
      refine ⟨items.trans (entries.mpr openable), fun x _ pid own p made => ?_⟩
      rw [promised, own] at made
      exact new_pid S (Option.some.inj made)
  · intro x item found
    rw [yielded, Option.map_eq_some_iff] at found
    obtain ⟨p, -, rfl⟩ := found
    exact ⟨p, rfl⟩
  · rintro x item found ⟨p, rfl⟩
    rw [promised, Option.map_eq_some_iff] at found
    obtain ⟨pid, own, made⟩ := found
    rw [yielded_numbered, canonical_eq_some_iff.mp own, toStringLossy_encodeUtf8, parse_display]
    simp only [made]

variable {ε S procfs}

/-- Once the root is opened and listed, the stream does as documented exactly when every
name that is a number's own text belongs to a process that can be constructed, and no other
name that parses does. -/
theorem allProcesses_documented_iff {w : World σ} {dir : File} {e₁ e₂ : σ} {names : List Bytes}
    (opened : S (.openAt procfs.file "." { read := true, customFlags := [.directory] }) w.env =
      (.ok dir, e₁))
    (listed : S (.readDir dir) e₁ = (.ok (names.map .ok), e₂)) :
    ∃ stream, exec (handle S) (allProcesses procfs : Io ε _) w = (.ok stream, ⟨w.kernel, e₂⟩) ∧
      ∀ later, Documented ε S procfs names stream later ↔ Openable ε S procfs names later := by
  refine ⟨_, ?_, documented_iff ε S procfs names⟩
  have list_dir := @run_sys_eq _ S _ ⟨w.kernel, e₁⟩ _ _ listed
  rw [allProcesses, exec_wrapped_ok (run_sys_eq opened), exec_wrapped_ok list_dir, exec_pure]

end Streams

/-- Process 27 of `/proc`. -/
def twentySeven : Process where
  fd := ⟨"/proc/27"⟩
  pid := 27
  path := "/proc/27"
  procfs := slashProc

section OneDenied

/-- A root with two processes, one of which may not be opened. -/
def oneDenied : (op : SysOp) → op.Res
  | .openAt dir path options =>
    if path = ['1'] then .error (.os .permissionDenied) else bare (.openAt dir path options)
  | .readToEnd _ => .ok (encodeUtf8 "5.4.0-42\n")
  | .readDir _ => .ok ([encodeUtf8 "1", encodeUtf8 "self", encodeUtf8 "27"].map .ok)
  | op => bare op

theorem allProcesses_documented_iff_oneDenied :
    ∃ stream,
      exec (handle (fixed oneDenied)) (@allProcesses littleEndian64 CoreError _ slashProc)
        ⟨0, ()⟩ = (.ok stream, ⟨0, ()⟩) ∧
      ∀ later,
        @Documented littleEndian64 CoreError _ _ (fixed oneDenied) slashProc
            [encodeUtf8 "1", encodeUtf8 "self", encodeUtf8 "27"] stream later ↔
          @Openable littleEndian64 CoreError _ _ (fixed oneDenied) slashProc
            [encodeUtf8 "1", encodeUtf8 "self", encodeUtf8 "27"] later :=
  @allProcesses_documented_iff littleEndian64 CoreError _ _ _ _ _ _ _ _ _ rfl rfl

/-- The process that may not be opened is missing from the stream. -/
theorem allProcesses_drops_denied :
    ¬ ∀ stream,
      (exec (handle (fixed oneDenied)) (@allProcesses littleEndian64 CoreError _ slashProc)
        ⟨0, ()⟩).1 = .ok stream →
      @Documented littleEndian64 CoreError _ _ (fixed oneDenied) slashProc
        [encodeUtf8 "1", encodeUtf8 "self", encodeUtf8 "27"] stream ⟨0, ()⟩ := by
  let _ := littleEndian64
  intro claim
  have items := (claim _ rfl).items
  revert items
  decide

end OneDenied

end Processes
