import AsyncProcfs.Descriptors

/-!
# Tasks and the streams over numbered directories

A task is opened by its number below the process. `tasks` and `fds` run one
loop over two directories: of the numbered entries they yield what can be
built, in directory order, until a read error, which is their last item.
-/

namespace Tasks

open ProgramRuns EntryLoops Text IntText Procfs KernelVersion Processes Descriptors

structure Task where
  fd : File
  pid : Int32
  tid : Int32
  path : Path
  procfs : AsyncProcfs
  deriving DecidableEq, Repr

section Functions

variable {ε : Type} [ProcError ε]

def Task.fromProcessAt (process : Process) (tid : Int32) : Io ε Task := do
  let relativePath := joinPath "task" (display tid)
  let path := joinPath process.path relativePath
  let fd ← propagate (wrapIoError path
    (← sys (.openAt process.fd relativePath { customFlags := [.path, .directory] })))
  return { fd, pid := process.pid, tid, path, procfs := process.procfs }

/-- `Process::tasks`: the inner program is the stream, run to its end. -/
def tasks (self : Process) : Io ε (Async (List (Except ε Task))) := do
  let taskPath := joinPath self.path "task"
  let dirFd ← propagate (wrapIoError taskPath
    (← sys (.openAt self.fd "task" { read := true, customFlags := [.directory] })))
  let dirStream ← propagate (wrapIoError taskPath (← sys (.readDir dirFd)))
  return forAwait ProcError.fromIo (numbered (Task.fromProcessAt self : Int32 → Io ε Task))
    dirStream

end Functions

section Constructors

variable {ε : Type} [ProcError ε] {σ : Type} {S : System σ} {process : Process} {n : Int32}
  {w : World σ}

theorem fromProcessAt_task {task : Task}
    (ok : (exec (handle S) (Task.fromProcessAt process n : Io ε Task) w).1 = .ok task) :
    task.tid = n ∧ task.pid = process.pid := by
  rw [Task.fromProcessAt] at ok
  obtain ⟨_, -, ok⟩ := exec_bind_fst_eq_ok _ _ ok
  obtain ⟨fd, -, ok⟩ := exec_bind_fst_eq_ok _ _ ok
  cases ok
  exact ⟨rfl, rfl⟩

theorem fromProcessAt_fdInfo [Platform] {Target : Type} [FDTarget Target] {info : FDInfo Target}
    (ok : (exec (handle S)
      (FDInfo.fromProcessAt Target process n : Io ε (FDInfo Target)) w).1 = .ok info) :
    info.rawFd = n := by
  rw [FDInfo.fromProcessAt] at ok
  obtain ⟨kernel, -, ok⟩ := exec_bind_fst_eq_ok _ _ ok
  obtain ⟨_, -, ok⟩ := exec_bind_fst_eq_ok _ _ ok
  obtain ⟨file, -, ok⟩ := exec_bind_fst_eq_ok _ _ ok
  obtain ⟨_, -, ok⟩ := exec_bind_fst_eq_ok _ _ ok
  obtain ⟨link, -, ok⟩ := exec_bind_fst_eq_ok _ _ ok
  obtain ⟨_, -, ok⟩ := exec_bind_fst_eq_ok _ _ ok
  obtain ⟨metadata, -, ok⟩ := exec_bind_fst_eq_ok _ _ ok
  obtain ⟨text, -, ok⟩ := exec_bind_fst_eq_ok _ _ ok
  obtain ⟨target, -, ok⟩ := exec_bind_fst_eq_ok _ _ ok
  cases ok
  rfl

end Constructors

section Streams

variable {ε : Type} [ProcError ε] {σ : Type} (S : System σ) {α : Type}
  (construct : Int32 → Io ε α) (ident : α → Int32) (own : α → Prop)

/-- The results of reading a numbered directory: up to the first error the names are
distinct, and each is a number's own text or no number at all. -/
structure NumberedListing (entries : List (Except IoError Bytes)) : Prop where
  distinct : (values entries).Nodup
  numeric : ∀ name ∈ values entries, ∀ n, numberIn (toStringLossy name) = some n →
    name = encodeUtf8 (display n)

/-- The entries before the first error, with the states in which the loop reaches them. -/
def visited (entries : List (Except IoError Bytes)) (w : World σ) : List (Bytes × World σ) :=
  stages (handle S) (numbered construct) (values entries) w

/-- What can be built for an entry in the state it is reached in: nothing, unless it is
numbered. -/
def built (x : Bytes × World σ) : Option α :=
  (canonical x.1).bind fun n => (exec (handle S) (construct n) x.2).1.toOption

/-- What a stream over a numbered directory yields, run from a state. -/
structure Exact (entries : List (Except IoError Bytes)) (w : World σ)
    (items : List (Except ε α)) : Prop where
  order : (visited S construct entries w).map Prod.fst = values entries
  items : items = ((visited S construct entries w).filterMap (built S construct)).map .ok ++
    (failure entries).toList.map fun e => .error (ProcError.fromIo e)
  number : ∀ x ∈ visited S construct entries w, ∀ a, built S construct x = some a →
    canonical x.1 = some (ident a) ∧ own a
  once : (((visited S construct entries w).filterMap (built S construct)).map ident).Nodup

variable {S construct ident own} {entries : List (Except IoError Bytes)}

omit [ProcError ε] in
theorem yielded_eq_built (listing : NumberedListing entries) {x : Bytes × World σ}
    (mem : x.1 ∈ values entries) :
    yielded (handle S) (numbered construct) x =
      ((built S construct x).map .ok : Option (Except ε α)) := by
  rw [yielded_numbered, built, canonical]
  cases number : parse Int32 (toStringLossy x.1) with
  | error e => rfl
  | ok n =>
    have own_text := listing.numeric x.1 mem n (by rw [numberIn, number])
    dsimp only
    rw [if_pos own_text, Option.bind_some]
    cases (exec (handle S) (construct n) x.2).1 with
    | ok a => rfl
    | error e => rfl

/-- A run of the loop yields what its constructor can build. -/
theorem forAwait_exact (listing : NumberedListing entries)
    (constructed : ∀ n w a, (exec (handle S) (construct n) w).1 = .ok a → ident a = n ∧ own a)
    (w : World σ) :
    Exact S construct ident own entries w
      (run (handle S) (forAwait ProcError.fromIo (numbered construct) entries) w).1 := by
  have order : (visited S construct entries w).map Prod.fst = values entries :=
    map_fst_stages (handle S) (numbered construct) (values entries) w
  have number : ∀ x a, built S construct x = some a → canonical x.1 = some (ident a) ∧ own a := by
    intro x a made
    obtain ⟨n, name, made⟩ := Option.bind_eq_some_iff.mp made
    cases ran : (exec (handle S) (construct n) x.2).1 with
    | error e =>
      rw [ran] at made
      cases made
    | ok a' =>
      rw [ran] at made
      cases made
      obtain ⟨rfl, mine⟩ := constructed n x.2 a ran
      exact ⟨name, mine⟩
  refine ⟨order, ?_, fun x _ a made => number x a made, ?_⟩
  · rw [run_forAwait, List.map_filterMap]
    congr 1
    refine List.filterMap_congr fun x mem => yielded_eq_built listing ?_
    rw [← order]
    exact List.mem_map_of_mem mem
  · have distinct := listing.distinct
    rw [← order, List.Nodup, List.pairwise_map] at distinct
    rw [List.Nodup, List.pairwise_map]
    refine List.pairwise_filterMap.mpr (distinct.imp fun apart => ?_)
    intro a made a' made' same
    have name := canonical_eq_some_iff.mp (number _ a made).1
    have name' := canonical_eq_some_iff.mp (number _ a' made').1
    exact apart (by rw [name, name', same])

/-- A program opens and lists a directory of the process and gives an exact stream over it. -/
def StreamsExactly (S : System σ) (self : Process) (name : Path)
    (program : Io ε (Async (List (Except ε α)))) (construct : Int32 → Io ε α)
    (ident : α → Int32) (own : α → Prop) : Prop :=
  ∀ (w : World σ) (dir : File) (e₁ e₂ : σ) (entries : List (Except IoError Bytes)),
    S (.openAt self.fd name { read := true, customFlags := [.directory] }) w.env = (.ok dir, e₁) →
    S (.readDir dir) e₁ = (.ok entries, e₂) → NumberedListing entries →
    ∃ stream, exec (handle S) program w = (.ok stream, ⟨w.kernel, e₂⟩) ∧
      ∀ later, Exact S construct ident own entries later (run (handle S) stream later).1

/-- Opening, listing and looping make an exact stream, wherever their errors point to. -/
theorem streamsExactly (self : Process) (name path : Path)
    (constructed : ∀ n w a, (exec (handle S) (construct n) w).1 = .ok a → ident a = n ∧ own a) :
    StreamsExactly S self name (do
      let dir ← propagate (wrapIoError path
        (← sys (.openAt self.fd name { read := true, customFlags := [.directory] })))
      let dir ← propagate (wrapIoError path (← sys (.readDir dir)))
      return forAwait ProcError.fromIo (numbered construct) dir :
        Io ε (Async (List (Except ε α)))) construct ident own := by
  intro w dir e₁ e₂ entries opened listed listing
  refine ⟨_, ?_, forAwait_exact listing constructed⟩
  have list_dir := @run_sys_eq _ S _ ⟨w.kernel, e₁⟩ _ _ listed
  rw [exec_wrapped_ok (run_sys_eq opened), exec_wrapped_ok list_dir, exec_pure]

variable (ε) in
/-- Tasks are streamed under their thread numbers and with the process's number, descriptors
under their own numbers. -/
theorem streams_exact [Platform] (Target : Type) [FDTarget Target] (S : System σ)
    (self : Process) :
    StreamsExactly S self "task" (tasks self) (Task.fromProcessAt self : Int32 → Io ε Task)
        Task.tid (fun task => task.pid = self.pid) ∧
      StreamsExactly S self "fd" (fds Target self)
        (FDInfo.fromProcessAt Target self : Int32 → Io ε (FDInfo Target)) FDInfo.rawFd
        (fun _ => True) := by
  constructor
  · exact streamsExactly self "task" (joinPath self.path "task")
      fun n w task ok => fromProcessAt_task ok
  · exact streamsExactly self "fd" (joinPath self.path "fd")
      fun n w info ok => ⟨fromProcessAt_fdInfo ok, trivial⟩

end Streams

section VanishedThread

/-- Two numbers, of threads or of descriptors, and a listing that fails behind them. -/
def interrupted : List (Except IoError Bytes) :=
  [.ok (encodeUtf8 ".."), .ok (encodeUtf8 "28"), .ok (encodeUtf8 "27"),
    .error (.os .permissionDenied)]

/-- The thread 28 is gone when it is opened, and so is the descriptor. -/
def vanishedThread : (op : SysOp) → op.Res
  | .openAt dir path options =>
    if path = "task/28".toList ∨ path = "fd/28".toList then .error (.os .notFound)
    else bare (.openAt dir path options)
  | .readLink _ => .ok (encodeUtf8 "/dev/null")
  | .metadataAt _ _ => .ok ⟨0o500, 64, 1000⟩
  | .readDir _ => .ok interrupted
  | op => bare op

theorem numberedListing_interrupted : NumberedListing interrupted where
  distinct := by decide
  numeric name mem n number := by
    have own : ∀ name ∈ values interrupted, (numberIn (toStringLossy name)).all
        (fun n => name = encodeUtf8 (display n)) = true := by decide
    have own := own name mem
    rw [number] at own
    exact of_decide_eq_true own

theorem streams_exact_vanishedThread :
    (∃ stream, (exec (handle (fixed vanishedThread)) (tasks twentySeven : Io CoreError _)
          ⟨0, ()⟩).1 = .ok stream ∧
        (run (handle (fixed vanishedThread)) stream ⟨0, ()⟩).1 = [
          .ok { fd := ⟨"/proc/27/task/27"⟩, pid := 27, tid := 27, path := "/proc/27/task/27",
                procfs := slashProc },
          .error (.permissionDenied none)]) ∧
      ∃ stream, (exec (handle (fixed vanishedThread))
          (@fds littleEndian64 CoreError _ Str _ twentySeven) ⟨0, ()⟩).1 = .ok stream ∧
        (run (handle (fixed vanishedThread)) stream ⟨0, ()⟩).1 = [
          .ok { rawFd := 27, mode := 0o500, target := "/dev/null".toList },
          .error (.permissionDenied none)] := by
  let _ := littleEndian64
  obtain ⟨threads, descriptors⟩ := streams_exact CoreError Str (fixed vanishedThread) twentySeven
  constructor
  · obtain ⟨stream, ran, yields⟩ := threads ⟨0, ()⟩ _ _ _ _ rfl rfl numberedListing_interrupted
    refine ⟨stream, congrArg Prod.fst ran, ?_⟩
    rw [(yields _).items]
    decide
  · obtain ⟨stream, ran, yields⟩ := descriptors ⟨0, ()⟩ _ _ _ _ rfl rfl numberedListing_interrupted
    refine ⟨stream, congrArg Prod.fst ran, ?_⟩
    rw [(yields _).items]
    decide

end VanishedThread

end Tasks
