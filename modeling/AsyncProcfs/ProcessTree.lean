import AsyncProcfs.Tasks

/-!
# Walking all processes and their tasks

A client takes the stream of all processes and then the stream of each one's
tasks, while the kernel goes on. Every thread turns up at most once, under its
own numbers, and with the path it has below the root.
-/

namespace ProcessTree

open ProgramRuns EntryLoops Text IntText Procfs KernelVersion Processes Descriptors Tasks

/-- The values among a stream's items. -/
def found {ε α : Type} (items : List (Except ε α)) : List α := items.filterMap Except.toOption

theorem found_append {E ε α : Type} (convert : E → ε) (as : List α) (failed : Option E) :
    found (as.map .ok ++ failed.toList.map fun e => .error (convert e)) = as := by
  have oks : (as.map .ok : List (Except ε α)).filterMap Except.toOption = as := by
    rw [List.filterMap_map]
    exact List.filterMap_some
  rw [found, List.filterMap_append, oks]
  cases failed with
  | none => exact List.append_nil as
  | some e => exact List.append_nil as

section Clients

variable (ε : Type) [ProcError ε]

/-- The tasks of one process, none where they cannot be listed. -/
def tasksOf (p : Process) : Async (List Task) := do
  let listed ← (tasks p >>= fun stream => liftM stream : Io ε (List (Except ε Task))).run
  return match listed with
    | .ok items => found items
    | .error _ => []

def tasksOfAll : List Process → Async (List Task)
  | [] => pure []
  | p :: rest => do
    let own ← tasksOf ε p
    let others ← tasksOfAll rest
    return own ++ others

def walk [Platform] (procfs : AsyncProcfs) : Io ε (List Task) := do
  let items ← allProcesses procfs >>= fun stream => liftM stream
  liftM (tasksOfAll ε (found items))

end Clients

section Places

variable {ε : Type} [ProcError ε] {σ : Type} {S : System σ}

/-- Where a process of an instance is. -/
def PlacedAt (procfs : AsyncProcfs) (p : Process) : Prop :=
  p.procfs = procfs ∧ p.path = joinPath procfs.root (display p.pid)

/-- Where a task of an instance is. -/
def ThreadAt (procfs : AsyncProcfs) (t : Task) : Prop :=
  t.procfs = procfs ∧ t.path =
    joinPath (joinPath procfs.root (display t.pid)) (joinPath "task" (display t.tid))

theorem new_placed [Platform] {procfs : AsyncProcfs} {n : Int32} {w : World σ} {p : Process}
    (ok : (exec (handle S) (Process.new procfs n : Io ε Process) w).1 = .ok p) :
    p.pid = n ∧ PlacedAt procfs p := by
  have pid := new_pid S ok
  rw [Process.new, Process.newWithPath] at ok
  obtain ⟨_, -, ok⟩ := exec_bind_fst_eq_ok _ _ ok
  obtain ⟨_, -, ok⟩ := exec_bind_fst_eq_ok _ _ ok
  obtain ⟨_, -, ok⟩ := exec_bind_fst_eq_ok _ _ ok
  obtain ⟨resolved, -, ok⟩ := exec_bind_fst_eq_ok _ _ ok
  cases resolved with
  | none => cases ok
  | some n' =>
    cases ok
    refine ⟨pid, rfl, ?_⟩
    rw [← pid]

theorem task_placed {procfs : AsyncProcfs} {p : Process} (placed : PlacedAt procfs p) {n : Int32}
    {w : World σ} {t : Task}
    (ok : (exec (handle S) (Task.fromProcessAt p n : Io ε Task) w).1 = .ok t) :
    t.tid = n ∧ t.pid = p.pid ∧ ThreadAt procfs t := by
  rw [Task.fromProcessAt] at ok
  obtain ⟨_, -, ok⟩ := exec_bind_fst_eq_ok _ _ ok
  obtain ⟨fd, -, ok⟩ := exec_bind_fst_eq_ok _ _ ok
  cases ok
  refine ⟨rfl, rfl, placed.1, ?_⟩
  rw [← placed.2]

end Places

section Streams

variable {ε : Type} [ProcError ε] {σ : Type} {S : System σ} {α : Type}

/-- Every directory that is listed has entries that are numbers or no numbers, each once. -/
def Numbers (S : System σ) : Prop :=
  ∀ dir e entries, (S (.readDir dir) e).1 = .ok entries → NumberedListing entries

/-- The values of a stream over a directory that a program opens and lists. -/
theorem stream_once (numbers : Numbers S) {dir : File} {name : Path} {options : OpenOptions}
    {path path' : Path} {construct : Int32 → Io ε α} {ident : α → Int32} {own : α → Prop}
    (constructed : ∀ n w a, (exec (handle S) (construct n) w).1 = .ok a → ident a = n ∧ own a)
    {w : World σ} {items : List (Except ε α)}
    (ok : (exec (handle S) ((do
      let dir ← propagate (wrapIoError path (← sys (.openAt dir name options)))
      let dir ← propagate (wrapIoError path' (← sys (.readDir dir)))
      return forAwait ProcError.fromIo (numbered construct) dir :
        Io ε (Async (List (Except ε α)))) >>= fun stream => liftM stream) w).1 = .ok items) :
    ((found items).map ident).Nodup ∧ ∀ a ∈ found items, own a := by
  simp only [bind_assoc, pure_bind] at ok
  obtain ⟨_, -, ok⟩ := exec_bind_fst_eq_ok _ _ ok
  obtain ⟨opened, -, ok⟩ := exec_bind_fst_eq_ok _ _ ok
  obtain ⟨r, listed, ok⟩ := exec_bind_fst_eq_ok _ _ ok
  obtain ⟨entries, kept, ok⟩ := exec_bind_fst_eq_ok _ _ ok
  rw [exec_lift] at listed ok
  cases r with
  | error e => cases kept
  | ok entries' =>
    cases kept
    have listing := numbers _ _ _ (Except.ok.inj listed)
    rw [exec_lift] at ok
    cases ok
    have streams : ∀ w, Exact S construct ident own entries w _ :=
      forAwait_exact listing constructed
    rw [(streams _).items, found_append]
    refine ⟨(streams _).once, fun a mem => ?_⟩
    obtain ⟨x, visited, made⟩ := List.mem_filterMap.mp mem
    exact ((streams _).number x visited a made).2

variable (ε) in
theorem tasksOf_once (numbers : Numbers S) {procfs : AsyncProcfs} {p : Process}
    (placed : PlacedAt procfs p) (w : World σ) :
    (((run (handle S) (tasksOf ε p) w).1).map Task.tid).Nodup ∧
      ∀ t ∈ (run (handle S) (tasksOf ε p) w).1, t.pid = p.pid ∧ ThreadAt procfs t := by
  have answer : (run (handle S) (tasksOf ε p) w).1 =
      match (exec (handle S) (tasks p >>= fun stream => liftM stream : Io ε _) w).1 with
      | .ok items => found items
      | .error _ => [] := by
    rw [tasksOf, run_bind]
    rfl
  rw [answer]
  cases listed : (exec (handle S) (tasks p >>= fun stream => liftM stream : Io ε _) w).1 with
  | error e => exact ⟨List.nodup_nil, by simp⟩
  | ok items => exact stream_once numbers (fun n w t ok => task_placed placed ok) listed

variable (ε) in
theorem tasksOfAll_once (numbers : Numbers S) {procfs : AsyncProcfs} {ps : List Process}
    (distinct : (ps.map Process.pid).Nodup) (placed : ∀ p ∈ ps, PlacedAt procfs p)
    (w : World σ) :
    (((run (handle S) (tasksOfAll ε ps) w).1).map fun t => (t.pid, t.tid)).Nodup ∧
      ∀ t ∈ (run (handle S) (tasksOfAll ε ps) w).1,
        t.pid ∈ ps.map Process.pid ∧ ThreadAt procfs t := by
  induction ps generalizing w with
  | nil => exact ⟨List.nodup_nil, by simp [tasksOfAll]⟩
  | cons p rest ih =>
    rw [List.map_cons, List.nodup_cons] at distinct
    obtain ⟨p_placed, rest_placed⟩ := List.forall_mem_cons.mp placed
    obtain ⟨own, own_at⟩ := tasksOf_once ε numbers p_placed w
    obtain ⟨others, others_at⟩ := ih distinct.2 rest_placed (run (handle S) (tasksOf ε p) w).2
    simp only [tasksOfAll, run_bind, run_pure]
    refine ⟨?_, fun t mem => ?_⟩
    · rw [List.map_append, List.nodup_append]
      refine ⟨?_, others, ?_⟩
      · rw [List.Nodup, List.pairwise_map] at own ⊢
        exact own.imp fun apart same => apart (congrArg Prod.snd same)
      · intro _ mine _ other same
        obtain ⟨t, t_own, rfl⟩ := List.mem_map.mp mine
        obtain ⟨t', t'_other, rfl⟩ := List.mem_map.mp other
        have elsewhere := (others_at t' t'_other).1
        have pid : t'.pid = p.pid := (congrArg Prod.fst same).symm.trans (own_at t t_own).1
        rw [pid] at elsewhere
        exact distinct.1 elsewhere
    · rcases List.mem_append.mp mem with mem | mem
      · obtain ⟨pid, at_place⟩ := own_at t mem
        exact ⟨List.mem_cons.mpr (.inl pid), at_place⟩
      · obtain ⟨pid, at_place⟩ := others_at t mem
        exact ⟨List.mem_cons_of_mem _ pid, at_place⟩

/-- Every thread turns up at most once in a walk, under the numbers and at the place it has. -/
theorem walk_once [Platform] (numbers : Numbers S) {procfs : AsyncProcfs} {w : World σ}
    {threads : List Task} (ok : (exec (handle S) (walk ε procfs) w).1 = .ok threads) :
    (threads.map fun t => (t.pid, t.tid)).Nodup ∧ ∀ t ∈ threads, ThreadAt procfs t := by
  rw [walk] at ok
  obtain ⟨items, streamed, ok⟩ := exec_bind_fst_eq_ok _ _ ok
  obtain ⟨distinct, placed⟩ := stream_once numbers (fun n w p ok => new_placed ok) streamed
  rw [exec_lift] at ok
  cases ok
  obtain ⟨once, at_place⟩ := tasksOfAll_once ε numbers distinct placed _
  exact ⟨once, fun t mem => (at_place t mem).2⟩

end Streams

/-- Every listing breaks off behind two numbers, and one thread is gone when it is opened. -/
theorem walk_once_vanishedThread :
    ∃ threads, (exec (handle (fixed vanishedThread)) (@walk CoreError _ littleEndian64 slashProc)
        ⟨0, ()⟩).1 = .ok threads ∧
      threads.map (fun t => (t.pid, t.tid)) = [(28, 27), (27, 27)] ∧
      (threads.map fun t => (t.pid, t.tid)).Nodup ∧ ∀ t ∈ threads, ThreadAt slashProc t := by
  have numbers : Numbers (fixed vanishedThread) := by
    intro dir e entries listed
    cases listed
    exact numberedListing_interrupted
  have walked : (exec (handle (fixed vanishedThread))
      (@walk CoreError _ littleEndian64 slashProc) ⟨0, ()⟩).1 = .ok [
        ⟨⟨"/proc/28/task/27"⟩, 28, 27, "/proc/28/task/27", slashProc⟩,
        ⟨⟨"/proc/27/task/27"⟩, 27, 27, "/proc/27/task/27", slashProc⟩] := by decide
  exact ⟨_, walked, rfl, @walk_once CoreError _ _ _ littleEndian64 numbers _ _ _ walked⟩

end ProcessTree
