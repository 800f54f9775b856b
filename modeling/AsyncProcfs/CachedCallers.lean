import AsyncProcfs.CachedHistories
import AsyncProcfs.Interleavings

/-!
# Concurrent cached lookups

Any number of callers of `Version.cached` interleave their loads, reads and
stores. A caller's own part of the log has one of eight shapes; with the log's
agreement with the static this gives what every caller may return.
-/

namespace CachedCallers

open ProgramRuns Cells Interleavings Text Procfs KernelVersion CachedHistories

variable {ι : Type}

section Memory

/-- The static is one atomic word; the file library may answer anything. -/
def memory : Effects Op.Res UInt32
  | .load, s, r, s' => r = s ∧ s' = s
  | .store value, _, _, s' => s' = value
  | .sys _, s, _, s' => s' = s

/-- The value a logged request stores in the static. -/
def stores (e : Event ι Op.Res) : Option UInt32 :=
  match e.op with
  | .store value => some value
  | _ => none

/-- The static holds the last value stored. -/
theorem memory_lastWrite {s t : UInt32} {log : List (Event ι Op.Res)}
    (path : Path memory s log t) : t = lastWrite stores s log := by
  refine path_lastWrite id (fun op => match op with
    | .store value => some value
    | _ => none) (fun op s r s' allowed => ?_) path
  cases op with
  | load => exact allowed.2
  | store value => exact allowed
  | sys op => exact allowed

theorem lastWrite_stores {s : UInt32} {log : List (Event ι Op.Res)}
    (full : lastWrite stores s log ≠ s) :
    ∃ j, ⟨j, .store (lastWrite stores s log), ()⟩ ∈ log := by
  rcases lastWrite_mem stores s log with empty | ⟨⟨j, op, reply⟩, mem, value⟩
  · exact absurd empty full
  · cases op with
    | store value' =>
      cases value
      exact ⟨j, mem⟩
    | load => cases value
    | sys op => cases value

end Memory

section Lookups

variable [Platform] {ε : Type}

section Steps

variable [ProcError ε]

/-- What is left after the load, the open and the read, by the reply. -/
def afterRead (procfs : AsyncProcfs) (reply : Except IoError Bytes) :
    Prog Op.Res (Except ε Version) :=
  match textOf reply with
  | .error e => .done (.error (ProcError.errorPath (ProcError.fromIo e)
      (joinPath procfs.root release)))
  | .ok s => match Version.fromStr (trim s) with
    | .error e => .done (.error (ProcError.fromStr e))
    | .ok v => .call (.store v.toU32) fun _ => .done (.ok v)

def afterOpen (procfs : AsyncProcfs) (opened : Except IoError File) :
    Prog Op.Res (Except ε Version) :=
  match opened with
  | .error e => .done (.error (ProcError.errorPath (ProcError.fromIo e)
      (joinPath procfs.root release)))
  | .ok file => .call (.sys (.readToEnd file)) (afterRead procfs)

def afterLoad (procfs : AsyncProcfs) (kernel : UInt32) : Prog Op.Res (Except ε Version) :=
  if kernel = Version.sentinel then
    .call (.sys (.openAt procfs.file release { read := true })) (afterOpen procfs)
  else .done (.ok (Version.fromU32 kernel))

/-- `Version.cached` step by step. -/
theorem cached_run (procfs : AsyncProcfs) :
    (Version.cached procfs : Io ε Version).run = .call .load (afterLoad procfs) := by
  refine congrArg (Prog.call Op.load) (funext fun kernel => ?_)
  by_cases empty : kernel = Version.sentinel
  · subst empty
    refine congrArg (Prog.call (Op.sys _)) (funext fun opened => ?_)
    cases opened with
    | error e => rfl
    | ok file =>
      refine congrArg (Prog.call (Op.sys _)) (funext fun reply => ?_)
      change Prog.bind (Prog.bind (ofOutcome
        (errorPath (joinPath procfs.root release) (textOf reply)) : Io ε Str).run
          (ExceptT.bindCont fun s =>
            ofOutcome ((Version.fromStr (trim s)).mapError ProcError.fromStr)))
          (ExceptT.bindCont _) = _
      rw [afterRead]
      cases textOf reply with
      | error e => rfl
      | ok s =>
        change Prog.bind (ofOutcome ((Version.fromStr (trim s)).mapError ProcError.fromStr) :
          Io ε Version).run (ExceptT.bindCont _) = _
        dsimp only
        cases Version.fromStr (trim s) with
        | error e => rfl
        | ok v =>
          change Prog.call (Op.store v.toU32)
            (fun _ => Prog.done (Except.ok (Version.fromU32 v.toU32))) = _
          rw [Version.fromU32_toU32]
  · rw [afterLoad, if_neg empty]
    change (ExceptT.run (if kernel = Version.sentinel then _ else _)) = _
    rw [if_neg empty]
    rfl

end Steps

section Shapes

/-- The eight shapes of one caller's events, with what each leaves to do or returns. -/
inductive Shape : List (Sigma Op.Res) → Prog Op.Res (Except ε Version) → Prop
  | idle {op next} : Shape [] (.call op next)
  | hit (kernel : UInt32) (full : kernel ≠ Version.sentinel) :
      Shape [⟨.load, kernel⟩] (.done (.ok (Version.fromU32 kernel)))
  | miss {op next} : Shape [⟨.load, Version.sentinel⟩] (.call op next)
  | unopened (dir : File) (path : Path) (options : OpenOptions) (e : IoError) (err : ε) :
      Shape [⟨.load, Version.sentinel⟩, ⟨.sys (.openAt dir path options), .error e⟩]
        (.done (.error err))
  | opened (dir : File) (path : Path) (options : OpenOptions) (file : File) {op next} :
      Shape [⟨.load, Version.sentinel⟩, ⟨.sys (.openAt dir path options), .ok file⟩]
        (.call op next)
  | unread (dir : File) (path : Path) (options : OpenOptions) (file : File)
      (reply : Except IoError Bytes) (bad : versionIn reply = none) (err : ε) :
      Shape [⟨.load, Version.sentinel⟩, ⟨.sys (.openAt dir path options), .ok file⟩,
        ⟨.sys (.readToEnd file), reply⟩] (.done (.error err))
  | read (dir : File) (path : Path) (options : OpenOptions) (file : File)
      (reply : Except IoError Bytes) (v : Version) (good : versionIn reply = some v) {op next} :
      Shape [⟨.load, Version.sentinel⟩, ⟨.sys (.openAt dir path options), .ok file⟩,
        ⟨.sys (.readToEnd file), reply⟩] (.call op next)
  | stored (dir : File) (path : Path) (options : OpenOptions) (file : File)
      (reply : Except IoError Bytes) (v : Version) (good : versionIn reply = some v) :
      Shape [⟨.load, Version.sentinel⟩, ⟨.sys (.openAt dir path options), .ok file⟩,
        ⟨.sys (.readToEnd file), reply⟩, ⟨.store v.toU32, ()⟩] (.done (.ok v))

theorem caller_shape [ProcError ε] {procfs : AsyncProcfs} {events : List (Sigma Op.Res)}
    {q : Prog Op.Res (Except ε Version)}
    (left : Residual (Version.cached procfs : Io ε Version).run events q) : Shape events q := by
  rw [cached_run, residual_call_iff] at left
  obtain ⟨rfl, rfl⟩ | ⟨kernel, rest, rfl, left⟩ := left
  · exact .idle
  by_cases full : kernel ≠ Version.sentinel
  · rw [afterLoad, if_neg full, residual_done_iff] at left
    obtain ⟨rfl, rfl⟩ := left
    exact .hit kernel full
  obtain rfl : kernel = Version.sentinel := not_not.mp full
  rw [afterLoad, if_pos rfl, residual_call_iff] at left
  obtain ⟨rfl, rfl⟩ | ⟨opened, rest, rfl, left⟩ := left
  · exact .miss
  cases opened with
  | error e =>
    obtain ⟨rfl, rfl⟩ := residual_done_iff.mp left
    exact .unopened _ _ _ e _
  | ok file =>
    rw [afterOpen, residual_call_iff] at left
    obtain ⟨rfl, rfl⟩ | ⟨reply, rest, rfl, left⟩ := left
    · exact .opened _ _ _ file
    rw [afterRead] at left
    cases text : textOf reply with
    | error e =>
      rw [text, residual_done_iff] at left
      obtain ⟨rfl, rfl⟩ := left
      exact .unread _ _ _ file reply (by simp [versionIn, text]) _
    | ok s =>
      cases parsed : Version.fromStr (trim s) with
      | error e =>
        simp only [text, parsed, residual_done_iff] at left
        obtain ⟨rfl, rfl⟩ := left
        exact .unread _ _ _ file reply (by simp [versionIn, text, parsed]) _
      | ok v =>
        have good : versionIn reply = some v := by simp [versionIn, text, parsed]
        simp only [text, parsed, residual_call_iff, residual_done_iff] at left
        obtain ⟨rfl, rfl⟩ | ⟨-, rest, rfl, rfl, rfl⟩ := left
        · exact .read _ _ _ file reply v good
        · exact .stored _ _ _ file reply v good

/-- Only a caller that has read a version stores, and it stores that version. -/
theorem shape_store {events : List (Sigma Op.Res)} {q : Prog Op.Res (Except ε Version)}
    (shape : Shape events q) {value : UInt32} (mem : ⟨.store value, ()⟩ ∈ events) :
    ∃ v file reply, value = v.toU32 ∧ ⟨.sys (.readToEnd file), reply⟩ ∈ events ∧
      versionIn reply = some v := by
  cases shape with
  | stored dir path options file reply v good =>
    have same : value = v.toU32 := by simpa using mem
    exact ⟨v, file, reply, same, by simp, good⟩
  | _ => simp at mem

theorem shape_ok {events : List (Sigma Op.Res)} {v : Version}
    (shape : Shape events (.done (.ok v) : Prog Op.Res (Except ε Version))) :
    (∃ kernel, kernel ≠ Version.sentinel ∧ v = Version.fromU32 kernel ∧
      ⟨.load, kernel⟩ ∈ events) ∨
    ∃ file reply, ⟨.sys (.readToEnd file), reply⟩ ∈ events ∧ versionIn reply = some v := by
  cases shape with
  | hit kernel full => exact Or.inl ⟨kernel, full, rfl, by simp⟩
  | stored dir path options file reply v good => exact Or.inr ⟨file, reply, by simp, good⟩

end Shapes

section Interleaved

/-- Caller `j` got a reply from `osrelease` that holds version `v`. -/
def HasRead (log : List (Event ι Op.Res)) (j : ι) (v : Version) : Prop :=
  ∃ file reply, ⟨j, .sys (.readToEnd file), reply⟩ ∈ log ∧ versionIn reply = some v

/-- Caller `i` could not open `osrelease`, or could not read a version from it. -/
def ReadFailed (log : List (Event ι Op.Res)) (i : ι) : Prop :=
  (∃ dir path options e, ⟨i, .sys (.openAt dir path options), .error e⟩ ∈ log) ∨
    ∃ file reply, ⟨i, .sys (.readToEnd file), reply⟩ ∈ log ∧ versionIn reply = none

theorem shape_failed [DecidableEq ι] {i : ι} {log : List (Event ι Op.Res)}
    {q : Prog Op.Res (Except ε Version)} (shape : Shape (ownEvents i log) q)
    (failed : ReadFailed log i) :
    (∃ e, q = .done (.error e)) ∧ ∀ value, ⟨i, .store value, ()⟩ ∉ log := by
  simp only [ReadFailed, ← mem_ownEvents] at failed ⊢
  generalize ownEvents i log = events at shape failed
  cases shape with
  | unopened dir path options e err => exact ⟨⟨err, rfl⟩, by simp⟩
  | unread dir path options file reply bad err => exact ⟨⟨err, rfl⟩, by simp⟩
  | read dir path options file reply v good =>
    rcases failed with ⟨_, _, _, _, mem⟩ | ⟨_, _, mem, bad⟩
    · simp at mem
    · obtain ⟨rfl, rfl⟩ : _ = file ∧ _ = reply := by simpa using mem
      exact absurd (good.symm.trans bad) (by simp)
  | stored dir path options file reply v good =>
    rcases failed with ⟨_, _, _, _, mem⟩ | ⟨_, _, mem, bad⟩
    · simp at mem
    · obtain ⟨rfl, rfl⟩ : _ = file ∧ _ = reply := by simpa using mem
      exact absurd (good.symm.trans bad) (by simp)
  | _ => simp at failed

/-- All callers at their first step, the static still at the sentinel. -/
def start [ProcError ε] (callers : ι → AsyncProcfs) :
    Pool ι Op.Res (Except ε Version) UInt32 where
  programs i := (Version.cached (callers i)).run
  shared := Version.sentinel
  log := []

section Reached

variable [ProcError ε] [DecidableEq ι] {callers : ι → AsyncProcfs}
  {Q : Pool ι Op.Res (Except ε Version) UInt32}

theorem reached_shape (reach : Reachable memory (start callers) Q) (i : ι) :
    Shape (ownEvents i Q.log) (Q.programs i) :=
  caller_shape (reachable_residual rfl reach i)

/-- Whoever has stored by some point of the log has read, by then, the version it stored. -/
theorem stored_read (reach : Reachable memory (start callers) Q)
    {before after : List (Event ι Op.Res)} (split : Q.log = before ++ after) {j : ι}
    {value : UInt32} (mem : ⟨j, .store value, ()⟩ ∈ before) :
    ∃ v, value = v.toU32 ∧ HasRead before j v := by
  have left := reachable_residual rfl reach j
  rw [split, ownEvents_append] at left
  obtain ⟨middle, left⟩ := left.take
  obtain ⟨v, file, reply, same, read, good⟩ :=
    shape_store (caller_shape left) (mem_ownEvents.mpr mem)
  exact ⟨v, same, file, reply, mem_ownEvents.mp read, good⟩

/-- The static is empty, or holds the packed version that some caller has read. -/
theorem static_read (reach : Reachable memory (start callers) Q) :
    Q.shared = Version.sentinel ∨ ∃ j v, HasRead Q.log j v ∧ Q.shared = v.toU32 := by
  have value := memory_lastWrite (reachable_path rfl reach)
  by_cases empty : Q.shared = Version.sentinel
  · exact Or.inl empty
  rw [value] at empty
  obtain ⟨j, mem⟩ := lastWrite_stores empty
  obtain ⟨v, same, read⟩ := stored_read reach (List.append_nil Q.log).symm mem
  exact Or.inr ⟨j, v, read, value.trans same⟩

/-- A version returned was read by the caller, or stored by another before the caller's load. -/
theorem result_read (reach : Reachable memory (start callers) Q) {i : ι} {v : Version}
    (ok : Q.programs i = .done (.ok v)) :
    HasRead Q.log i v ∨ ∃ j before kernel after,
      Q.log = before ++ ⟨i, .load, kernel⟩ :: after ∧ HasRead before j v ∧
        ⟨j, .store v.toU32, ()⟩ ∈ before := by
  have shape := reached_shape reach i
  rw [ok] at shape
  rcases shape_ok shape with ⟨kernel, full, rfl, mem⟩ | ⟨file, reply, mem, good⟩
  · obtain ⟨before, after, split⟩ := List.append_of_mem (mem_ownEvents.mp mem)
    have path := reachable_path rfl reach
    rw [split] at path
    obtain ⟨u, u', path, loaded, -⟩ := path_at path
    obtain rfl : kernel = lastWrite stores Version.sentinel before :=
      loaded.trans (memory_lastWrite path)
    obtain ⟨j, stored⟩ := lastWrite_stores full
    obtain ⟨v, same, read⟩ := stored_read reach split stored
    rw [same, Version.fromU32_toU32]
    exact Or.inr ⟨j, before, _, after, split, read, same ▸ stored⟩
  · exact Or.inl ⟨file, reply, mem_ownEvents.mp mem, good⟩

/-- A failed caller ends with an error, and the static is what the others' events leave. -/
theorem failed_silent (reach : Reachable memory (start callers) Q) {i : ι}
    (failed : ReadFailed Q.log i) :
    (∃ e, Q.programs i = .done (.error e)) ∧
      Q.shared = lastWrite stores Version.sentinel (Q.log.filter fun e => e.who ≠ i) := by
  obtain ⟨ended, none_stored⟩ := shape_failed (reached_shape reach i) failed
  refine ⟨ended, (memory_lastWrite (reachable_path rfl reach)).trans
    (lastWrite_filter _ _ _ fun e mem own => ?_).symm⟩
  obtain ⟨j, op, reply⟩ := e
  obtain rfl : j = i := by simpa using own
  cases op with
  | store value => exact absurd mem (none_stored value)
  | load => rfl
  | sys op => rfl

/-- What every pool of lookups satisfies. -/
structure Sound (Q : Pool ι Op.Res (Except ε Version) UInt32) : Prop where
  /-- The static is empty or holds a version read. -/
  static : Q.shared = Version.sentinel ∨ ∃ j v, HasRead Q.log j v ∧ Q.shared = v.toU32
  /-- A failed read is an error, and the static is what the others' events alone leave. -/
  failed : ∀ i, ReadFailed Q.log i → (∃ e, Q.programs i = .done (.error e)) ∧
    Q.shared = lastWrite stores Version.sentinel (Q.log.filter fun e => e.who ≠ i)
  /-- A result was read by its caller, or read and stored by another before the caller's load. -/
  result : ∀ i v, Q.programs i = .done (.ok v) →
    HasRead Q.log i v ∨ ∃ j before kernel after,
      Q.log = before ++ ⟨i, .load, kernel⟩ :: after ∧ HasRead before j v ∧
        ⟨j, .store v.toU32, ()⟩ ∈ before
  /-- Reads that agree leave nothing else to return. -/
  agreed : ∀ v, (∀ j w, HasRead Q.log j w → w = v) →
    ∀ i w, Q.programs i = .done (.ok w) → w = v

/-- Every interleaving of any number of cached lookups is sound. -/
theorem cached_interleaved (reach : Reachable memory (start callers) Q) : Sound Q where
  static := static_read reach
  failed _ failed := failed_silent reach failed
  result _ _ ok := result_read reach ok
  agreed v same i w ok := by
    rcases result_read reach ok with read | ⟨j, before, kernel, after, split, read, -⟩
    · exact same i w read
    · obtain ⟨file, reply, mem, good⟩ := read
      exact same j w ⟨file, reply, split ▸ List.mem_append_left _ mem, good⟩

end Reached

end Interleaved

end Lookups

/-- The file library of the two trees, with the static as plain memory. -/
def twoTrees : Handler Op.Res UInt32
  | .load, s => (s, s)
  | .store value, _ => ((), value)
  | .sys op, s => (twoRoots op, s)

theorem memory_twoTrees (op : Op) (s : UInt32) :
    memory op s (twoTrees op s).1 (twoTrees op s).2 := by
  cases op with
  | load => exact ⟨rfl, rfl⟩
  | store value => rfl
  | sys op => rfl

/-- The live tree and the fixture. -/
def liveAndFixture (live : Bool) : AsyncProcfs :=
  if live then ⟨⟨"/proc"⟩, "/proc"⟩ else ⟨⟨"/fixture"⟩, "/fixture"⟩

/-- A caller on the fixture, after one on the live tree, returns what the live one stored. -/
theorem cached_interleaved_twoTrees :
    ∃ Q : Pool Bool Op.Res (Except CoreError Version) UInt32,
      Q.programs true = .done (.ok ⟨5, 4, 0⟩) ∧ Q.programs false = .done (.ok ⟨5, 4, 0⟩) ∧
        @Sound Bool littleEndian64 CoreError _ Q := by
  let _ := littleEndian64
  let lookups : Pool Bool Op.Res (Except CoreError Version) UInt32 := start liveAndFixture
  have live : run twoTrees (lookups.programs true) Version.sentinel =
      (.ok ⟨5, 4, 0⟩, Version.toU32 ⟨5, 4, 0⟩) := by decide
  have fixture : run twoTrees (lookups.programs false) (Version.toU32 ⟨5, 4, 0⟩) =
      (.ok ⟨5, 4, 0⟩, Version.toU32 ⟨5, 4, 0⟩) := by decide
  obtain ⟨log, first⟩ := reachable_run memory_twoTrees lookups true live
  obtain ⟨log', second⟩ := reachable_run memory_twoTrees
    { programs := Function.update lookups.programs true (.done (.ok ⟨5, 4, 0⟩))
      shared := Version.toU32 ⟨5, 4, 0⟩
      log := lookups.log ++ log } false fixture
  exact ⟨_, rfl, rfl, cached_interleaved (first.trans second)⟩

end CachedCallers
