import AsyncProcfs.Cells
import AsyncProcfs.KernelVersion

/-!
# Histories of cached lookups over several instances

The static is one word for the whole process, while the text it caches belongs
to one instance. Over answers that never change, a history of `Version.cached`
calls is a write-once cell: the first version other than 0.0.0 that any
instance yields is returned ever after. Agreement with `Version.current` holds
exactly when that version is the one all later instances would give.
-/

namespace CachedHistories

open ProgramRuns Cells Text Procfs KernelVersion

section Texts

def release : Path := "sys/kernel/osrelease"

/-- The version in a reply to reading `osrelease`, if the read and the parse succeed. -/
def versionIn (reply : Except IoError Bytes) : Option Version :=
  match textOf reply with
  | .ok s => match Version.fromStr (trim s) with
    | .ok v => some v
    | .error _ => none
  | .error _ => none

/-- What opening and reading `osrelease` gives an instance, under fixed answers. -/
def ownReply (answer : (op : SysOp) → op.Res) (p : AsyncProcfs) : Except IoError Bytes := do
  let file ← answer (.openAt p.file release { read := true })
  answer (.readToEnd file)

end Texts

section Histories

variable [Platform] {ε : Type} [ProcError ε]

/-- What `Version.current` returns for an instance under fixed answers. -/
def currentOf (answer : (op : SysOp) → op.Res) (p : AsyncProcfs) : Except ε Version :=
  (exec (handle (fixed answer)) (Version.current p) ⟨0, ()⟩).1

/-- The results of calling `Version.cached` on some instances, one after another,
in a process that has just started. -/
def cachedHistory (answer : (op : SysOp) → op.Res) (ps : List AsyncProcfs) :
    List (Except ε Version) :=
  (runAll (ps.map fun p => (handle (fixed answer), (Version.cached p).run)) ⟨0, ()⟩).1

omit [Platform] in
theorem exec_current_fixed (answer : (op : SysOp) → op.Res) (p : AsyncProcfs)
    (w : World Unit) :
    exec (handle (fixed answer)) (Version.current p : Io ε Version) w =
      (currentOf answer p, w) :=
  run_toSystem _ (issues_mono toSystem_of_reading (issues_readValue p _ _ _)) w.kernel 0 ()

omit [Platform] in
theorem exec_release (answer : (op : SysOp) → op.Res) (p : AsyncProcfs) (w : World Unit) :
    exec (handle (fixed answer)) (p.readFile release : Io ε Str) w =
      (errorPath (joinPath p.root release) (textOf (ownReply answer p)), w) := by
  rw [AsyncProcfs.readFile, exec_bind, exec_lift, ownReply]
  cases opened : answer (.openAt p.file release { read := true }) with
  | error e =>
    rw [run_fixed opened]
    rfl
  | ok file =>
    rw [run_fixed opened]
    change exec _ ((liftM (readToString file) : Io ε (Except IoError Str)) >>= fun text =>
      ofOutcome (errorPath _ text)) w = _
    rw [exec_bind, exec_lift]
    rfl

omit [Platform] in
/-- `Version.current` returns the version of the instance's own text, or an error. -/
theorem currentOf_eq_ok_iff {answer : (op : SysOp) → op.Res} {p : AsyncProcfs} {v : Version} :
    (currentOf answer p : Except ε Version) = .ok v ↔ versionIn (ownReply answer p) = some v := by
  have program : (Version.current p : Io ε Version) = p.readFile release >>= fun s =>
    ofOutcome ((Version.fromStr (trim s)).mapError ProcError.fromStr) := rfl
  rw [currentOf, program, exec_bind, exec_release, versionIn]
  cases textOf (ownReply answer p) with
  | error e => simp [errorPath, Except.mapError]
  | ok s =>
    simp only [errorPath, Except.mapError, exec_ofOutcome]
    cases Version.fromStr (trim s) with
    | error e => simp
    | ok v' => simp

/-- The static as a cell: the sentinel is "nothing kept". -/
def kept (kernel : UInt32) : Option Version :=
  if kernel = Version.sentinel then none else some (Version.fromU32 kernel)

theorem kept_toU32 (v : Version) :
    kept v.toU32 = if v = ⟨0, 0, 0⟩ then none else some v := by
  simp only [kept, Version.sentinel, Version.toU32_eq_sentinel_iff, Version.fromU32_toU32]

/-- The lookup refines the cell: from any static, a history is the cell's history. -/
theorem runAll_cached (answer : (op : SysOp) → op.Res) (ps : List AsyncProcfs)
    (w : World Unit) :
    (runAll (ps.map fun p =>
        (handle (fixed answer), (Version.cached p : Io ε Version).run)) w).1 =
      writeOnce ⟨0, 0, 0⟩ (kept w.kernel) (ps.map (currentOf answer)) := by
  induction ps generalizing w with
  | nil => cases kept w.kernel <;> rfl
  | cons p rest ih =>
    have call := @Version.exec_cached _ ε _ Unit (fixed answer) p w
    rw [exec_current_fixed] at call
    have step {r : Except ε Version} {w' : World Unit}
        (result : exec (handle (fixed answer)) (Version.cached p : Io ε Version) w = (r, w')) :
        (runAll ((p :: rest).map fun p =>
          (handle (fixed answer), (Version.cached p : Io ε Version).run)) w).1 =
        r :: writeOnce ⟨0, 0, 0⟩ (kept w'.kernel) (rest.map (currentOf answer)) := by
      rw [← ih w', List.map_cons, runAll]
      rw [exec] at result
      simp only [result]
    by_cases empty : w.kernel = Version.sentinel
    · have none_kept : kept w.kernel = none := if_pos empty
      rw [if_pos empty] at call
      cases fresh : (currentOf answer p : Except ε Version) with
      | error e =>
        rw [fresh] at call
        rw [step call, List.map_cons, fresh, none_kept]
        rfl
      | ok v =>
        rw [fresh] at call
        rw [step call, List.map_cons, fresh, none_kept, kept_toU32]
        rfl
    · have some_kept : kept w.kernel = some (Version.fromU32 w.kernel) := if_neg empty
      rw [if_neg empty] at call
      rw [step call, List.map_cons, some_kept]
      rfl

/-- Every call of a history answers what its own instance would, uncached, exactly when no
version other than 0.0.0 in an earlier instance's text differs from what is in a later one's. -/
theorem cached_history_iff (answer : (op : SysOp) → op.Res) (ps : List AsyncProcfs) :
    (cachedHistory answer ps : List (Except ε Version)) = ps.map (currentOf answer) ↔
      ps.Pairwise fun earlier later => ∀ v, versionIn (ownReply answer earlier) = some v →
        v ≠ ⟨0, 0, 0⟩ → versionIn (ownReply answer later) = some v := by
  rw [cachedHistory, runAll_cached]
  refine (writeOnce_none_eq_iff _ _).trans ?_
  rw [List.pairwise_map]
  simp only [currentOf_eq_ok_iff]

end Histories

/-- Two trees with different releases: a live one and a fixture. -/
def twoRoots : (op : SysOp) → op.Res
  | .readToEnd file => .ok (encodeUtf8
      (if file.label = joinPath "/proc" "sys/kernel/osrelease" then "5.4.0-42\n" else "3.2.0\n"))
  | op => bare op

/-- A lookup on the fixture after one on the live tree answers the live tree's version. -/
theorem cached_not_transparent :
    ¬ ∀ (answer : (op : SysOp) → op.Res) (ps : List AsyncProcfs),
      (∀ p ∈ ps, ∃ root, exec (handle (fixed answer))
        (AsyncProcfs.newWithRoot root : Io CoreError AsyncProcfs) ⟨0, ()⟩ =
          (.ok p, ⟨0, ()⟩)) →
      @cachedHistory littleEndian64 CoreError _ answer ps = ps.map (currentOf answer) := by
  intro claim
  have made : ∀ p ∈ [AsyncProcfs.mk ⟨"/proc"⟩ "/proc", ⟨⟨"/fixture"⟩, "/fixture"⟩],
      ∃ root, exec (handle (fixed twoRoots))
        (AsyncProcfs.newWithRoot root : Io CoreError AsyncProcfs) ⟨0, ()⟩ =
          (.ok p, ⟨0, ()⟩) := by
    intro p mem
    refine ⟨p.root, ?_⟩
    simp only [List.mem_cons, List.not_mem_nil, or_false] at mem
    rcases mem with rfl | rfl <;> rfl
  have same := claim twoRoots _ made
  revert same
  decide

end CachedHistories
