import Mathlib.Data.List.Nodup
import Mathlib.Data.List.Perm.Subperm
import AsyncProcfs.CachedHistories
import AsyncProcfs.Processes

/-!
# Open file descriptors and their number

`fds` builds one `FDInfo` for each numbered entry of the `fd` directory and
drops the entries it cannot build. `fd_count` trusts the directory's size, and
where the kernel reports none counts the items of that stream: descriptors
whose link is not read as a target are missing from the count, and a directory
error counts as one. On a version before 3.6.0 the entries are opened without
`O_PATH`, which the kernel refuses for links, and nothing is counted.
-/

namespace Descriptors

open ProgramRuns EntryLoops Text IntText Procfs KernelVersion CachedHistories Processes

/-- What the crate uses of procfs-core's `FDTarget`: its parser, whose error it drops. -/
class FDTarget (Target : Type) where
  fromStr : Str → Option Target

structure FDInfo (Target : Type) where
  rawFd : Int32
  mode : UInt32
  target : Target
  deriving DecidableEq, Repr

section Functions

variable [Platform] {ε : Type} [ProcError ε] (Target : Type) [FDTarget Target]

/-- The macro `expect!`. -/
def expect {α : Type} (a : Option α) : Io ε α :=
  match a with
  | some a => pure a
  | none => throw ProcError.internalError

def FDInfo.fromProcessAt (process : Process) (fd : Int32) : Io ε (FDInfo Target) := do
  let pathFromProcessFd := joinPath "fd" (display fd)
  let pathFromFsRoot := joinPath process.path pathFromProcessFd
  let kernel ← attempt (Version.cached process.procfs : Io ε Version)
  let flags : List OFlag :=
    if before36 kernel then [.nofollow, .cloexec] else [.nofollow, .path, .cloexec]
  let file ← propagate (wrapIoError pathFromFsRoot
    (← sys (.openAt process.fd pathFromProcessFd { customFlags := flags })))
  let link ← propagate (wrapIoError pathFromFsRoot (← sys (.readLink file)))
  let metadata ← propagate (wrapIoError pathFromFsRoot (← sys (.metadataAt file "")))
  let text ← expect (decodeUtf8 link)
  let target ← expect (FDTarget.fromStr text)
  return { rawFd := fd, mode := metadata.mode &&& 0o700, target }

/-- `Process::fds`: the inner program is the stream, run to its end. -/
def fds (self : Process) : Io ε (Async (List (Except ε (FDInfo Target)))) := do
  let relFdPath := joinPath self.path "fd"
  let fdsDir ← propagate (wrapIoError relFdPath
    (← sys (.openAt self.fd "fd" { read := true, customFlags := [.directory] })))
  let fdsDir ← propagate (wrapIoError relFdPath (← sys (.readDir fdsDir)))
  return forAwait ProcError.fromIo
    (numbered (FDInfo.fromProcessAt Target self : Int32 → Io ε (FDInfo Target))) fdsDir

/-- `stat.size() as usize`. -/
def asUsize (size : UInt64) : Nat := size.toNat % 2 ^ (8 * Platform.usizeBytes)

def fdCount (self : Process) : Io ε Nat := do
  let stat ← propagate (wrapIoError (joinPath self.path "fd")
    (← sys (.metadataAt self.fd "fd")))
  if stat.size > 0 then return asUsize stat.size
  else
    let stream ← fds Target self
    let items ← (liftM stream : Io ε (List (Except ε (FDInfo Target))))
    return items.length

end Functions

/-- An `fd` directory: its entries, which are descriptor numbers or no numbers at all, and
the links and metadata of the descriptors. -/
structure FdDirectory where
  entries : List Bytes
  link : Int32 → Bytes
  metadata : Int32 → Metadata
  distinct : entries.Nodup
  numeric : ∀ name ∈ entries, ∀ n, numberIn (toStringLossy name) = some n →
    0 ≤ n.toInt ∧ name = encodeUtf8 (display n)

namespace FdDirectory

variable (d : FdDirectory)

def numbers : List Int32 := d.entries.filterMap fun name => numberIn (toStringLossy name)

def count : Nat := d.numbers.length

/-- What listing the directory gives when it fails after some entries, or not at all. -/
def listing : Option (Nat × IoError) → List (Except IoError Bytes)
  | none => d.entries.map .ok
  | some (k, e) => (d.entries.take k).map .ok ++ [.error e]

theorem values_listing (failsAt : Option (Nat × IoError)) :
    values (d.listing failsAt) = match failsAt with
      | none => d.entries
      | some (k, _) => d.entries.take k := by
  cases failsAt with
  | none => exact values_map_ok d.entries
  | some cut => exact values_append_error (d.entries.take cut.1) cut.2 []

theorem failure_listing (failsAt : Option (Nat × IoError)) :
    failure (d.listing failsAt) = failsAt.map Prod.snd := by
  cases failsAt with
  | none => exact failure_map_ok d.entries
  | some cut => exact failure_append_error (d.entries.take cut.1) cut.2 []

theorem mem_numbers {n : Int32} (mem : n ∈ d.numbers) :
    0 ≤ n.toInt ∧ encodeUtf8 (display n) ∈ d.entries := by
  obtain ⟨name, listed, number⟩ := List.mem_filterMap.mp mem
  obtain ⟨nonneg, rfl⟩ := d.numeric name listed n number
  exact ⟨nonneg, listed⟩

theorem numbers_nodup : d.numbers.Nodup := by
  refine List.pairwise_filterMap.mpr (d.distinct.imp_of_mem fun mem mem' apart => ?_)
  rintro n number n' number' rfl
  exact apart ((d.numeric _ mem n number).2.trans (d.numeric _ mem' n number').2.symm)

/-- Descriptor numbers are distinct and not negative, so there are at most 2^31. -/
theorem count_le : d.count ≤ 2 ^ 31 := by
  have apart : (d.numbers.map fun n => n.toInt.toNat).Nodup := by
    refine List.Nodup.map_on (fun n mem n' mem' same => ?_) d.numbers_nodup
    have nonneg := (d.mem_numbers mem).1
    have nonneg' := (d.mem_numbers mem').1
    exact Int32.toInt_inj.mp (by omega)
  have inside : (d.numbers.map fun n => n.toInt.toNat) ⊆ List.range (2 ^ 31) := by
    intro k mem
    obtain ⟨n, mem, rfl⟩ := List.mem_map.mp mem
    have bound := n.toInt_lt
    rw [List.mem_range]
    omega
  have le := (apart.subperm inside).length_le
  rwa [List.length_map, List.length_range] at le

end FdDirectory

section Counting

variable [Platform] {ε : Type} [ProcError ε] {Target : Type} [FDTarget Target]

theorem asUsize_of_le {size : UInt64} (small : size.toNat ≤ 2 ^ 31) :
    asUsize size = size.toNat := by
  rw [asUsize]
  rcases Platform.usize with four | eight
  · rw [four]
    omega
  · rw [eight]
    omega

/-- The version a lookup sees: the static's, or else the one in the instance's own text. -/
def versionSeen (answer : (op : SysOp) → op.Res) (procfs : AsyncProcfs) (kernel : UInt32) :
    Option Version :=
  (kept kernel).or (versionIn (ownReply answer procfs))

/-- A version before 3.6.0 is seen. -/
def Old (seen : Option Version) : Prop :=
  match seen with
  | some v => v < ⟨3, 6, 0⟩
  | none => False

instance (seen : Option Version) : Decidable (Old seen) :=
  match seen with
  | some v => inferInstanceAs (Decidable (v < _))
  | none => inferInstanceAs (Decidable False)

/-- `ELOOP`: a link is opened, and neither followed nor named as a path. -/
abbrev eloop : IoError := .os (.other 40)

/-- The options open a link itself, and not what it leads to. -/
def Unfollowed (options : OpenOptions) : Prop :=
  .nofollow ∈ options.customFlags ∧ .directory ∉ options.customFlags

instance (options : OpenOptions) : Decidable (Unfollowed options) :=
  inferInstanceAs (Decidable (_ ∧ _))

/-- The kernel's answers about a process with this `fd` directory, while it stays as it is. The
entries are links: without `O_PATH` none opens unfollowed, and with it each does, where the
kernel knows what it can do with such a handle. -/
structure Reports (answer : (op : SysOp) → op.Res) (process : Process) (d : FdDirectory)
    (size : UInt64) (failsAt : Option (Nat × IoError)) (seen : Option Version) : Prop where
  stated : ∃ metadata, answer (.metadataAt process.fd "fd") = .ok metadata ∧ metadata.size = size
  sized : size = 0 ∨ size.toNat = d.count
  listed : ∃ dir, answer (.openAt process.fd "fd" { read := true, customFlags := [.directory] }) =
    .ok dir ∧ answer (.readDir dir) = .ok (d.listing failsAt)
  refused : ∀ n ∈ d.numbers, ∀ options, Unfollowed options → .path ∉ options.customFlags →
    answer (.openAt process.fd (joinPath "fd" (display n)) options) = .error eloop
  entered : ¬ Old seen → ∀ n ∈ d.numbers, ∀ options, Unfollowed options →
    .path ∈ options.customFlags → ∃ file,
      answer (.openAt process.fd (joinPath "fd" (display n)) options) = .ok file ∧
      answer (.readLink file) = .ok (d.link n) ∧
      answer (.metadataAt file "") = .ok (d.metadata n)

/-- A link is UTF-8 and parses as a target. -/
def readable (Target : Type) [FDTarget Target] (link : Bytes) : Bool :=
  match decodeUtf8 link with
  | none => false
  | some text => (FDTarget.fromStr text : Option Target).isSome

section Lookups

variable {answer : (op : SysOp) → op.Res} {procfs : AsyncProcfs}

omit [Platform] [FDTarget Target] [ProcError ε] in
theorem before36_iff_old (kernel : Except ε Version) : before36 kernel ↔ Old kernel.toOption := by
  cases kernel with
  | ok v => rfl
  | error e => rfl

/-- A lookup gives the version that is seen, and the same version is seen after it. -/
theorem cached_seen (w : World Unit) :
    (exec (handle (fixed answer)) (Version.cached procfs : Io ε Version) w).1.toOption =
        versionSeen answer procfs w.kernel ∧
      versionSeen answer procfs
          (exec (handle (fixed answer)) (Version.cached procfs : Io ε Version) w).2.kernel =
        versionSeen answer procfs w.kernel := by
  rw [Version.exec_cached, exec_current_fixed]
  by_cases empty : w.kernel = Version.sentinel
  · rw [if_pos empty]
    have none_kept : kept w.kernel = none := if_pos empty
    cases read : (currentOf answer procfs : Except ε Version) with
    | ok v =>
      have own := currentOf_eq_ok_iff.mp read
      simp only [versionSeen, none_kept, kept_toU32, own, Option.none_or]
      refine ⟨rfl, ?_⟩
      split
      · rfl
      · rfl
    | error e =>
      have own : versionIn (ownReply answer procfs) = none := by
        cases own : versionIn (ownReply answer procfs) with
        | none => rfl
        | some v => cases read.symm.trans (currentOf_eq_ok_iff.mpr own)
      simp only [versionSeen, none_kept, own, Option.none_or]
      exact ⟨rfl, trivial⟩
  · rw [if_neg empty]
    have some_kept : kept w.kernel = some (Version.fromU32 w.kernel) := if_neg empty
    simp only [versionSeen, some_kept, Option.some_or]
    exact ⟨rfl, trivial⟩

/-- Building an entry leaves the static as its lookup does. -/
theorem fromProcessAt_kernel (process : Process) (n : Int32) (w : World Unit) :
    (exec (handle (fixed answer)) (FDInfo.fromProcessAt Target process n : Io ε _) w).2.kernel =
      (exec (handle (fixed answer)) (Version.cached process.procfs : Io ε Version) w).2.kernel := by
  rw [FDInfo.fromProcessAt, exec_bind, exec_attempt]
  dsimp only
  have expects {β : Type} (a : Option β) : Issues ToSystem (expect a : Io ε β).run := by
    cases a <;> trivial
  refine run_view World.kernel (P := ToSystem) (fun op permitted w => ?_) ?_ _
  · cases op with
    | sys op => rfl
    | load => exact permitted.elim
    | store value => exact permitted.elim
  · refine issues_run_bind (issues_lift (issues_sys trivial)) fun r => ?_
    refine issues_run_bind (issues_ofOutcome _) fun file => ?_
    refine issues_run_bind (issues_lift (issues_sys trivial)) fun r => ?_
    refine issues_run_bind (issues_ofOutcome _) fun link => ?_
    refine issues_run_bind (issues_lift (issues_sys trivial)) fun r => ?_
    refine issues_run_bind (issues_ofOutcome _) fun metadata => ?_
    exact issues_run_bind (expects _) fun text => issues_run_bind (expects _) fun _ => trivial

end Lookups

variable {answer : (op : SysOp) → op.Res} {process : Process} {d : FdDirectory} {size : UInt64}
  {failsAt : Option (Nat × IoError)} {seen : Option Version}

/-- An entry of the directory is built exactly when no old version is seen and its link is
readable. -/
theorem built_iff (reports : Reports answer process d size failsAt seen) {n : Int32}
    (mem : n ∈ d.numbers) {w : World Unit} (sees : versionSeen answer process.procfs w.kernel = seen) :
    (∃ info, (exec (handle (fixed answer))
        (FDInfo.fromProcessAt Target process n : Io ε (FDInfo Target)) w).1 = .ok info) ↔
      ¬ Old seen ∧ readable Target (d.link n) = true := by
  have looked := (@cached_seen _ ε _ answer process.procfs w).1.trans sees
  rw [FDInfo.fromProcessAt, exec_bind, exec_attempt]
  dsimp only
  generalize (exec (handle (fixed answer)) (Version.cached process.procfs : Io ε Version) w).2 = w'
  have gate := before36_iff_old
    (exec (handle (fixed answer)) (Version.cached process.procfs : Io ε Version) w).1
  rw [looked] at gate
  by_cases old : Old seen
  · have refused := reports.refused n mem { customFlags := [.nofollow, .cloexec] } (by decide)
      (by decide)
    rw [if_pos (gate.mpr old), exec_wrapped_error (run_fixed refused w')]
    exact iff_of_false (by rintro ⟨info, ⟨⟩⟩) fun both => both.1 old
  · obtain ⟨file, opened, linked, measured⟩ := reports.entered old n mem
      { customFlags := [.nofollow, .path, .cloexec] } (by decide) (by decide)
    rw [if_neg (mt gate.mp old), exec_wrapped_ok (run_fixed opened w'),
      exec_wrapped_ok (run_fixed linked w'), exec_wrapped_ok (run_fixed measured w'), exec_bind,
      readable]
    cases decodeUtf8 (d.link n) with
    | none => simp [expect]
    | some text =>
      simp only [expect, exec_pure, exec_bind]
      cases (FDTarget.fromStr text : Option Target) with
      | none => simp
      | some target => simp [old]

/-- The body of the loop of `fds`. -/
abbrev fdEntry (ε : Type) [ProcError ε] (Target : Type) [FDTarget Target] (process : Process) :
    Bytes → Async (Option (FDInfo Target)) :=
  numbered (FDInfo.fromProcessAt Target process : Int32 → Io ε (FDInfo Target))

/-- Every round sees the same version. -/
theorem stages_seen {names : List Bytes} {w : World Unit}
    (sees : versionSeen answer process.procfs w.kernel = seen) :
    ∀ x ∈ stages (handle (fixed answer)) (fdEntry ε Target process) names w,
      versionSeen answer process.procfs x.2.kernel = seen := by
  refine stages_kept (I := fun w : World Unit => versionSeen answer process.procfs w.kernel = seen) _ _
    (fun name w sees => ?_) sees
  rw [fdEntry, numbered]
  cases parse Int32 (toStringLossy name) with
  | error e => exact sees
  | ok n =>
    have looked := (@cached_seen _ ε _ answer process.procfs w).2
    rw [← @fromProcessAt_kernel _ ε _ Target _ answer process n w] at looked
    dsimp only
    rw [run_bind]
    exact looked.trans sees

/-- Whether the stream has an item for a name. -/
def described (Target : Type) [FDTarget Target] (d : FdDirectory)
    (seen : Option Version) (name : Bytes) : Bool :=
  ((numberIn (toStringLossy name)).map fun n =>
    decide (¬ Old seen) && readable Target (d.link n)).getD false

theorem yielded_isSome (reports : Reports answer process d size failsAt seen)
    {x : Bytes × World Unit} (mem : x.1 ∈ d.entries)
    (sees : versionSeen answer process.procfs x.2.kernel = seen) :
    (yielded (handle (fixed answer)) (fdEntry ε Target process) x :
      Option (Except ε (FDInfo Target))).isSome = described Target d seen x.1 := by
  rw [yielded_numbered, described, numberIn]
  cases number : parse Int32 (toStringLossy x.1) with
  | error e => rfl
  | ok n =>
    have listed : n ∈ d.numbers :=
      List.mem_filterMap.mpr ⟨x.1, mem, by rw [numberIn, number]⟩
    have built := @built_iff _ ε _ Target _ answer process d size failsAt seen reports n listed x.2
      sees
    dsimp only
    cases made : (exec (handle (fixed answer))
        (FDInfo.fromProcessAt Target process n : Io ε (FDInfo Target)) x.2).1 with
    | ok info =>
      have both := built.mp ⟨info, made⟩
      simp [both]
    | error e =>
      have missing := mt built.mpr (by simp [made])
      simpa using missing

/-- The stream has one item for each described entry it reaches. -/
theorem length_items (reports : Reports answer process d size failsAt seen) {names : List Bytes}
    (part : ∀ name ∈ names, name ∈ d.entries) {w : World Unit}
    (sees : versionSeen answer process.procfs w.kernel = seen) :
    ((stages (handle (fixed answer)) (fdEntry ε Target process) names w).filterMap
      (yielded (handle (fixed answer)) (fdEntry ε Target process) :
        _ → Option (Except ε (FDInfo Target)))).length = names.countP (described Target d seen) := by
  have order := map_fst_stages (handle (fixed answer)) (fdEntry ε Target process) names w
  rw [List.length_filterMap_eq_countP]
  conv_rhs => rw [← order, List.countP_map]
  refine List.countP_congr fun x mem => ?_
  have listed : x.1 ∈ names := by
    rw [← order]
    exact List.mem_map_of_mem mem
  rw [yielded_isSome reports (part _ listed) (stages_seen sees x mem), Function.comp_apply]

/-- What `fd_count` promises: the number of descriptors, by either path, and an error where
the listing it needs fails. -/
structure Counted (d : FdDirectory) (size : UInt64) (failsAt : Option (Nat × IoError))
    (result : Except ε Nat) : Prop where
  agrees : size ≠ 0 ∨ failsAt = none → result = .ok d.count
  fails : size = 0 → failsAt ≠ none → ∃ e, result = .error e

theorem fdCount_fast (reports : Reports answer process d size failsAt seen) (known : size ≠ 0)
    (w : World Unit) :
    (exec (handle (fixed answer)) (fdCount Target process : Io ε Nat) w).1 = .ok d.count := by
  obtain ⟨metadata, stated, rfl⟩ := reports.stated
  have counted := reports.sized.resolve_left known
  have positive : metadata.size > 0 := UInt64.pos_iff_ne_zero.mpr known
  rw [fdCount, exec_wrapped_ok (run_fixed stated w), if_pos positive, exec_pure,
    asUsize_of_le (counted.trans_le d.count_le), counted]

/-- The slow path counts the described entries it lists, and a failure as one more. -/
theorem fdCount_slow (reports : Reports answer process d 0 failsAt seen) {w : World Unit}
    (sees : versionSeen answer process.procfs w.kernel = seen) :
    (exec (handle (fixed answer)) (fdCount Target process : Io ε Nat) w).1 =
      .ok ((values (d.listing failsAt)).countP (described Target d seen) +
        (failure (d.listing failsAt)).toList.length) := by
  obtain ⟨metadata, stated, unknown⟩ := reports.stated
  obtain ⟨dir, opened, listed⟩ := reports.listed
  have streamed : exec (handle (fixed answer)) (fds Target process) w =
      (.ok (forAwait (ProcError.fromIo : IoError → ε) (fdEntry ε Target process)
        (d.listing failsAt)), w) := by
    rw [fds, exec_wrapped_ok (run_fixed opened w), exec_wrapped_ok (run_fixed listed w),
      exec_pure]
  have zero : ¬ metadata.size > 0 := by simp [unknown]
  have part : ∀ name ∈ values (d.listing failsAt), name ∈ d.entries := by
    rw [d.values_listing]
    cases failsAt with
    | none => exact fun name mem => mem
    | some cut => exact fun name mem => List.mem_of_mem_take mem
  rw [fdCount, exec_wrapped_ok (run_fixed stated w), if_neg zero, exec_bind_ok _ streamed,
    exec_bind, exec_lift]
  dsimp only
  rw [exec_pure, run_forAwait, List.length_append, length_items reports part sees,
    List.length_map]

omit [Platform] in
/-- All entries are described when no old version is seen and all links are readable, or when
there are no descriptors. -/
theorem described_all_iff : d.entries.countP (described Target d seen) = d.count ↔
    (Old seen → d.numbers = []) ∧ ∀ n ∈ d.numbers, readable Target (d.link n) = true := by
  have each : d.entries.countP (described Target d seen) = d.count ↔
      ∀ n ∈ d.numbers, (decide (¬ Old seen) && readable Target (d.link n)) = true := by
    rw [← List.countP_eq_length, FdDirectory.numbers, List.countP_filterMap]
    rfl
  simp only [each, Bool.and_eq_true, decide_eq_true_eq]
  constructor
  · intro all
    refine ⟨fun old => List.eq_nil_iff_forall_not_mem.mpr fun n mem => ?_, fun n mem => ?_⟩
    · exact (all n mem).1 old
    · exact (all n mem).2
  · rintro ⟨empty, all⟩ n mem
    refine ⟨fun old => ?_, all n mem⟩
    rw [empty old] at mem
    exact absurd mem List.not_mem_nil

/-- `fd_count` is right exactly when the directory's size is known, or the whole directory can
be listed, every descriptor's link is read as a target, and no version before 3.6.0 is seen,
unless there are no descriptors. -/
theorem fdCount_counted_iff {w : World Unit} (reports : Reports answer process d size failsAt
      (versionSeen answer process.procfs w.kernel)) :
    Counted d size failsAt
        (exec (handle (fixed answer)) (fdCount Target process : Io ε Nat) w).1 ↔
      size ≠ 0 ∨ (failsAt = none ∧
        (Old (versionSeen answer process.procfs w.kernel) → d.numbers = []) ∧
        ∀ n ∈ d.numbers, readable Target (d.link n) = true) := by
  by_cases known : size ≠ 0
  · exact iff_of_true ⟨fun _ => fdCount_fast reports known w, fun zero => absurd zero known⟩
      (Or.inl known)
  · obtain rfl : size = 0 := not_not.mp known
    rw [fdCount_slow reports rfl, d.values_listing, d.failure_listing, ← described_all_iff]
    cases failsAt with
    | some cut =>
      refine iff_of_false (fun counted => ?_) (by simp)
      obtain ⟨e, failed⟩ := counted.fails rfl (by simp)
      cases failed
    | none =>
      constructor
      · intro counted
        have same := Except.ok.inj (counted.agrees (Or.inr rfl))
        exact Or.inr ⟨rfl, by simpa using same⟩
      · rintro (unknown | ⟨-, same⟩)
        · exact absurd rfl unknown
        · exact ⟨fun _ => congrArg Except.ok (by simpa using same), fun _ cut => absurd rfl cut⟩

end Counting

section TwoDescriptors

/-- Links without a colon are paths. -/
instance : FDTarget Str where
  fromStr := some

/-- Standard input and one more descriptor. -/
def twoDescriptors (link : Bytes) : FdDirectory where
  entries := [encodeUtf8 ".", encodeUtf8 "..", encodeUtf8 "0", encodeUtf8 "3"]
  link n := if n = 0 then encodeUtf8 "/dev/null" else link
  metadata _ := ⟨0o500, 64, 1000⟩
  distinct := by decide
  numeric := by
    have dot : numberIn (toStringLossy (encodeUtf8 ".")) = none := by decide
    have dots : numberIn (toStringLossy (encodeUtf8 "..")) = none := by decide
    have zero : numberIn (toStringLossy (encodeUtf8 "0")) = some 0 := by decide
    have three : numberIn (toStringLossy (encodeUtf8 "3")) = some 3 := by decide
    intro name mem n number
    simp only [List.mem_cons, List.not_mem_nil, or_false] at mem
    rcases mem with rfl | rfl | rfl | rfl
    · cases dot.symm.trans number
    · cases dots.symm.trans number
    · cases zero.symm.trans number
      decide
    · cases three.symm.trans number
      decide

/-- A kernel that reports no size for the directory, and this release. -/
def withoutSize (release link : Bytes) : (op : SysOp) → op.Res
  | .openAt _ path options =>
    if .nofollow ∈ options.customFlags ∧ .path ∉ options.customFlags then .error eloop
    else .ok ⟨path⟩
  | .readToEnd _ => .ok release
  | .readLink file =>
    .ok (if file.label = joinPath "fd" (display (0 : Int32)) then encodeUtf8 "/dev/null" else link)
  | .metadataAt _ path =>
    if path = "fd".toList then .ok ⟨0o500, 0, 1000⟩ else .ok ⟨0o500, 64, 1000⟩
  | .readDir _ => .ok ((twoDescriptors link).listing none)
  | op => bare op

theorem reports_withoutSize (release link : Bytes) (seen : Option Version) :
    Reports (withoutSize release link) twentySeven (twoDescriptors link) 0 none seen where
  stated := ⟨⟨0o500, 0, 1000⟩, rfl, rfl⟩
  sized := Or.inl rfl
  listed := ⟨⟨"fd"⟩, rfl, rfl⟩
  refused n mem options unfollowed unnamed := if_pos ⟨unfollowed.1, unnamed⟩
  entered modern n mem options _ named := by
    have numbers : [encodeUtf8 ".", encodeUtf8 "..", encodeUtf8 "0", encodeUtf8 "3"].filterMap
        (fun name => numberIn (toStringLossy name)) = [0, 3] := by decide
    change n ∈ [encodeUtf8 ".", encodeUtf8 "..", encodeUtf8 "0", encodeUtf8 "3"].filterMap
      (fun name => numberIn (toStringLossy name)) at mem
    simp only [numbers, List.mem_cons, List.not_mem_nil, or_false] at mem
    refine ⟨⟨joinPath "fd" (display n)⟩, if_neg fun unnamed => unnamed.2 named, ?_, rfl⟩
    rcases mem with rfl | rfl
    · rfl
    · exact congrArg Except.ok (if_neg (by decide))

theorem fdCount_counted_iff_path :
    Counted (twoDescriptors (encodeUtf8 "/tmp/log")) 0 none
      (exec (handle (fixed (withoutSize (encodeUtf8 "5.4.0-42\n") (encodeUtf8 "/tmp/log"))))
        (@fdCount littleEndian64 CoreError _ Str _ twentySeven) ⟨0, ()⟩).1 := by
  let _ := littleEndian64
  refine (@fdCount_counted_iff littleEndian64 CoreError _ Str _ _ _ _ _ _ ⟨0, ()⟩
    (reports_withoutSize _ _ _)).mpr (Or.inr ⟨rfl, ?_, List.all_eq_true.mp (by decide)⟩)
  intro old
  exact absurd old (by decide)

/-- A link that is not UTF-8 leaves its descriptor out of the count. -/
theorem fdCount_misses_descriptor :
    Reports (withoutSize (encodeUtf8 "5.4.0-42\n") [0xFF]) twentySeven (twoDescriptors [0xFF]) 0
        none (@versionSeen littleEndian64 (withoutSize (encodeUtf8 "5.4.0-42\n") [0xFF])
          twentySeven.procfs 0) ∧
      ¬ Counted (twoDescriptors [0xFF]) 0 none
        (exec (handle (fixed (withoutSize (encodeUtf8 "5.4.0-42\n") [0xFF])))
          (@fdCount littleEndian64 CoreError _ Str _ twentySeven) ⟨0, ()⟩).1 := by
  refine ⟨reports_withoutSize _ _ _, fun counted => ?_⟩
  have agreed := counted.agrees (Or.inr rfl)
  revert agreed
  decide

end TwoDescriptors

end Descriptors
