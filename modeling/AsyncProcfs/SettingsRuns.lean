import AsyncProcfs.SysKernel
import AsyncProcfs.TornWrites

/-!
# Runs of every call of `sys().kernel()`

Opens, reads and writes may fail in any way, and a failed write may leave a part
of its text. What a getter of a setting returns still goes back to one attempt to
set it, or to the file as it was; no other file changes.
-/

namespace SettingsRuns

open ProgramRuns TornWrites Text IntText Procfs KernelVersion KernelBuild Semaphores
  OrdinaryFiles Sysctl SysrqSetting SysKernel

/-- The three calls that write. -/
inductive Setter where
  | shmmax (newValue : UInt64)
  | sysrq (new : SysRq)
  | threadsMax (newLimit : UInt32)
  deriving DecidableEq, Repr

inductive Call where
  | set (setter : Setter)
  | currentVersion
  | currentType
  | currentBuildInfo (isUppercase : Char → Bool)
  | semaphoreLimits
  | pidMax
  | shmmax
  | shmmni
  | shmall
  | sysrq
  | threadsMax

abbrev Call.Res : Call → Type
  | .set _ => Unit
  | .currentVersion => Version
  | .currentType => KernelType
  | .currentBuildInfo _ => BuildInfo
  | .semaphoreLimits => SemaphoreLimits
  | .pidMax => Int32
  | .shmmax => UInt64
  | .shmmni => UInt64
  | .shmall => UInt64
  | .sysrq => SysRq
  | .threadsMax => UInt32

/-- The file a setter writes, and its text. -/
def Setter.target : Setter → Path × Bytes
  | .shmmax newValue => ("sys/kernel/shmmax", encodeUtf8 (display newValue))
  | .sysrq new => ("sys/kernel/sysrq", encodeUtf8 (display new.toNumber))
  | .threadsMax newLimit => ("sys/kernel/threads-max", encodeUtf8 (display newLimit))

def Call.sets : Call → Option (Path × Bytes)
  | .set setter => some setter.target
  | _ => none

theorem target_relative (setter : Setter) : setter.target.1.head? ≠ some '/' := by
  cases setter with
  | shmmax newValue => exact of_decide_eq_true rfl
  | sysrq new => exact of_decide_eq_true rfl
  | threadsMax newLimit => exact of_decide_eq_true rfl

/-- Two settings in different files are apart. -/
theorem sets_apart (procfs : AsyncProcfs) {call : Call} {path path' : Path} {text : Bytes}
    (sets : call.sets = some (path', text)) (relative : path.head? ≠ some '/') (apart : path ≠ path') :
    fileAt procfs path ≠ fileAt procfs path' := by
  cases call with
  | set setter =>
    have own := target_relative setter
    rw [Option.some.inj sets] at own
    rwa [ne_eq, fileAt_inj relative own]
  | _ => cases sets

/-- A setting that is one number in a file of its own. -/
structure Cell (α : Type) [MachineInt α] where
  path : Path
  value : Setter → Option α
  relative : path.head? ≠ some '/'
  target_iff : ∀ setter text, setter.target = (path, text) ↔
    ∃ v, value setter = some v ∧ text = encodeUtf8 (display v)

namespace Cell

variable {α : Type} [MachineInt α] (cell : Cell α)

def attempted : Call → Option α
  | .set setter => cell.value setter
  | _ => none

theorem sets_iff (call : Call) (text : Bytes) : call.sets = some (cell.path, text) ↔
    ∃ v, cell.attempted call = some v ∧ text = encodeUtf8 (display v) := by
  cases call with
  | set setter => exact Option.some_inj.trans (cell.target_iff setter text)
  | _ => exact iff_of_false nofun fun ⟨v, attempted, _⟩ => nomatch attempted

end Cell

theorem target_iff_own {setter : Setter} {path : Path} {text : Bytes} {α : Type} [MachineInt α]
    {v : α} (target : setter.target = (path, encodeUtf8 (display v))) :
    setter.target = (path, text) ↔ ∃ v', some v = some v' ∧ text = encodeUtf8 (display v') := by
  constructor
  · intro same
    exact ⟨v, rfl, congrArg Prod.snd (same.symm.trans target)⟩
  · rintro ⟨v', same, rfl⟩
    rw [target, Option.some.inj same]

theorem target_iff_other {setter : Setter} {path : Path} {text : Bytes} {α : Type} [MachineInt α]
    (apart : setter.target.1 ≠ path) :
    setter.target = (path, text) ↔ ∃ v : α, none = some v ∧ text = encodeUtf8 (display v) :=
  iff_of_false (fun same => apart (congrArg Prod.fst same)) (by rintro ⟨v, ⟨⟩, -⟩)

def shmmaxCell : Cell UInt64 where
  path := "sys/kernel/shmmax"
  value
    | .shmmax newValue => some newValue
    | _ => none
  relative := by decide
  target_iff setter text := by
    cases setter with
    | shmmax newValue => exact target_iff_own rfl
    | sysrq new => exact target_iff_other (of_decide_eq_true rfl)
    | threadsMax newLimit => exact target_iff_other (of_decide_eq_true rfl)

def sysrqCell : Cell UInt16 where
  path := "sys/kernel/sysrq"
  value
    | .sysrq new => some new.toNumber
    | _ => none
  relative := by decide
  target_iff setter text := by
    cases setter with
    | shmmax newValue => exact target_iff_other (of_decide_eq_true rfl)
    | sysrq new => exact target_iff_own rfl
    | threadsMax newLimit => exact target_iff_other (of_decide_eq_true rfl)

def threadsMaxCell : Cell UInt32 where
  path := "sys/kernel/threads-max"
  value
    | .threadsMax newLimit => some newLimit
    | _ => none
  relative := by decide
  target_iff setter text := by
    cases setter with
    | shmmax newValue => exact target_iff_other (of_decide_eq_true rfl)
    | sysrq new => exact target_iff_other (of_decide_eq_true rfl)
    | threadsMax newLimit => exact target_iff_own rfl

section Model

variable [Platform] {ε : Type} [ProcError ε]

def Setter.program (procfs : AsyncProcfs) : Setter → Io ε Unit
  | .shmmax newValue => (kernel procfs).setShmmax newValue
  | .sysrq new => (kernel procfs).setSysrq new
  | .threadsMax newLimit => (kernel procfs).setThreadsMax newLimit

def Call.program (procfs : AsyncProcfs) : (call : Call) → Io ε call.Res
  | .set setter => setter.program procfs
  | .currentVersion => (kernel procfs).currentVersion
  | .currentType => (kernel procfs).currentType
  | .currentBuildInfo isUppercase => (kernel procfs).currentBuildInfo isUppercase
  | .semaphoreLimits => (kernel procfs).semaphoreLimits
  | .pidMax => (kernel procfs).pidMax
  | .shmmax => (kernel procfs).shmmax
  | .shmmni => (kernel procfs).shmmni
  | .shmall => (kernel procfs).shmall
  | .sysrq => (kernel procfs).sysrq
  | .threadsMax => (kernel procfs).threadsMax

section Steps

/-- What one call can do to the files. -/
inductive Step (procfs : AsyncProcfs) (before : Files) (call : Call) :
    Except ε call.Res → Files → Prop
  | still {result : Except ε call.Res} (unset : call.sets = none ∨ ∃ e, result = .error e) :
      Step procfs before call result before
  | whole {v : call.Res} {path : Path} {text : Bytes} (sets : call.sets = some (path, text)) :
      Step procfs before call (.ok v) (Function.update before (fileAt procfs path) (some text))
  | part {e : ε} {path : Path} {text : Bytes} (sets : call.sets = some (path, text)) (n : Nat) :
      Step procfs before call (.error e)
        (Function.update before (fileAt procfs path) (some (text.take n)))

variable (c : Conditions) (procfs : AsyncProcfs) (w : World Files)

omit [Platform] in
theorem step_writeFile {setter : Setter} {path : Path} {text : Bytes}
    (target : setter.target = (path, text)) :
    let out := exec (handle (files c)) (procfs.writeFile path text : Io ε Unit) w
    Step procfs w.env (.set setter) out.1 out.2.env := by
  rw [exec_writeFile]
  have sets : (Call.set setter).sets = some (path, text) := congrArg some target
  cases c.openError (fileAt procfs path) writing with
  | some e => exact .still (Or.inr ⟨_, rfl⟩)
  | none =>
    cases c.writeError (fileAt procfs path) with
    | some failure => exact .part sets failure.1
    | none => exact .whole sets

theorem step_setThreadsMax (newLimit : UInt32) :
    let out := exec (handle (files c)) (Sysctl.setThreadsMax procfs newLimit : Io ε Unit) w
    Step procfs w.env (.set (.threadsMax newLimit)) out.1 out.2.env := by
  rw [exec_setThreadsMax]
  have looked := @looked_env _ ε _ c procfs w
  dsimp only
  split
  · rw [looked]
    exact .still (Or.inr ⟨_, rfl⟩)
  · rw [← looked]
    exact step_writeFile c procfs _ rfl

theorem getter_issues {call : Call} (unset : call.sets = none) :
    Issues Reading (call.program procfs : Io ε call.Res).run := by
  cases call with
  | set setter => cases unset
  | _ => exact issues_readValue procfs _ _ _

theorem step_call (call : Call) :
    let out := exec (handle (files c)) (call.program procfs : Io ε call.Res) w
    Step procfs w.env call out.1 out.2.env := by
  cases sets : call.sets with
  | none =>
    have reading := issues_mono peeking_of_reading (@getter_issues _ ε _ procfs call sets)
    have same : (exec (handle (files c)) (call.program procfs : Io ε call.Res) w).2.env = w.env :=
      run_view World.env (peeking_still c) reading w
    dsimp only
    rw [same]
    exact .still (Or.inl sets)
  | some target =>
    cases call with
    | set setter =>
      cases setter with
      | shmmax newValue => exact step_writeFile c procfs w rfl
      | sysrq new => exact step_writeFile c procfs w rfl
      | threadsMax newLimit => exact step_setThreadsMax c procfs w newLimit
    | _ => cases sets

end Steps

section Runs

/-- A finished call: what was asked, and what it returned. -/
abbrev Event (ε : Type) := (call : Call) × Except ε call.Res

def Done (e : Event ε) : Prop := ∃ v, e.2 = .ok v

variable (procfs : AsyncProcfs)

variable {α : Type} [MachineInt α] (cell : Cell α)

def Cell.discipline (ε : Type) : Discipline (Event ε) α (Option Bytes) where
  attempts e := cell.attempted e.1
  Done := Done
  whole v := some (encodeUtf8 (display v))
  Part v left := ∃ n, left = some ((encodeUtf8 (display v)).take n)

omit [Platform] [ProcError ε] in
theorem step_leaves {before after : Files} {call : Call} {result : Except ε call.Res}
    (step : Step procfs before call result after) :
    Leaves (cell.discipline ε) ⟨call, result⟩ (before (fileAt procfs cell.path))
      (after (fileAt procfs cell.path)) := by
  have set_of_value (isSome : (cell.attempted call).isSome = true) :
      ∃ text, call.sets = some (cell.path, text) := by
    obtain ⟨v, value⟩ := Option.isSome_iff_exists.mp isSome
    exact ⟨_, (cell.sets_iff call _).mpr ⟨v, value, rfl⟩⟩
  have elsewhere {path : Path} {text : Bytes} (sets : call.sets = some (path, text))
      (apart : cell.path ≠ path) (r : Except ε call.Res) :
      ¬ (cell.discipline ε).Sets ⟨call, r⟩ := by
    rintro ⟨-, isSome⟩
    obtain ⟨text', own⟩ := set_of_value isSome
    exact apart (congrArg Prod.fst (Option.some.inj (own.symm.trans sets)))
  cases step with
  | still unset =>
    refine .unmoved fun ⟨⟨v, ok⟩, isSome⟩ => ?_
    rcases unset with none | ⟨e, failed⟩
    · obtain ⟨text, own⟩ := set_of_value isSome
      cases own.symm.trans none
    · cases ok.symm.trans failed
  | @whole v path text sets =>
    by_cases apart : cell.path = path
    · subst apart
      obtain ⟨a, attempted, rfl⟩ := (cell.sets_iff call text).mp sets
      rw [Function.update_self]
      exact .whole attempted ⟨v, rfl⟩
    · rw [Function.update_of_ne (sets_apart procfs sets cell.relative apart)]
      exact .unmoved (elsewhere sets apart _)
  | @part e path text sets n =>
    by_cases apart : cell.path = path
    · subst apart
      obtain ⟨a, attempted, rfl⟩ := (cell.sets_iff call text).mp sets
      rw [Function.update_self]
      exact .part attempted (by rintro ⟨v, ⟨⟩⟩) ⟨n, rfl⟩
    · rw [Function.update_of_ne (sets_apart procfs sets cell.relative apart)]
      exact .unmoved (elsewhere sets apart _)

/-- After a run the file of a setting goes back to one attempt, or to what it was. -/
theorem run_holds (calls : List (Conditions × Call))
    (w : World Files) :
    let out : List (Event ε) × World Files := runCalls (Call.program procfs) calls w
    Holds (cell.discipline ε) (w.env (fileAt procfs cell.path)) out.1
      (out.2.env (fileAt procfs cell.path)) := by
  let file := fileAt procfs cell.path
  refine runEach_kept (P := fun (events : List (Event ε)) (now : World Files) =>
    Holds (cell.discipline ε) (w.env file) events (now.env file)) ?_ ?_
  · exact .initial fun _ mem => absurd mem List.not_mem_nil
  · intro events now x _ holds
    exact holds_snoc holds (step_leaves procfs cell (step_call x.1 procfs now x.2))

omit [Platform] [ProcError ε] in
theorem step_frame {before after : Files} {call : Call} {result : Except ε call.Res}
    (step : Step procfs before call result after) {file : File}
    (apart : ∀ {path : Path} {text : Bytes}, call.sets = some (path, text) →
      file ≠ fileAt procfs path) : after file = before file := by
  cases step with
  | still unset => rfl
  | whole sets => exact Function.update_of_ne (apart sets) _ _
  | part sets n => exact Function.update_of_ne (apart sets) _ _

/-- Files that are no setting's stay as they are. -/
theorem run_frame (calls : List (Conditions × Call)) (w : World Files) {file : File}
    (other : ∀ setter : Setter, file ≠ fileAt procfs setter.target.1) :
    (runCalls (Call.program procfs) calls w : List (Event ε) × World Files).2.env file = w.env file := by
  have apart {call : Call} {path : Path} {text : Bytes} (sets : call.sets = some (path, text)) :
      file ≠ fileAt procfs path := by
    cases call with
    | set setter =>
      have own := other setter
      rwa [Option.some.inj sets] at own
    | _ => cases sets
  refine runEach_kept (P := fun _ (now : World Files) => now.env file = w.env file) rfl ?_
  intro events now x _ same
  exact (step_frame procfs (step_call x.1 procfs now x.2) apart).trans same

end Runs

section Answers

variable (procfs : AsyncProcfs)

/-- What `read_value` says of a file: of one that is not there, or of a content. -/
def valueOf {α E : Type} (parse : Str → Except E α) (into : E → ε) (path : Path) :
    Option Bytes → Except ε α
  | none => .error (ProcError.errorPath (ProcError.fromIo (.os .notFound)) path)
  | some content => valueIn parse into path content

/-- The same for a number. -/
abbrev meaning (α : Type) [MachineInt α] : Path → Option Bytes → Except ε α :=
  valueOf (parse α) ProcError.fromParseInt

section Readings

variable {α E : Type} {parse : Str → Except E α} {into : E → ε} {c : Conditions} {path : Path}
  {w : World Files}

omit [Platform]

theorem exec_readValue_absent (opens : c.openError (fileAt procfs path) reading = none)
    (absent : w.env (fileAt procfs path) = none) :
    exec (handle (files c)) (procfs.readValue parse into path) w =
      (valueOf parse into (joinPath procfs.root path) none, w) := by
  have missing : run (handle (files c)) (sys (.openAt procfs.file path reading)) w =
      (.error (.os .notFound), w) := by
    rw [run_sys]
    simp only [files, openFile]
    rw [← fileAt, opens, absent]
    rfl
  simp only [AsyncProcfs.readValue, AsyncProcfs.readFile, exec_bind, exec_lift, exec_ofOutcome]
  rw [missing]
  rfl

theorem exec_readValue_any (opens : c.openError (fileAt procfs path) reading = none)
    (reads : c.readError (fileAt procfs path) = none) :
    exec (handle (files c)) (procfs.readValue parse into path) w =
      (valueOf parse into (joinPath procfs.root path) (w.env (fileAt procfs path)), w) := by
  cases present : w.env (fileAt procfs path) with
  | some content => exact exec_readValue c procfs path w _ _ opens reads present
  | none => exact exec_readValue_absent procfs opens present

/-- A value that is returned is the one in the file. -/
theorem valueOf_of_ok {a : α}
    (ok : (exec (handle (files c)) (procfs.readValue parse into path) w).1 = .ok a) :
    valueOf parse into (joinPath procfs.root path) (w.env (fileAt procfs path)) = .ok a := by
  cases opens : c.openError (fileAt procfs path) reading with
  | some e =>
    have refused := run_openAt_refused c procfs.file path w opens
    simp only [AsyncProcfs.readValue, AsyncProcfs.readFile, exec_bind, exec_lift] at ok
    rw [refused] at ok
    cases ok
  | none =>
    cases reads : c.readError (fileAt procfs path) with
    | none =>
      rw [exec_readValue_any procfs opens reads] at ok
      exact ok
    | some e =>
      cases present : w.env (fileAt procfs path) with
      | none =>
        rw [exec_readValue_absent procfs opens present] at ok
        exact ok
      | some content =>
        have opened := run_openAt_present c procfs.file path w opens present rfl
        have fails : (run (handle (files c)) (readToString (fileAt procfs path)) w).1 =
            .error e := by
          rw [run_readToString]
          simp only [files]
          rw [reads]
          rfl
        simp only [AsyncProcfs.readValue, AsyncProcfs.readFile, exec_bind, exec_lift] at ok
        rw [opened] at ok
        simp only [errorPath, Except.mapError, exec_ofOutcome] at ok
        rw [← fileAt, fails] at ok
        cases ok

end Readings

/-- Why a getter may answer as it does: the file as it was, an attempt that succeeded, or one
that failed and left the first digits of its number, all but the last `k`, or none. Nothing set
the number since. -/
inductive Explains {α : Type} [MachineInt α] (cell : Cell α) (path : Path) (initial : Option Bytes)
    (events : List (Event ε)) : Except ε α → Prop
  | initial (unset : ∀ e ∈ events, ¬ (cell.discipline ε).Sets e) :
      Explains cell path initial events (meaning α path initial)
  | written {before after : List (Event ε)} {e : Event ε} {v : α} (split : events = before ++ e :: after)
      (attempted : cell.attempted e.1 = some v) (done : Done e)
      (since : ∀ e' ∈ after, ¬ (cell.discipline ε).Sets e') : Explains cell path initial events (.ok v)
  | torn {before after : List (Event ε)} {e : Event ε} {v u : α} (split : events = before ++ e :: after)
      (attempted : cell.attempted e.1 = some v) (failed : ¬ Done e)
      (since : ∀ e' ∈ after, ¬ (cell.discipline ε).Sets e') (k : Nat)
      (left : k < (display v).length)
      (digits : MachineInt.toInt u = MachineInt.toInt v / 10 ^ k) :
      Explains cell path initial events (.ok u)
  | emptied {before after : List (Event ε)} {e : Event ε} {v : α} (split : events = before ++ e :: after)
      (attempted : cell.attempted e.1 = some v) (failed : ¬ Done e)
      (since : ∀ e' ∈ after, ¬ (cell.discipline ε).Sets e') :
      Explains cell path initial events (.error (ProcError.fromParseInt .empty))

omit [Platform] in
theorem sysrq_number (path : Path) (now : Option Bytes) :
    (valueOf SysRq.fromStr id path now : Except ε SysRq) =
      meaning UInt16 path now >>= SysRq.fromNumber := by
  cases now with
  | none => rfl
  | some content =>
    simp only [meaning, valueOf, valueIn]
    cases decodeUtf8 content with
    | none => rfl
    | some s =>
      change (SysRq.fromStr (trim s)).mapError id =
        (parse UInt16 (trim s)).mapError ProcError.fromParseInt >>= SysRq.fromNumber
      rw [SysRq.fromStr]
      cases parse UInt16 (trim s) with
      | error e => rfl
      | ok number =>
        change (SysRq.fromNumber number).mapError id = SysRq.fromNumber number
        cases (SysRq.fromNumber number : Except ε SysRq) with
        | ok v => rfl
        | error e => rfl

omit [Platform] in
theorem meaning_take {α : Type} [MachineInt α] (unsigned : MachineInt.min α = 0) (path : Path) (v : α)
    (n : Nat) :
    (meaning α path (some ((encodeUtf8 (display v)).take n)) : Except ε α) =
      (parse α ((display v).take n)).mapError ProcError.fromParseInt := by
  have digits := digits_display unsigned v
  rw [take_encodeUtf8 fun c mem => utf8Size_digit (digits c mem)]
  exact valueIn_encodeUtf8 path _ _ fun c mem => display_solid v c (List.mem_of_mem_take mem)

omit [Platform] in
theorem explains_of_holds {α : Type} [MachineInt α] {cell : Cell α} (unsigned : MachineInt.min α = 0)
    (path : Path) {initial now : Option Bytes} {events : List (Event ε)}
    (holds : Holds (cell.discipline ε) initial events now) :
    Explains cell path initial events (meaning α path now) := by
  cases holds with
  | initial unset => exact .initial unset
  | @whole before after e v split attempted done since =>
    have value : (meaning α path ((cell.discipline ε).whole v) : Except ε α) = .ok v := by
      refine (valueIn_encodeUtf8 path _ _ (display_solid v)).trans ?_
      rw [parse_display]
      rfl
    rw [value]
    exact .written split attempted done since
  | @part before after e v left split attempted failed part since =>
    obtain ⟨n, rfl⟩ := part
    rw [meaning_take unsigned]
    rcases parse_take_display unsigned v n with empty | ⟨u, k, left, read, digits⟩
    · rw [empty]
      exact .emptied split attempted failed since
    · rw [read]
      exact .torn split attempted failed since k left digits

/-- What the getters answer after calls that started on the files of `w` and ended with
`events`, when the files are now those of `now`. -/
structure Explained (w : World Files) (events : List (Event ε)) (c : Conditions)
    (now : World Files) : Prop where
  shmmax : c.openError (fileAt procfs "sys/kernel/shmmax") reading = none →
    c.readError (fileAt procfs "sys/kernel/shmmax") = none →
    Explains shmmaxCell (joinPath procfs.root "sys/kernel/shmmax")
      (w.env (fileAt procfs "sys/kernel/shmmax")) events
      (exec (handle (files c)) (kernel procfs).shmmax now).1
  threadsMax : c.openError (fileAt procfs "sys/kernel/threads-max") reading = none →
    c.readError (fileAt procfs "sys/kernel/threads-max") = none →
    Explains threadsMaxCell (joinPath procfs.root "sys/kernel/threads-max")
      (w.env (fileAt procfs "sys/kernel/threads-max")) events
      (exec (handle (files c)) (kernel procfs).threadsMax now).1
  sysrq : c.openError (fileAt procfs "sys/kernel/sysrq") reading = none →
    c.readError (fileAt procfs "sys/kernel/sysrq") = none →
    ∃ number, Explains sysrqCell (joinPath procfs.root "sys/kernel/sysrq")
        (w.env (fileAt procfs "sys/kernel/sysrq")) events number ∧
      (exec (handle (files c)) (kernel procfs).sysrq now).1 = number >>= SysRq.fromNumber
  others : ∀ file, (∀ setter : Setter, file ≠ fileAt procfs setter.target.1) →
    now.env file = w.env file

/-- After any run, whatever failed in it, every getter of a setting answers by one attempt to set
it that no success followed, or by the file as it was; the files of no setting never change. -/
theorem settings_explained (calls : List (Conditions × Call)) (w : World Files) (c : Conditions) :
    let out : List (Event ε) × World Files := runCalls (Call.program procfs) calls w
    Explained procfs w out.1 c out.2 where
  shmmax opens reads := by
    rw [show (kernel procfs).shmmax = procfs.readInt UInt64 _ from rfl, AsyncProcfs.readInt,
      exec_readValue_any procfs opens reads]
    exact explains_of_holds rfl _ (run_holds procfs shmmaxCell calls w)
  threadsMax opens reads := by
    rw [show (kernel procfs).threadsMax = procfs.readInt UInt32 _ from rfl, AsyncProcfs.readInt,
      exec_readValue_any procfs opens reads]
    exact explains_of_holds rfl _ (run_holds procfs threadsMaxCell calls w)
  sysrq opens reads := by
    refine ⟨_, explains_of_holds rfl _ (run_holds procfs sysrqCell calls w), ?_⟩
    rw [show (kernel procfs).sysrq = procfs.readValue SysRq.fromStr id _ from rfl,
      exec_readValue_any procfs opens reads]
    exact sysrq_number _ _
  others file other := run_frame procfs calls w other

end Answers

section Bound

variable {procfs : AsyncProcfs} {w : World Files}

/-- The static holds a version whose minor version is at least 1, of Linux 4 or later. -/
def Bounds (w : World Files) : Prop :=
  w.kernel ≠ Version.sentinel ∧ (Version.fromU32 w.kernel).major ≥ 4 ∧
    (Version.fromU32 w.kernel).minor ≥ 1

instance (w : World Files) : Decidable (Bounds w) := inferInstanceAs (Decidable (_ ∧ _))

/-- What the file says, if it says a number, is not above the maximum. -/
def Below (ε : Type) [ProcError ε] (procfs : AsyncProcfs) (content : Option Bytes) : Prop :=
  ∀ v, (meaning UInt32 (joinPath procfs.root "sys/kernel/threads-max") content : Except ε UInt32) =
    .ok v → v ≤ THREADS_MAX

omit [Platform] in
theorem writeFile_kernel (c : Conditions) (path : Path) (data : Bytes) :
    (exec (handle (files c)) (procfs.writeFile path data : Io ε Unit) w).2.kernel = w.kernel := by
  rw [exec_writeFile]
  split <;> rfl

theorem exec_cached_held (c : Conditions) (held : w.kernel ≠ Version.sentinel) :
    exec (handle (files c)) (Version.cached procfs : Io ε Version) w =
      (.ok (Version.fromU32 w.kernel), w) := by
  rw [Version.exec_cached, if_neg held]

theorem kernel_kept (c : Conditions) (held : w.kernel ≠ Version.sentinel) (call : Call) :
    (exec (handle (files c)) (call.program procfs : Io ε call.Res) w).2.kernel = w.kernel := by
  cases sets : call.sets with
  | none =>
    have toSystem := issues_mono toSystem_of_reading (@getter_issues _ ε _ procfs call sets)
    refine run_view World.kernel (fun op permitted w => ?_) toSystem w
    cases op with
    | sys op => rfl
    | load => exact permitted.elim
    | store value => exact permitted.elim
  | some target =>
    cases call with
    | set setter =>
      cases setter with
      | shmmax newValue => exact writeFile_kernel c _ _
      | sysrq new => exact writeFile_kernel c _ _
      | threadsMax newLimit =>
        change (exec _ (Sysctl.setThreadsMax procfs newLimit : Io ε Unit) w).2.kernel = _
        rw [exec_setThreadsMax, exec_cached_held c held]
        dsimp only
        split
        · rfl
        · exact writeFile_kernel c _ _
    | _ => cases sets

/-- A limit out of range is refused without touching the file. -/
theorem threadsMax_refused (c : Conditions) (bounds : Bounds w) {newLimit : UInt32}
    (out : ¬ InRange newLimit) :
    exec (handle (files c)) ((Call.set (.threadsMax newLimit)).program procfs : Io ε Unit) w =
      (.error (ProcError.other
        (display newLimit ++ " is outside the THREADS_MIN..=THREADS_MAX range".toList)), w) := by
  change exec _ (Sysctl.setThreadsMax procfs newLimit : Io ε Unit) w = _
  rw [exec_setThreadsMax, exec_cached_held c bounds.1]
  exact if_pos ⟨bounds.2.1, bounds.2.2, out⟩

omit [Platform] in
theorem below_part {newLimit : UInt32} (inRange : InRange newLimit) (n : Nat) :
    Below ε procfs (some ((encodeUtf8 (display newLimit)).take n)) := by
  intro v read
  rw [meaning_take rfl] at read
  rcases parse_take_display rfl newLimit n with empty | ⟨u, k, -, parsed, digits⟩
  · rw [empty] at read
    cases read
  · rw [parsed] at read
    obtain rfl := Except.ok.inj read
    have smaller : MachineInt.toInt u ≤ MachineInt.toInt newLimit :=
      digits ▸ Int.ediv_le_self _ (Int.natCast_nonneg _)
    have smaller : (u.toNat : Int) ≤ newLimit.toNat := smaller
    have bounded : newLimit.toNat ≤ THREADS_MAX.toNat := UInt32.le_iff_toNat_le.mp inRange.2
    rw [UInt32.le_iff_toNat_le]
    omega

omit [Platform] in
theorem below_leaves {e : Event ε} {before after : Option Bytes}
    (leaves : Leaves (threadsMaxCell.discipline ε) e before after)
    (inRange : ∀ newLimit, threadsMaxCell.attempted e.1 = some newLimit → InRange newLimit)
    (below : Below ε procfs before) : Below ε procfs after := by
  cases leaves with
  | unmoved unset => exact below
  | @whole newLimit attempted done =>
    have all := @below_part ε _ procfs newLimit (inRange newLimit attempted)
      (encodeUtf8 (display newLimit)).length
    rwa [List.take_length] at all
  | part attempted failed part =>
    obtain ⟨n, rfl⟩ := part
    exact below_part (inRange _ attempted) n

theorem below_step (c : Conditions) (bounds : Bounds w) (call : Call)
    (below : Below ε procfs (w.env (fileAt procfs "sys/kernel/threads-max"))) :
    Below ε procfs ((exec (handle (files c)) (call.program procfs : Io ε call.Res) w).2.env
      (fileAt procfs "sys/kernel/threads-max")) := by
  by_cases refused : ∃ newLimit, call = .set (.threadsMax newLimit) ∧ ¬ InRange newLimit
  · obtain ⟨newLimit, rfl, out⟩ := refused
    have same := @threadsMax_refused _ ε _ procfs w c bounds newLimit out
    rw [show exec _ _ w = _ from same]
    exact below
  · refine below_leaves (step_leaves procfs threadsMaxCell (step_call c procfs w call)) ?_ below
    intro newLimit attempted
    by_contra out
    cases call with
    | set setter =>
      cases setter with
      | threadsMax limit =>
        obtain rfl := Option.some.inj attempted
        exact refused ⟨_, rfl, out⟩
      | shmmax newValue => cases attempted
      | sysrq new => cases attempted
    | _ => cases attempted

/-- Every limit out of range was refused as such. -/
def Refused (events : List (Event ε)) : Prop :=
  ∀ newLimit r, ⟨.set (.threadsMax newLimit), r⟩ ∈ events → ¬ InRange newLimit →
    r = .error (ProcError.other
      (display newLimit ++ " is outside the THREADS_MIN..=THREADS_MAX range".toList))

theorem refused_snoc (c : Conditions) (bounds : Bounds w) (call : Call) {events : List (Event ε)}
    (refused : Refused events) :
    Refused (events ++ [⟨call, (exec (handle (files c)) (call.program procfs) w).1⟩]) := by
  intro newLimit r mem out
  rcases List.mem_append.mp mem with mem | mem
  · exact refused newLimit r mem out
  · cases List.mem_singleton.mp mem
    rw [threadsMax_refused c bounds out]

theorem run_bounded (calls : List (Conditions × Call)) (bounds : Bounds w)
    (below : Below ε procfs (w.env (fileAt procfs "sys/kernel/threads-max"))) :
    let out : List (Event ε) × World Files := runCalls (Call.program procfs) calls w
    out.2.kernel = w.kernel ∧ Refused out.1 ∧
      Below ε procfs (out.2.env (fileAt procfs "sys/kernel/threads-max")) := by
  refine runEach_kept (P := fun events (now : World Files) => now.kernel = w.kernel ∧ Refused events ∧
    Below ε procfs (now.env (fileAt procfs "sys/kernel/threads-max"))) ?_ ?_
  · exact ⟨rfl, fun _ _ mem => absurd mem List.not_mem_nil, below⟩
  · rintro events now x - ⟨kernel, refused, below⟩
    have bounds : Bounds now := by
      rwa [Bounds, kernel]
    exact ⟨(kernel_kept x.1 bounds.1 x.2).trans kernel, refused_snoc x.1 bounds x.2 refused,
      below_step x.1 bounds x.2 below⟩

variable (procfs)

/-- Once the static holds a version of Linux 4 or later with a minor version of at least 1, then
in every run every limit out of range is refused as such, and `threads_max` never returns a
limit above the maximum, whatever else fails, if it did not at the start. -/
theorem threadsMax_bounded (calls : List (Conditions × Call)) (bounds : Bounds w)
    (below : Below ε procfs (w.env (fileAt procfs "sys/kernel/threads-max"))) :
    let out : List (Event ε) × World Files := runCalls (Call.program procfs) calls w
    Refused out.1 ∧ ∀ c v,
      (exec (handle (files c)) ((kernel procfs).threadsMax : Io ε UInt32) out.2).1 = .ok v →
        v ≤ THREADS_MAX := by
  obtain ⟨-, refused, below⟩ := run_bounded calls bounds below
  exact ⟨refused, fun c v ok => below v (valueOf_of_ok procfs ok)⟩

end Bound

end Model

section OneRun

/-- A tree of a 5.4 kernel whose version was looked up before. -/
def fiveFourHeld : World Files where
  kernel := @Version.toU32 littleEndian64 ⟨5, 4, 0⟩
  env file := if file = ⟨"/proc/sys/kernel/threads-max"⟩ then some (encodeUtf8 "63704\n")
    else none

/-- Writing stops after two bytes. -/
def breaking : Conditions := { Conditions.calm with writeError := fun _ => some (2, .os (.other 28)) }

/-- A limit out of range, one in range whose write breaks, and the getter. -/
def broken : List (Conditions × Call) :=
  [(.calm, .set (.threadsMax 5)), (breaking, .set (.threadsMax 987654)), (.calm, .threadsMax)]

/-- The getter returns the first two digits. -/
theorem threadsMax_bounded_broken :
    (exec (handle (files .calm)) (kernel slashProc).threadsMax
        (runCalls (@Call.program littleEndian64 CoreError _ slashProc) broken fiveFourHeld).2).1 =
      (.ok 98 : Except CoreError UInt32) ∧ (98 : UInt32) ≤ THREADS_MAX := by
  let _ := littleEndian64
  have read : (exec (handle (files .calm)) (kernel slashProc).threadsMax
      (runCalls (Call.program slashProc) broken fiveFourHeld : List (Event CoreError) × World Files).2).1 =
        (.ok 98 : Except CoreError UInt32) := by
    decide
  have below : Below CoreError slashProc
      (fiveFourHeld.env (fileAt slashProc "sys/kernel/threads-max")) := by
    intro v ok
    have value : (meaning UInt32 (joinPath slashProc.root "sys/kernel/threads-max")
        (fiveFourHeld.env (fileAt slashProc "sys/kernel/threads-max")) : Except CoreError UInt32) =
          .ok 63704 := by
      decide
    obtain rfl := Except.ok.inj (value.symm.trans ok)
    decide
  exact ⟨read, (threadsMax_bounded slashProc broken (by decide) below).2 .calm 98 read⟩

end OneRun

end SettingsRuns
