import AsyncProcfs.KernelVersion
import AsyncProcfs.OrdinaryFiles

/-!
# The sysctl setters and getters

`threads-max` is bounded since Linux 4.1, and its setter checks the bound
itself. The check takes the version apart by hand: it needs a minor version of
at least 1 whatever the major version is, so the first release of every later
series passes unchecked.
-/

namespace Sysctl

open ProgramRuns Text IntText Procfs KernelVersion OrdinaryFiles

def THREADS_MIN : UInt32 := 20

def THREADS_MAX : UInt32 := 0x3fffffff

def InRange (newLimit : UInt32) : Prop := THREADS_MIN ≤ newLimit ∧ newLimit ≤ THREADS_MAX

instance (newLimit : UInt32) : Decidable (InRange newLimit) :=
  inferInstanceAs (Decidable (_ ∧ _))

section Functions

variable {ε : Type} [ProcError ε] (procfs : AsyncProcfs)

def shmmax : Io ε UInt64 := procfs.readInt UInt64 "sys/kernel/shmmax"

def setShmmax (newValue : UInt64) : Io ε Unit :=
  procfs.writeValue "sys/kernel/shmmax" newValue

def threadsMax : Io ε UInt32 := procfs.readInt UInt32 "sys/kernel/threads-max"

/-- The condition of the early return. -/
def rejects (kernel : Except ε Version) (newLimit : UInt32) : Prop :=
  match kernel with
  | .ok kernel => kernel.major ≥ 4 ∧ kernel.minor ≥ 1 ∧ ¬ InRange newLimit
  | .error _ => False

instance (kernel : Except ε Version) (newLimit : UInt32) :
    Decidable (rejects kernel newLimit) :=
  match kernel with
  | .ok _ => inferInstanceAs (Decidable (_ ∧ _))
  | .error _ => inferInstanceAs (Decidable False)

def setThreadsMax [Platform] (newLimit : UInt32) : Io ε Unit := do
  let kernel ← attempt (Version.cached procfs : Io ε Version)
  if rejects kernel newLimit then
    throw (ProcError.other
      (display newLimit ++ " is outside the THREADS_MIN..=THREADS_MAX range".toList))
  else
    procfs.writeValue "sys/kernel/threads-max" newLimit

end Functions

section Steps

variable {ε : Type} [ProcError ε]

theorem issues_cached [Platform] (procfs : AsyncProcfs) :
    Issues Peeking (Version.cached procfs : Io ε Version).run := by
  refine issues_run_bind (issues_lift ⟨trivial, fun _ => trivial⟩) fun kernel => ?_
  by_cases empty : kernel = Version.sentinel
  · rw [if_pos empty]
    refine issues_run_bind (issues_mono peeking_of_reading (issues_readValue _ _ _ _))
      fun v => ?_
    exact issues_run_bind (issues_lift ⟨trivial, fun _ => trivial⟩) fun _ => trivial
  · rw [if_neg empty]
    trivial

variable [Platform] (procfs : AsyncProcfs) (newLimit : UInt32)

/-- The setter looks the version up first, and refuses or writes by what it found. -/
theorem exec_setThreadsMax {σ : Type} (S : System σ) (w : World σ) :
    exec (handle S) (setThreadsMax procfs newLimit : Io ε Unit) w =
      let looked := exec (handle S) (Version.cached procfs : Io ε Version) w
      if rejects looked.1 newLimit then (.error (ProcError.other
        (display newLimit ++ " is outside the THREADS_MIN..=THREADS_MAX range".toList)), looked.2)
      else exec (handle S) (procfs.writeValue "sys/kernel/threads-max" newLimit) looked.2 := by
  rw [setThreadsMax, exec_bind, exec_attempt]
  dsimp only
  split <;> rfl

theorem requests_setThreadsMax {σ : Type} (S : System σ) (w : World σ) :
    requests (handle S) (setThreadsMax procfs newLimit : Io ε Unit).run w =
      let looked := exec (handle S) (Version.cached procfs : Io ε Version) w
      requests (handle S) (Version.cached procfs : Io ε Version).run w ++
        if rejects looked.1 newLimit then []
        else requests (handle S)
          (procfs.writeValue "sys/kernel/threads-max" newLimit : Io ε Unit).run looked.2 := by
  rw [setThreadsMax, requests_run_bind, requests_attempt, exec_attempt]
  dsimp only
  split <;> rfl

end Steps

section Bound

variable [Platform] (ε : Type) [ProcError ε] (c : Conditions) (procfs : AsyncProcfs)
  (w : World Files) (newLimit : UInt32)

/-- The version the call sees: the cached one, or what the lookup reads now. -/
def versionSeen : Except ε Version :=
  (exec (handle (files c)) (Version.cached procfs) w).1

def outcome : Except ε Unit × World Files :=
  exec (handle (files c)) (setThreadsMax procfs newLimit) w

/-- The call gets as far as opening the file to replace it. -/
def ReachesWrite : Prop :=
  Op.sys (.openAt procfs.file "sys/kernel/threads-max" writing) ∈
    requests (handle (files c)) (setThreadsMax procfs newLimit : Io ε Unit).run w

/-- Since Linux 4.1 the value is bounded. -/
def BoundApplies : Prop := ∃ v, versionSeen ε c procfs w = .ok v ∧ ⟨4, 1, 0⟩ ≤ v

/-- A release of a series after 4 whose minor version is 0, and a value out of range. -/
def Missed : Prop :=
  ∃ v, versionSeen ε c procfs w = .ok v ∧ 5 ≤ v.major ∧ v.minor = 0 ∧ ¬ InRange newLimit

/-- What the documentation of `set_threads_max` says of one call. -/
structure Documented : Prop where
  refused : BoundApplies ε c procfs w ∧ ¬ InRange newLimit ↔
    (∃ e, (outcome ε c procfs w newLimit).1 = .error e) ∧
      (outcome ε c procfs w newLimit).2.env = w.env ∧ ¬ ReachesWrite ε c procfs w newLimit
  written : ¬ (BoundApplies ε c procfs w ∧ ¬ InRange newLimit) →
    ReachesWrite ε c procfs w newLimit ∧
      (c.openError (fileAt procfs "sys/kernel/threads-max") writing = none →
        c.writeError (fileAt procfs "sys/kernel/threads-max") = none →
          (outcome ε c procfs w newLimit).1 = .ok () ∧
          (outcome ε c procfs w newLimit).2.env =
            Function.update w.env (fileAt procfs "sys/kernel/threads-max")
              (some (encodeUtf8 (display newLimit))))

variable {ε c procfs w newLimit}

/-- The gate differs from the version order on the missed releases only. -/
theorem rejects_iff : rejects (versionSeen ε c procfs w) newLimit ↔
    (BoundApplies ε c procfs w ∧ ¬ InRange newLimit) ∧ ¬ Missed ε c procfs w newLimit := by
  cases seen : versionSeen ε c procfs w with
  | error e => simp [rejects, BoundApplies, seen]
  | ok v =>
    have gate : v.major ≥ 4 ∧ v.minor ≥ 1 ↔ ⟨4, 1, 0⟩ ≤ v ∧ ¬ (5 ≤ v.major ∧ v.minor = 0) := by
      rw [Version.le_iff]
      simp only [ge_iff_le, UInt8.le_iff_toNat_le, UInt8.lt_iff_toNat_lt,
        UInt16.le_iff_toNat_le, ← UInt8.toNat_inj, UInt8.toNat_ofNat, UInt16.toNat_ofNat]
      omega
    rw [rejects, ← and_assoc, gate]
    simp only [BoundApplies, Missed, seen, Except.ok.injEq, exists_eq_left']
    tauto

theorem bound_of_missed (missed : Missed ε c procfs w newLimit) :
    BoundApplies ε c procfs w ∧ ¬ InRange newLimit := by
  obtain ⟨v, seen, later, -, out⟩ := missed
  refine ⟨⟨v, seen, (Version.le_iff _ _).mpr (Or.inl ?_)⟩, out⟩
  rw [UInt8.le_iff_toNat_le] at later
  rw [UInt8.lt_iff_toNat_lt]
  exact later

theorem looked_env : (exec (handle (files c)) (Version.cached procfs : Io ε Version) w).2.env =
    w.env :=
  run_view World.env (peeking_still c) (issues_cached procfs) w

theorem outcome_refused (refused : rejects (versionSeen ε c procfs w) newLimit) :
    (∃ e, (outcome ε c procfs w newLimit).1 = .error e) ∧
      (outcome ε c procfs w newLimit).2.env = w.env ∧ ¬ ReachesWrite ε c procfs w newLimit := by
  rw [versionSeen] at refused
  simp only [outcome, ReachesWrite, exec_setThreadsMax, requests_setThreadsMax, if_pos refused,
    List.append_nil]
  refine ⟨⟨_, rfl⟩, looked_env, fun mem => ?_⟩
  have peeking := issues_requests (handle (files c)) (issues_cached procfs) w _ mem
  cases peeking

theorem outcome_written (passed : ¬ rejects (versionSeen ε c procfs w) newLimit) :
    ReachesWrite ε c procfs w newLimit ∧
      (c.openError (fileAt procfs "sys/kernel/threads-max") writing = none →
        c.writeError (fileAt procfs "sys/kernel/threads-max") = none →
          (outcome ε c procfs w newLimit).1 = .ok () ∧
          (outcome ε c procfs w newLimit).2.env =
            Function.update w.env (fileAt procfs "sys/kernel/threads-max")
              (some (encodeUtf8 (display newLimit)))) := by
  rw [versionSeen] at passed
  simp only [outcome, ReachesWrite, exec_setThreadsMax, requests_setThreadsMax, if_neg passed]
  constructor
  · exact List.mem_append_right _ List.mem_cons_self
  · intro opens writes
    rw [AsyncProcfs.writeValue, exec_writeFile, opens, writes]
    exact ⟨rfl, by rw [looked_env]⟩

/-- The documentation holds of every call but those that meet the first release of a series
after 4 and ask for a value out of range. -/
theorem setThreadsMax_documented_iff :
    Documented ε c procfs w newLimit ↔ ¬ Missed ε c procfs w newLimit := by
  constructor
  · intro documented missed
    have refused := documented.refused.mp (bound_of_missed missed)
    have passed : ¬ rejects (versionSeen ε c procfs w) newLimit :=
      fun rejected => (rejects_iff.mp rejected).2 missed
    exact refused.2.2 (outcome_written passed).1
  · intro met
    by_cases rejected : rejects (versionSeen ε c procfs w) newLimit
    · have bound := (rejects_iff.mp rejected).1
      exact ⟨iff_of_true bound (outcome_refused rejected), fun free => absurd bound free⟩
    · have free : ¬ (BoundApplies ε c procfs w ∧ ¬ InRange newLimit) :=
        fun bound => rejected (rejects_iff.mpr ⟨bound, met⟩)
      have written := outcome_written rejected
      exact ⟨iff_of_false free fun refused => refused.2.2 written.1, fun _ => written⟩

end Bound

section FirstOfFive

/-- A tree of a 5.0 kernel. -/
def fiveZero : World Files where
  kernel := Version.sentinel
  env file :=
    if file = ⟨"/proc/sys/kernel/osrelease"⟩ then some (encodeUtf8 "5.0.0-generic\n")
    else if file = ⟨"/proc/sys/kernel/threads-max"⟩ then some (encodeUtf8 "63704\n")
    else none

/-- On a 5.0 kernel the setter stores 0, twenty below the minimum. -/
theorem setThreadsMax_five_zero :
    ¬ @Documented littleEndian64 CoreError _ .calm slashProc fiveZero 0 := by
  let _ := littleEndian64
  intro documented
  have bound : BoundApplies CoreError .calm slashProc fiveZero ∧ ¬ InRange 0 :=
    ⟨⟨⟨5, 0, 0⟩, by decide, by decide⟩, by decide⟩
  obtain ⟨e, failed⟩ := (documented.refused.mp bound).1
  have stored : (outcome CoreError .calm slashProc fiveZero 0).1 = .ok () := by
    decide
  rw [stored] at failed
  cases failed

end FirstOfFive

end Sysctl
