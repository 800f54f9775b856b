import AsyncProcfs.OrdinaryFiles

/-!
# The sysrq setting: three variants, one number

`set_sysrq` writes a number and `sysrq` takes it apart again: 0 and 1 are the
variants `Disable` and `Enable`, any other mask must consist of declared flags.
A value comes back as itself exactly when it is the one the reader picks for
its number.
-/

namespace SysrqSetting

open ProgramRuns Text IntText Procfs OrdinaryFiles

/-- A set of flags is its raw mask; `from_bits_retain` gives every mask. -/
structure AllowedFunctions where
  bits : UInt16
  deriving DecidableEq, Repr

namespace AllowedFunctions

def ENABLE_CONTROL_LOG_LEVEL : AllowedFunctions := ⟨2⟩
def ENABLE_CONTROL_KEYBOARD : AllowedFunctions := ⟨4⟩
def ENABLE_DEBUGGING_DUMPS : AllowedFunctions := ⟨8⟩
def ENABLE_SYNC_COMMAND : AllowedFunctions := ⟨16⟩
def ENABLE_REMOUNT_READ_ONLY : AllowedFunctions := ⟨32⟩
def ENABLE_SIGNALING_PROCESSES : AllowedFunctions := ⟨64⟩
def ALLOW_REBOOT_POWEROFF : AllowedFunctions := ⟨128⟩
def ALLOW_NICING_REAL_TIME_TASKS : AllowedFunctions := ⟨256⟩

def all : AllowedFunctions where
  bits := [ENABLE_CONTROL_LOG_LEVEL, ENABLE_CONTROL_KEYBOARD, ENABLE_DEBUGGING_DUMPS,
    ENABLE_SYNC_COMMAND, ENABLE_REMOUNT_READ_ONLY, ENABLE_SIGNALING_PROCESSES,
    ALLOW_REBOOT_POWEROFF, ALLOW_NICING_REAL_TIME_TASKS].foldl (fun mask f => mask ||| f.bits) 0

/-- No bit outside the declared flags. -/
def Declared (allowed : AllowedFunctions) : Prop := allowed.bits &&& ~~~all.bits = 0

instance (allowed : AllowedFunctions) : Decidable allowed.Declared :=
  inferInstanceAs (Decidable (_ = _))

def fromBits (bits : UInt16) : Option AllowedFunctions :=
  if Declared ⟨bits⟩ then some ⟨bits⟩ else none

end AllowedFunctions

inductive SysRq where
  | disable
  | enable
  | allowedFunctions (allowed : AllowedFunctions)
  deriving DecidableEq, Repr

namespace SysRq

def toNumber : SysRq → UInt16
  | .disable => 0
  | .enable => 1
  | .allowedFunctions allowed => allowed.bits

def fromNumber {ε : Type} [ProcError ε] (x : UInt16) : Except ε SysRq :=
  if x = 0 then .ok .disable
  else if x = 1 then .ok .enable
  else match AllowedFunctions.fromBits x with
    | some allowed => .ok (.allowedFunctions allowed)
    | none => .error (ProcError.fromStr "Invalid value")

def fromStr {ε : Type} [ProcError ε] (s : Str) : Except ε SysRq := do
  let x ← (parse UInt16 s).mapError ProcError.fromParseInt
  fromNumber x

/-- The values the reader can return: a mask in use has a declared flag, and no other. -/
def Canonical : SysRq → Prop
  | .disable => True
  | .enable => True
  | .allowedFunctions allowed => allowed.bits ≠ 0 ∧ allowed.Declared

instance (v : SysRq) : Decidable v.Canonical :=
  match v with
  | .disable => inferInstanceAs (Decidable True)
  | .enable => inferInstanceAs (Decidable True)
  | .allowedFunctions _ => inferInstanceAs (Decidable (_ ∧ _))

end SysRq

section Functions

variable {ε : Type} [ProcError ε] (procfs : AsyncProcfs)

def sysrq : Io ε SysRq := procfs.readValue SysRq.fromStr id "sys/kernel/sysrq"

def setSysrq (new : SysRq) : Io ε Unit := procfs.writeValue "sys/kernel/sysrq" new.toNumber

end Functions

section ReadBack

variable {ε : Type} [ProcError ε]

theorem fromStr_display (v : SysRq) :
    (SysRq.fromStr (display v.toNumber) : Except ε SysRq) = SysRq.fromNumber v.toNumber := by
  rw [SysRq.fromStr, parse_display]
  rfl

/-- The reader picks the value back exactly when it is canonical. -/
theorem fromNumber_toNumber_iff (v : SysRq) :
    (SysRq.fromNumber v.toNumber : Except ε SysRq) = .ok v ↔ v.Canonical := by
  cases v with
  | disable => simp [SysRq.toNumber, SysRq.fromNumber, SysRq.Canonical]
  | enable => simp [SysRq.toNumber, SysRq.fromNumber, SysRq.Canonical]
  | allowedFunctions allowed =>
    obtain ⟨bits⟩ := allowed
    change (SysRq.fromNumber bits : Except ε SysRq) = .ok (.allowedFunctions ⟨bits⟩) ↔
      bits ≠ 0 ∧ AllowedFunctions.Declared ⟨bits⟩
    rw [SysRq.fromNumber, AllowedFunctions.fromBits]
    by_cases zero : bits = 0
    · simp [zero]
    by_cases one : bits = 1
    · subst one
      simpa using show ¬ AllowedFunctions.Declared ⟨1⟩ by decide
    rw [if_neg zero, if_neg one]
    by_cases declared : AllowedFunctions.Declared ⟨bits⟩
    · simp [declared, zero]
    · simp [declared]

/-- Canonical values have different numbers. -/
theorem toNumber_injOn {v v' : SysRq} (canonical : v.Canonical) (canonical' : v'.Canonical)
    (same : v.toNumber = v'.toNumber) : v = v' := by
  have read := (@fromNumber_toNumber_iff CoreError _ v).mpr canonical
  rw [same, (fromNumber_toNumber_iff v').mpr canonical'] at read
  exact (Except.ok.inj read).symm

variable {c c' : Conditions} {procfs : AsyncProcfs} {v : SysRq} {w : World Files}

/-- After a successful `set_sysrq`, `sysrq` returns what the reader picks for the number
written: the same value exactly when it is canonical, and no two canonical values are written
as the same text. -/
theorem sysrq_setSysrq
    (succeeds : (exec (handle (files c)) (setSysrq procfs v : Io ε Unit) w).1 = .ok ())
    (opens : c'.openError (fileAt procfs "sys/kernel/sysrq") reading = none)
    (reads : c'.readError (fileAt procfs "sys/kernel/sysrq") = none) :
    let after := (exec (handle (files c)) (setSysrq procfs v : Io ε Unit) w).2
    let read := (exec (handle (files c')) (sysrq procfs : Io ε SysRq) after).1
    read = SysRq.fromNumber v.toNumber ∧ (read = .ok v ↔ v.Canonical) ∧
      ∀ v', v.Canonical → v'.Canonical →
        encodeUtf8 (display v.toNumber) = encodeUtf8 (display v'.toNumber) → v = v' := by
  intro after read
  have value : read = SysRq.fromNumber v.toNumber := by
    rw [← fromStr_display]
    have present := writeValue_content c procfs "sys/kernel/sysrq" w succeeds
    simp only [read, sysrq, exec_readValue c' procfs _ after _ _ opens reads present,
      valueIn_encodeUtf8 _ _ _ (display_solid _)]
    cases (SysRq.fromStr (display v.toNumber) : Except ε SysRq) <;> rfl
  refine ⟨value, ?_, fun v' canonical canonical' same => ?_⟩
  · rw [value]
    exact fromNumber_toNumber_iff v
  · exact toNumber_injOn canonical canonical' (display_injective (encodeUtf8_injective same))

end ReadBack

section OneTree

/-- A tree with a longer mask in it. -/
def masked : World Files where
  kernel := 0
  env file := if file = ⟨"/proc/sys/kernel/sysrq"⟩ then some (encodeUtf8 "438\n") else none

theorem sysrq_setSysrq_dumps :
    (exec (handle (files .calm)) (sysrq slashProc : Io CoreError SysRq)
      (exec (handle (files .calm)) (setSysrq slashProc (.allowedFunctions ⟨8⟩) : Io CoreError Unit)
        masked).2).1 = .ok (.allowedFunctions ⟨8⟩) :=
  (sysrq_setSysrq (by decide) rfl rfl).2.1.mpr (by decide)

/-- The empty set of functions comes back as `Disable`. -/
theorem setSysrq_not_faithful :
    ¬ ∀ (v : SysRq) (w : World Files),
      (exec (handle (files .calm)) (setSysrq slashProc v : Io CoreError Unit) w).1 = .ok () →
        (exec (handle (files .calm)) (sysrq slashProc : Io CoreError SysRq)
          (exec (handle (files .calm)) (setSysrq slashProc v : Io CoreError Unit) w).2).1 =
            .ok v := by
  intro claim
  have same := claim (.allowedFunctions ⟨0⟩) masked (by decide)
  revert same
  decide

end OneTree

end SysrqSetting
