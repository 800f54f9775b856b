import AsyncProcfs.Packing
import AsyncProcfs.Procfs

/-!
# Kernel versions: parsing, order and the cached lookup

`Version.current` reads and parses `sys/kernel/osrelease`; `Version.cached`
keeps the result in one process-wide word, packed in native byte order, with 0
for "not read yet".
-/

namespace KernelVersion

open ProgramRuns Text IntText Packing Procfs

/-- What the code takes from the machine it is compiled for. -/
class Platform where
  order : ByteOrder
  usizeBytes : Nat
  usize : usizeBytes = 4 ∨ usizeBytes = 8

/-- A 64-bit little-endian machine. -/
abbrev littleEndian64 : Platform where
  order := .little
  usizeBytes := 8
  usize := Or.inr rfl

structure Version where
  major : UInt8
  minor : UInt8
  patch : UInt16
  deriving DecidableEq, Repr

/-- `Iterator::next().ok_or(missing)?` on the remaining pieces. -/
def nextOr {α : Type} (missing : Str) : List α → Except Str (α × List α)
  | [] => .error missing
  | piece :: rest => .ok (piece, rest)

theorem nextOr_eq_ok_iff {α : Type} {missing : Str} {pieces rest : List α} {piece : α} :
    nextOr missing pieces = .ok (piece, rest) ↔ pieces = piece :: rest := by
  cases pieces with
  | nil => exact iff_of_false (fun ok => nomatch ok) fun empty => nomatch empty
  | cons head tail =>
    constructor
    · rintro ⟨⟩
      rfl
    · rintro ⟨⟩
      rfl

namespace Version

def toU32 [Platform] (v : Version) : UInt32 :=
  let patch := toNeBytes Platform.order 2 v.patch.toNat
  UInt32.ofNat (fromNeBytes Platform.order ([v.major, v.minor] ++ patch))

def fromU32 [Platform] (val : UInt32) : Version :=
  match toNeBytes Platform.order 4 val.toNat, length_toNeBytes Platform.order 4 val.toNat with
  | [major, minor, lo, hi], _ =>
    { major, minor, patch := UInt16.ofNat (fromNeBytes Platform.order [lo, hi]) }

def fromStr (s : Str) : Except Str Version := do
  let pos := s.findIdx? fun c => c ≠ '.' && !c.isDigit
  let kernel := match pos with
    | some pos => s.take pos
    | none => s
  let (major, kernelSplit) ← nextOr "Missing major version component" (kernel.splitOn '.')
  let (minor, kernelSplit) ← nextOr "Missing minor version component" kernelSplit
  let (patch, _) ← nextOr "Missing patch version component" kernelSplit
  let major ← (parse UInt8 major).mapError fun _ => "Failed to parse major version"
  let minor ← (parse UInt8 minor).mapError fun _ => "Failed to parse minor version"
  let patch ← (parse UInt16 patch).mapError fun _ => "Failed to parse patch version"
  return { major, minor, patch }

/-- `impl Ord for Version`. -/
def cmp (v w : Version) : Ordering :=
  match compare v.major w.major with
  | .eq => match compare v.minor w.minor with
    | .eq => compare v.patch w.patch
    | x => x
  | x => x

/-- `impl PartialOrd for Version`. -/
def partialCmp (v w : Version) : Option Ordering := some (v.cmp w)

instance : LT Version := ⟨fun v w => v.cmp w = .lt⟩

instance : LE Version := ⟨fun v w => v.cmp w ≠ .gt⟩

instance (v w : Version) : Decidable (v < w) := inferInstanceAs (Decidable (v.cmp w = .lt))

instance (v w : Version) : Decidable (v ≤ w) := inferInstanceAs (Decidable (v.cmp w ≠ .gt))

theorem le_iff (v w : Version) : v ≤ w ↔ v.major < w.major ∨
    v.major = w.major ∧ (v.minor < w.minor ∨ v.minor = w.minor ∧ v.patch ≤ w.patch) := by
  change v.cmp w ≠ .gt ↔ _
  simp only [cmp, compare, compareOfLessAndEq, UInt8.lt_iff_toNat_lt, UInt16.lt_iff_toNat_lt,
    UInt16.le_iff_toNat_le, ← UInt8.toNat_inj, ← UInt16.toNat_inj]
  split_ifs <;> simp <;> omega

section Words

variable [Platform]

theorem toU32_toNat (v : Version) : v.toU32.toNat = fromNeBytes Platform.order
    ([v.major, v.minor] ++ toNeBytes Platform.order 2 v.patch.toNat) := by
  have fits := fromNeBytes_lt Platform.order
    ([v.major, v.minor] ++ toNeBytes Platform.order 2 v.patch.toNat)
  simp only [List.length_append, length_toNeBytes, List.length_cons, List.length_nil] at fits
  rw [toU32, UInt32.toNat_ofNat']
  omega

/-- Packing loses nothing, on either byte order. -/
@[simp] theorem fromU32_toU32 (v : Version) : fromU32 v.toU32 = v := by
  obtain ⟨lo, hi, bytes⟩ : ∃ lo hi, toNeBytes Platform.order 2 v.patch.toNat = [lo, hi] := by
    have two := length_toNeBytes Platform.order 2 v.patch.toNat
    match toNeBytes Platform.order 2 v.patch.toNat, two with
    | [lo, hi], _ => exact ⟨lo, hi, rfl⟩
  have unpacked : toNeBytes Platform.order 4 v.toU32.toNat = [v.major, v.minor, lo, hi] := by
    rw [toU32_toNat, bytes]
    exact toNeBytes_fromNeBytes Platform.order [v.major, v.minor, lo, hi]
  have patch : fromNeBytes Platform.order [lo, hi] = v.patch.toNat := by
    rw [← bytes]
    exact fromNeBytes_toNeBytes _ _ _ v.patch.toNat_lt
  rw [fromU32]
  split
  rename_i major minor lo' hi' _ same _
  rw [unpacked] at same
  cases same
  simp [patch]

theorem toU32_injective : Function.Injective toU32 := by
  intro v w same
  rw [← fromU32_toU32 v, same, fromU32_toU32]

/-- The encoding of 0.0.0 is the sentinel, and no other version has it. -/
theorem toU32_eq_sentinel_iff (v : Version) : v.toU32 = 0 ↔ v = ⟨0, 0, 0⟩ := by
  have zero : toU32 ⟨0, 0, 0⟩ = 0 := by
    rw [toU32]
    cases Platform.order <;> decide
  constructor
  · intro h
    exact toU32_injective (h.trans zero.symm)
  · rintro rfl
    exact zero

end Words

section Lookup

variable [Platform] {ε : Type} [ProcError ε]

def current (procfs : AsyncProcfs) : Io ε Version :=
  procfs.readValue fromStr ProcError.fromStr "sys/kernel/osrelease"

def sentinel : UInt32 := 0

def cached (procfs : AsyncProcfs) : Io ε Version := do
  let mut kernel ← load
  if kernel = sentinel then
    kernel := (← current procfs).toU32
    store kernel
  return fromU32 kernel

/-- The three ways through a cached lookup. -/
theorem exec_cached {σ : Type} (S : System σ) (procfs : AsyncProcfs) (w : World σ) :
    exec (handle S) (cached procfs : Io ε Version) w =
      if w.kernel = sentinel then
        match exec (handle S) (current procfs : Io ε Version) w with
        | (.ok v, w') => (.ok v, { w' with kernel := v.toU32 })
        | (.error e, w') => (.error e, w')
      else (.ok (fromU32 w.kernel), w) := by
  have loaded : exec (handle S) (liftM load : Io ε UInt32) w = (.ok w.kernel, w) := rfl
  rw [cached, exec_bind_ok _ loaded]
  by_cases empty : w.kernel = sentinel
  · rw [if_pos empty, if_pos empty, exec_bind]
    cases exec (handle S) (current procfs : Io ε Version) w with
    | mk r w' =>
      cases r with
      | ok v => simp only [exec_bind, exec_lift, run_store, exec_pure, fromU32_toU32]
      | error e => rfl
  · rw [if_neg empty, if_neg empty, exec_pure]

end Lookup

end Version

end KernelVersion
