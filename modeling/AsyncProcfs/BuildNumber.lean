import Mathlib.Algebra.Group.Nat.Defs
import AsyncProcfs.KernelBuild
import AsyncProcfs.Procfs
import AsyncProcfs.Results

/-!
# The number of a kernel build

`version_number` collects the digits that a build's version starts with and
reads them as a `u32`. It fails exactly when there are none, or when their
value does not fit.
-/

namespace BuildNumber

open Results Text IntText KernelBuild Procfs

section Reader

/-- The loop over the characters: it pushes digits until one is none. -/
def pushDigits (versionStr : Str) : Str → Str
  | [] => versionStr
  | c :: rest => if c.isDigit then pushDigits (versionStr ++ [c]) rest else versionStr

def versionNumber {ε : Type} [ProcError ε] (self : BuildInfo) : Except ε UInt32 :=
  (parse UInt32 (pushDigits [] self.version)).mapError fun _ =>
    ProcError.fromStr "Failed to parse version number"

end Reader

section Numbers

/-- The longest run of digits at the start. -/
def leadingDigits (version : Str) : Str := version.takeWhile Char.isDigit

theorem pushDigits_eq (versionStr s : Str) :
    pushDigits versionStr s = versionStr ++ leadingDigits s := by
  induction s generalizing versionStr with
  | nil => exact (List.append_nil versionStr).symm
  | cons c rest ih =>
    rw [pushDigits, leadingDigits]
    by_cases digit : c.isDigit
    · rw [if_pos digit, ih, List.takeWhile_cons_of_pos digit, List.append_assoc]
      rfl
    · rw [if_neg digit, List.takeWhile_cons_of_neg digit, List.append_nil]

theorem leadingDigits_isDigit {version : Str} : ∀ c ∈ leadingDigits version, c.isDigit :=
  fun _ mem => List.mem_takeWhile_imp mem

variable (ε : Type) [ProcError ε]

/-- When a build has a number, which one, and when it has none. -/
structure Numbered (info : BuildInfo) : Prop where
  value : ∀ n, (versionNumber info : Except ε UInt32) = .ok n ↔
    Numeral (leadingDigits info.version) n.toNat
  succeeds : (∃ n, (versionNumber info : Except ε UInt32) = .ok n) ↔
    ∃ n < 2 ^ 32, Numeral (leadingDigits info.version) n
  fails : (∃ e, (versionNumber info : Except ε UInt32) = .error e) ↔
    leadingDigits info.version = [] ∨
      2 ^ 32 ≤ Nat.ofDigitChars 10 (leadingDigits info.version) 0

theorem versionNumber_eq_ok_iff (info : BuildInfo) (n : UInt32) :
    (versionNumber info : Except ε UInt32) = .ok n ↔
      Numeral (leadingDigits info.version) n.toNat := by
  rw [versionNumber, pushDigits_eq, List.nil_append, mapError_eq_ok_iff,
    ← numberText_iff_numeral (plus_not_mem leadingDigits_isDigit)]
  exact parse_eq_ok_iff_numberText rfl rfl (leadingDigits info.version)

theorem exists_versionNumber_iff (info : BuildInfo) :
    (∃ n, (versionNumber info : Except ε UInt32) = .ok n) ↔
      ∃ n < 2 ^ 32, Numeral (leadingDigits info.version) n := by
  simp only [versionNumber, pushDigits_eq, List.nil_append, mapError_eq_ok_iff,
    ← numberText_iff_numeral (plus_not_mem leadingDigits_isDigit)]
  exact exists_parse_iff rfl rfl (leadingDigits info.version)

theorem numbered (info : BuildInfo) : Numbered ε info := by
  refine ⟨versionNumber_eq_ok_iff ε info, exists_versionNumber_iff ε info, ?_⟩
  rw [exists_error_iff, exists_versionNumber_iff]
  constructor
  · intro none
    by_cases empty : leadingDigits info.version = []
    · exact Or.inl empty
    · refine Or.inr (Nat.le_of_not_lt fun fits => none ⟨_, fits, empty, ?_, rfl⟩)
      exact leadingDigits_isDigit
  · rintro (empty | large) ⟨n, fits, nonempty, -, value⟩
    · exact nonempty empty
    · omega

/-- Every parsed build is numbered by its leading digits, and a printed number is read back
under any padding and any detached suffix. -/
theorem versionNumber_exact (isUppercase : Char → Bool) :
    (∀ s info, BuildInfo.fromStr isUppercase s = .ok info → Numbered ε info) ∧
      ∀ (zeros : Nat) (n : UInt32) (suffix text : Str), Detached suffix → ' ' ∉ suffix →
        ∃ info, BuildInfo.fromStr isUppercase
            ('#' :: (List.replicate zeros '0' ++ display n ++ suffix) ++ ' ' :: text) = .ok info ∧
          (versionNumber info : Except ε UInt32) = .ok n := by
  refine ⟨fun s info _ => numbered ε info, fun zeros n suffix text detached solid => ?_⟩
  let version := List.replicate zeros '0' ++ display n ++ suffix
  have numeral : Numeral (List.replicate zeros '0' ++ display n) n.toNat :=
    numeral_padded zeros (numeral_display rfl rfl)
  have spaceless : ' ' ∉ '#' :: version := by
    intro mem
    rcases List.mem_cons.mp mem with hash | mem
    · exact absurd hash (by decide)
    rcases List.mem_append.mp mem with digit | mem
    · exact absurd (numeral.2.1 ' ' digit) (by decide)
    · exact solid mem
  refine ⟨_, fromStr_eq isUppercase (List.splitOn_append_cons_self_of_not_mem spaceless text), ?_⟩
  rw [versionNumber_eq_ok_iff]
  change Numeral (leadingDigits version) n.toNat
  rw [leadingDigits, takeWhile_digits_append numeral.2.1 detached]
  exact numeral

theorem versionNumber_exact_largest :
    ∃ info, BuildInfo.fromStr Char.isUpper "#004294967295~1 SMP".toList = .ok info ∧
      (versionNumber info : Except CoreError UInt32) = .ok 4294967295 := by
  have detached : Detached "~1".toList := by
    intro c first
    cases first
    decide
  exact (versionNumber_exact CoreError Char.isUpper).2 2 4294967295 "~1" "SMP" detached (by decide)

end Numbers

end BuildNumber
