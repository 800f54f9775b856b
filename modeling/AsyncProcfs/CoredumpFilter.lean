import Mathlib.Algebra.Group.Nat.Defs
import AsyncProcfs.OomScore
import AsyncProcfs.ProcessFiles

/-!
# The core dump filter

`coredump_filter` holds a mask in hexadecimal, or nothing for a process without
one. The reader parses the trimmed text at base sixteen, with an optional plus
sign and digits in either case, and refuses masks with undeclared flags.
-/

namespace CoredumpFilter

open ProgramRuns Text IntText Procfs Processes ProcessFiles Descriptors

/-- What the crate uses of procfs-core's `CoredumpFlags`. -/
class CoredumpFlags (Flags : Type) where
  fromBits : UInt32 → Option Flags

section Functions

/-- `char::to_digit`. -/
def toDigit (radix : Nat) (c : Char) : Option Nat :=
  let digit :=
    if c.isDigit then c.toNat - '0'.toNat
    else if c.isLower then c.toNat - 'a'.toNat + 10
    else if c.isUpper then c.toNat - 'A'.toNat + 10
    else radix
  if digit < radix then some digit else none

/-- The digit loop of an unsigned type; a bad digit is found before an overflow. -/
def radixDigits (radix : Nat) : Nat → Str → Except IntErrorKind Nat
  | acc, [] => .ok acc
  | acc, c :: rest => match toDigit radix c with
    | none => .error .invalidDigit
    | some x =>
      if radix * acc + x < 2 ^ 32 then radixDigits radix (radix * acc + x) rest
      else .error .posOverflow

/-- `u32::from_str_radix`. -/
def fromStrRadix (radix : Nat) (s : Str) : Except IntErrorKind UInt32 :=
  let digits (s : Str) := (radixDigits radix 0 s).map UInt32.ofNat
  match s with
  | [] => .error .empty
  | c :: rest =>
    if rest = [] ∧ (c = '+' ∨ c = '-') then .error .invalidDigit
    else if c = '+' then digits rest
    else digits (c :: rest)

variable {ε : Type} [ProcError ε] {Flags : Type} [CoredumpFlags Flags]

/-- The parse of the file's text. -/
def filterIn (s : Str) : Io ε (Option Flags) :=
  if (trim s).isEmpty then return none
  else do
    let flags ← expect (fromStrRadix 16 (trim s)).toOption
    return some (← expect (CoredumpFlags.fromBits flags))

def coredumpFilter (self : Process) : Io ε (Option Flags) := do
  let path := joinPath self.path "coredump_filter"
  let file ← propagate (wrapIoError path
    (← sys (.openAt self.fd "coredump_filter" { read := true })))
  let s ← propagate (← readToString file)
  filterIn s

end Functions

section Masks

/-- The value of a run of digits read behind `acc`. -/
def valueFrom (radix : Nat) (acc : Nat) (digits : List Nat) : Nat :=
  digits.foldl (fun acc d => radix * acc + d) acc

/-- A nonempty run of digits, perhaps behind a plus sign, of value `n`. -/
def RadixText (radix : Nat) (s : Str) (n : Nat) : Prop :=
  ∃ body digits, body ≠ [] ∧ (s = body ∨ s = '+' :: body) ∧
    List.Forall₂ (fun c d => toDigit radix c = some d) body digits ∧ valueFrom radix 0 digits = n

theorem le_valueFrom {radix : Nat} (positive : 0 < radix) (acc : Nat) (digits : List Nat) :
    acc ≤ valueFrom radix acc digits := by
  induction digits generalizing acc with
  | nil => exact le_rfl
  | cons d rest ih =>
    have step : acc ≤ radix * acc + d := Nat.le_add_right_of_le (Nat.le_mul_of_pos_left _ positive)
    exact step.trans (ih _)

/-- The loop succeeds exactly on digits whose value fits. -/
theorem radixDigits_eq_ok_iff {radix : Nat} (positive : 0 < radix) {acc : Nat}
    (small : acc < 2 ^ 32) (s : Str) (n : Nat) : radixDigits radix acc s = .ok n ↔
      ∃ digits, List.Forall₂ (fun c d => toDigit radix c = some d) s digits ∧
        valueFrom radix acc digits = n ∧ n < 2 ^ 32 := by
  induction s generalizing acc with
  | nil =>
    simp only [radixDigits, Except.ok.injEq, List.forall₂_nil_left_iff, exists_eq_left]
    constructor
    · rintro rfl
      exact ⟨rfl, small⟩
    · exact fun h => h.1
  | cons c rest ih =>
    rw [radixDigits]
    cases read : toDigit radix c with
    | none =>
      refine iff_of_false (by simp) ?_
      rintro ⟨_, first | ⟨first, -⟩, -⟩
      rw [read] at first
      cases first
    | some x =>
      have later : (∃ digits, List.Forall₂ (fun c d => toDigit radix c = some d) (c :: rest)
          digits ∧ valueFrom radix acc digits = n ∧ n < 2 ^ 32) ↔
          ∃ digits, List.Forall₂ (fun c d => toDigit radix c = some d) rest digits ∧
            valueFrom radix (radix * acc + x) digits = n ∧ n < 2 ^ 32 := by
        constructor
        · rintro ⟨_, _ | ⟨first, others⟩, value⟩
          rw [read] at first
          cases first
          exact ⟨_, others, value⟩
        · rintro ⟨digits, others, value⟩
          exact ⟨x :: digits, .cons read others, value⟩
      rw [later]
      dsimp only
      split
      · rename_i fits
        exact ih fits
      · rename_i wide
        refine iff_of_false (by simp) ?_
        rintro ⟨digits, -, value, bound⟩
        have grows := le_valueFrom positive (radix * acc + x) digits
        omega

theorem map_ofNat_eq_ok_iff {radix : Nat} (positive : 0 < radix) (s : Str) (n : UInt32) :
    (radixDigits radix 0 s).map UInt32.ofNat = .ok n ↔
      ∃ digits, List.Forall₂ (fun c d => toDigit radix c = some d) s digits ∧
        valueFrom radix 0 digits = n.toNat := by
  have spec := radixDigits_eq_ok_iff positive (by decide : 0 < 2 ^ 32) s
  have bound := n.toNat_lt
  constructor
  · intro ok
    cases read : radixDigits radix 0 s with
    | error e =>
      rw [read] at ok
      cases ok
    | ok m =>
      obtain ⟨digits, all, value, fits⟩ := (spec m).mp read
      rw [read] at ok
      cases ok
      exact ⟨digits, all, by rw [value, UInt32.toNat_ofNat_of_lt' fits]⟩
  · rintro ⟨digits, all, value⟩
    rw [(spec n.toNat).mpr ⟨digits, all, value, bound⟩]
    simp [Except.map]

theorem sign_not_digit (radix : Nat) :
    toDigit radix '+' = none ∧ toDigit radix '-' = none := by
  constructor
  · exact if_neg (Nat.lt_irrefl radix)
  · exact if_neg (Nat.lt_irrefl radix)

/-- The accepted texts, exactly. -/
theorem fromStrRadix_eq_ok_iff {radix : Nat} (positive : 0 < radix) (s : Str) (n : UInt32) :
    fromStrRadix radix s = .ok n ↔ RadixText radix s n.toNat := by
  have sign := sign_not_digit radix
  cases s with
  | nil =>
    refine iff_of_false (by simp [fromStrRadix]) ?_
    rintro ⟨body, digits, nonempty, same | same, -⟩
    · exact nonempty same.symm
    · cases same
  | cons c rest =>
    by_cases lone : rest = [] ∧ (c = '+' ∨ c = '-')
    · simp only [fromStrRadix, if_pos lone, reduceCtorEq, false_iff]
      obtain ⟨rfl, signed⟩ := lone
      rintro ⟨body, digits, nonempty, rfl | same, all, -⟩
      · cases all with
        | cons first _ => rcases signed with rfl | rfl <;> simp [sign] at first
      · cases same
        exact nonempty rfl
    · simp only [fromStrRadix, if_neg lone]
      by_cases plus : c = '+'
      · subst plus
        have nonempty : rest ≠ [] := fun empty => lone ⟨empty, Or.inl rfl⟩
        rw [if_pos rfl, map_ofNat_eq_ok_iff positive]
        constructor
        · rintro ⟨digits, all, value⟩
          exact ⟨rest, digits, nonempty, Or.inr rfl, all, value⟩
        · rintro ⟨body, digits, -, rfl | same, all, value⟩
          · cases all with
            | cons first _ => simp [sign] at first
          · cases same
            exact ⟨digits, all, value⟩
      · rw [if_neg plus, map_ofNat_eq_ok_iff positive]
        constructor
        · rintro ⟨digits, all, value⟩
          exact ⟨c :: rest, digits, List.cons_ne_nil c rest, Or.inl rfl, all, value⟩
        · rintro ⟨body, digits, -, rfl | same, all, value⟩
          · exact ⟨digits, all, value⟩
          · cases same
            exact absurd rfl plus

end Masks

section Printed

/-- The kernel's text of a mask: lower-case hexadecimal, padded with zeros. -/
def hexPadded : Nat → Nat → Str
  | 0, _ => []
  | width + 1, n => hexPadded width (n / 16) ++ [Nat.digitChar (n % 16)]

theorem toDigit_digitChar {d : Nat} (small : d < 16) : toDigit 16 (Nat.digitChar d) = some d := by
  have each : ∀ d < 16, toDigit 16 (Nat.digitChar d) = some d := by decide
  exact each d small

theorem hexPadded_digits (width n : Nat) : ∃ digits,
    List.Forall₂ (fun c d => toDigit 16 c = some d) (hexPadded width n) digits ∧
      valueFrom 16 0 digits = n % 16 ^ width := by
  induction width generalizing n with
  | zero => exact ⟨[], .nil, (Nat.mod_one n).symm⟩
  | succ width ih =>
    obtain ⟨digits, all, value⟩ := ih (n / 16)
    have last := toDigit_digitChar (Nat.mod_lt n (by decide : 0 < 16))
    refine ⟨digits ++ [n % 16], List.rel_append all (.cons last .nil), ?_⟩
    rw [valueFrom, List.foldl_append]
    change 16 * valueFrom 16 0 digits + n % 16 = _
    rw [value, Nat.pow_succ, Nat.mul_comm (16 ^ width), Nat.mod_mul]
    omega

theorem hexPadded_solid (width n : Nat) : ∀ c ∈ hexPadded width n, isWhitespace c = false := by
  induction width generalizing n with
  | zero => exact fun c mem => absurd mem List.not_mem_nil
  | succ width ih =>
    intro c mem
    rcases List.mem_append.mp mem with mem | mem
    · exact ih _ c mem
    · have each : ∀ d < 16, isWhitespace (Nat.digitChar d) = false := by decide
      rw [List.mem_singleton.mp mem]
      exact each _ (Nat.mod_lt n (by decide))

theorem hexPadded_ne_nil (width n : Nat) : hexPadded (width + 1) n ≠ [] := by
  simp [hexPadded]

end Printed

section Reading

variable {ε : Type} [ProcError ε] {Flags : Type} [CoredumpFlags Flags]

/-- What a text says: no filter, a filter, or nothing that is one. -/
structure Reported (body : Str) (result : Except ε (Option Flags)) : Prop where
  absent : result = .ok none ↔ ∀ c ∈ body, isWhitespace c = true
  mask : ∀ flags, result = .ok (some flags) ↔
    ∃ n : UInt32, RadixText 16 (trim body) n.toNat ∧ CoredumpFlags.fromBits n = some flags
  fails : ∀ e, result = .error e → e = ProcError.internalError

theorem trim_eq_nil_iff (s : Str) : trim s = [] ↔ ∀ c ∈ s, isWhitespace c = true := by
  have parts := List.takeWhile_append_dropWhile (p := isWhitespace) (l := s)
  rw [trim, List.rdropWhile_eq_nil_iff]
  constructor
  · intro blank c mem
    rw [← parts] at mem
    rcases List.mem_append.mp mem with first | rest
    · exact List.mem_takeWhile_imp first
    · exact blank c rest
  · exact fun blank c mem => blank c ((List.dropWhile_suffix _).subset mem)

/-- A text that is no mask. -/
theorem not_radixText {s : Str} (failed : (fromStrRadix 16 s).toOption = none) (n : UInt32) :
    ¬ RadixText 16 s n.toNat := by
  intro text
  rw [(fromStrRadix_eq_ok_iff (by decide) s n).mpr text] at failed
  cases failed

theorem reported (body : Str) {σ : Type} (h : Handler Op.Res σ) (s : σ) :
    Reported body (exec h (filterIn body : Io ε (Option Flags)) s).1 := by
  rw [filterIn]
  by_cases blank : trim body = []
  · have all := (trim_eq_nil_iff body).mp blank
    rw [blank, List.isEmpty_nil, if_pos rfl]
    refine ⟨iff_of_true rfl all, fun flags => iff_of_false (by simp) ?_, fun e failed => ?_⟩
    · rintro ⟨n, text, -⟩
      exact not_radixText rfl n (blank ▸ text)
    · cases failed
  · have some_solid := mt (trim_eq_nil_iff body).mpr blank
    rw [if_neg (by simpa using blank)]
    cases parsed : (fromStrRadix 16 (trim body)).toOption with
    | none =>
      refine ⟨iff_of_false (fun ok => nomatch ok) some_solid, fun flags => ?_, fun e failed => ?_⟩
      · refine iff_of_false (fun ok => nomatch ok) ?_
        rintro ⟨n, text, -⟩
        exact not_radixText parsed n text
      · cases failed
        rfl
    | some n =>
      have text (m : UInt32) : RadixText 16 (trim body) m.toNat ↔ m = n := by
        rw [← fromStrRadix_eq_ok_iff (by decide)]
        cases read : fromStrRadix 16 (trim body) with
        | error e =>
          rw [read] at parsed
          cases parsed
        | ok m' =>
          rw [read] at parsed
          cases parsed
          rw [Except.ok.injEq, eq_comm]
      cases declared : (CoredumpFlags.fromBits n : Option Flags) with
      | none =>
        refine ⟨iff_of_false ?_ some_solid, fun flags => ?_, fun e failed => ?_⟩
        · simp [expect, declared]
        · simp [expect, declared, text]
        · simpa [expect, declared, eq_comm] using failed
      | some found =>
        refine ⟨iff_of_false ?_ some_solid, fun flags => ?_, fun e failed => ?_⟩
        · simp [expect, declared]
        · simp [expect, declared, text]
        · simp [expect, declared] at failed

variable {σ : Type} {S : System σ} {self : Process} {w : World σ} {file : File} {e₁ e₂ : σ}
  {body : Str}

/-- The reader gives the filter its text reports, and every mask the kernel prints comes back
as the flags of that mask, whatever the width it is padded to. -/
theorem coredumpFilter_exact
    (opened : S (.openAt self.fd "coredump_filter" { read := true }) w.env = (.ok file, e₁))
    (holds : S (.readToEnd file) e₁ = (.ok (encodeUtf8 body), e₂)) :
    Reported body (exec (handle S) (coredumpFilter self : Io ε (Option Flags)) w).1 ∧
      ∀ (width : Nat) (mask : UInt32) (flags : Flags), mask.toNat < 16 ^ (width + 1) →
        CoredumpFlags.fromBits mask = some flags →
        body = hexPadded (width + 1) mask.toNat ++ ['\n'] →
        (exec (handle S) (coredumpFilter self : Io ε (Option Flags)) w).1 = .ok (some flags) := by
  have read_file : run (handle S) (readToString file) ⟨w.kernel, e₁⟩ =
      (.ok body, ⟨w.kernel, e₂⟩) := by
    rw [run_readToString, holds, textOf_encodeUtf8]
  have whole : exec (handle S) (coredumpFilter self : Io ε (Option Flags)) w =
      exec (handle S) (filterIn body) ⟨w.kernel, e₂⟩ := by
    rw [coredumpFilter, exec_wrapped_ok (run_sys_eq opened), exec_propagated_ok read_file]
  have report := @reported ε _ Flags _ body _ (handle S) ⟨w.kernel, e₂⟩
  rw [whole]
  refine ⟨report, ?_⟩
  rintro width mask flags fits declared rfl
  refine (report.mask flags).mpr ⟨mask, ?_, declared⟩
  obtain ⟨digits, all, value⟩ := hexPadded_digits (width + 1) mask.toNat
  have newline : ['\n'].rdropWhile isWhitespace = [] := by decide
  rw [trim_solid_append (hexPadded_ne_nil width _) (hexPadded_solid _ _), newline, List.append_nil]
  exact ⟨_, digits, hexPadded_ne_nil width _, Or.inl rfl, all,
    value.trans (Nat.mod_eq_of_lt fits)⟩

end Reading

section OneMask

/-- The nine declared flags. -/
instance : CoredumpFlags UInt32 where
  fromBits bits := if bits &&& ~~~0x1FF = 0 then some bits else none

theorem coredumpFilter_exact_default :
    (exec (handle (fixed (serving (encodeUtf8 "00000033\n"))))
      (coredumpFilter twentySeven : Io CoreError (Option UInt32)) ⟨0, ()⟩).1 = .ok (some 0x33) :=
  (@coredumpFilter_exact CoreError _ UInt32 _ _ (fixed (serving (encodeUtf8 "00000033\n")))
    twentySeven ⟨0, ()⟩ _ _ _ _ rfl rfl).2 7 0x33 0x33 (by decide) (by decide) (by decide)

end OneMask

end CoredumpFilter
