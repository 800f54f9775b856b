import Mathlib.Algebra.Group.Int.Defs
import AsyncProcfs.Text

/-!
# Machine integers as decimal text

`parse` follows `from_str_radix` at base ten: one optional sign, then digits
with every multiplication and addition checked against the type's range.
`display` prints the shortest text. The accepted texts are characterized
exactly, and parsing undoes printing on the whole range of every type.
-/

namespace IntText

open Words Text

/-- Why a text is not a machine integer. -/
inductive IntErrorKind where
  | empty
  | invalidDigit
  | posOverflow
  | negOverflow
  deriving DecidableEq, Repr

/-- A fixed-width integer type: its range, and its values as integers in that range. -/
class MachineInt (α : Type) where
  min : Int
  max : Int
  toInt : α → Int
  ofInt : Int → α
  min_le_zero : min ≤ 0
  zero_le_max : 0 ≤ max
  toInt_mem : ∀ a, min ≤ toInt a ∧ toInt a ≤ max
  ofInt_toInt : ∀ a, ofInt (toInt a) = a
  toInt_ofInt : ∀ i, min ≤ i → i ≤ max → toInt (ofInt i) = i

open MachineInt

instance : MachineInt UInt8 where
  min := 0
  max := 2 ^ 8 - 1
  toInt a := a.toNat
  ofInt i := UInt8.ofNat i.toNat
  min_le_zero := by decide
  zero_le_max := by decide
  toInt_mem a := by have := a.toNat_lt; omega
  ofInt_toInt a := by simp
  toInt_ofInt i lo hi := by simp [UInt8.toNat_ofNat']; omega

instance : MachineInt UInt16 where
  min := 0
  max := 2 ^ 16 - 1
  toInt a := a.toNat
  ofInt i := UInt16.ofNat i.toNat
  min_le_zero := by decide
  zero_le_max := by decide
  toInt_mem a := by have := a.toNat_lt; omega
  ofInt_toInt a := by simp
  toInt_ofInt i lo hi := by simp [UInt16.toNat_ofNat']; omega

instance : MachineInt UInt32 where
  min := 0
  max := 2 ^ 32 - 1
  toInt a := a.toNat
  ofInt i := UInt32.ofNat i.toNat
  min_le_zero := by decide
  zero_le_max := by decide
  toInt_mem a := by have := a.toNat_lt; omega
  ofInt_toInt a := by simp
  toInt_ofInt i lo hi := by simp [UInt32.toNat_ofNat']; omega

instance : MachineInt UInt64 where
  min := 0
  max := 2 ^ 64 - 1
  toInt a := a.toNat
  ofInt i := UInt64.ofNat i.toNat
  min_le_zero := by decide
  zero_le_max := by decide
  toInt_mem a := by have := a.toNat_lt; omega
  ofInt_toInt a := by simp
  toInt_ofInt i lo hi := by simp [UInt64.toNat_ofNat']; omega

instance : MachineInt Int16 where
  min := -2 ^ 15
  max := 2 ^ 15 - 1
  toInt a := a.toInt
  ofInt i := Int16.ofInt i
  min_le_zero := by decide
  zero_le_max := by decide
  toInt_mem a := by have := a.le_toInt; have := a.toInt_lt; omega
  ofInt_toInt a := by simp
  toInt_ofInt i lo hi := Int16.toInt_ofInt_of_le (by omega) (by omega)

instance : MachineInt Int32 where
  min := -2 ^ 31
  max := 2 ^ 31 - 1
  toInt a := a.toInt
  ofInt i := Int32.ofInt i
  min_le_zero := by decide
  zero_le_max := by decide
  toInt_mem a := by have := a.le_toInt; have := a.toInt_lt; omega
  ofInt_toInt a := by simp
  toInt_ofInt i lo hi := Int32.toInt_ofInt_of_le (by omega) (by omega)

/-- The digit loop. A step overflows exactly when its result leaves the range: the
checked multiplication can only fail when the addition after it would. -/
def parseDigits (min max : Int) (negative : Bool) : Int → Str → Except IntErrorKind Int
  | acc, [] => .ok acc
  | acc, c :: rest =>
    if c.isDigit then
      let digit : Int := (c.toNat - '0'.toNat : Nat)
      let next := if negative then 10 * acc - digit else 10 * acc + digit
      if min ≤ next ∧ next ≤ max then parseDigits min max negative next rest
      else .error (if negative then .negOverflow else .posOverflow)
    else .error .invalidDigit

/-- `str::parse` at an integer type; a minus sign only counts for a signed one. -/
def parse (α : Type) [MachineInt α] (s : Str) : Except IntErrorKind α :=
  let digits (negative : Bool) (s : Str) :=
    (parseDigits (MachineInt.min α) (MachineInt.max α) negative 0 s).map ofInt
  match s with
  | [] => .error .empty
  | c :: rest =>
    if rest = [] ∧ (c = '+' ∨ c = '-') then .error .invalidDigit
    else if c = '+' then digits false rest
    else if c = '-' ∧ MachineInt.min α < 0 then digits true rest
    else digits false (c :: rest)

/-- `Display` for an integer. -/
def display {α : Type} [MachineInt α] (a : α) : Str :=
  if toInt a < 0 then '-' :: Nat.toDigits 10 (toInt a).natAbs
  else Nat.toDigits 10 (toInt a).natAbs

/-- The value of a run of digits under an optional minus sign. -/
def signedValue (negative : Bool) (n : Nat) : Int := if negative then -n else n

theorem le_ofDigitChars (s : Str) (m : Nat) : m ≤ Nat.ofDigitChars 10 s m := by
  induction s generalizing m with
  | nil => simp
  | cons c rest ih =>
    rw [Nat.ofDigitChars_cons]
    exact le_trans (by omega) (ih _)

/-- Digits behind a value leave it as it is only when there are none, or when it is zero and
they are zeros. -/
theorem ofDigitChars_eq_self_iff (t : Str) (n : Nat) :
    (∀ c ∈ t, c.isDigit) ∧ Nat.ofDigitChars 10 t n = n ↔
      t = [] ∨ n = 0 ∧ ∀ c ∈ t, c = '0' := by
  induction t generalizing n with
  | nil => simp
  | cons c rest ih =>
    rw [Nat.ofDigitChars_cons, List.forall_mem_cons, List.forall_mem_cons]
    have zero_char (digit : c.isDigit) : c = '0' ↔ c.toNat - '0'.toNat = 0 := by
      simp only [Char.isDigit, Bool.and_eq_true, decide_eq_true_eq, ge_iff_le,
        UInt32.le_iff_toNat_le] at digit
      have low : 48 ≤ c.toNat := digit.1
      have value : '0'.toNat = 48 := rfl
      rw [← Char.toNat_inj]
      omega
    constructor
    · rintro ⟨⟨digit, digits⟩, same⟩
      have grows := le_ofDigitChars rest (10 * n + (c.toNat - '0'.toNat))
      have zero : n = 0 := by omega
      have first : c.toNat - '0'.toNat = 0 := by omega
      rw [first, zero] at same
      refine Or.inr ⟨zero, (zero_char digit).mpr first, ?_⟩
      rcases (ih 0).mp ⟨digits, same⟩ with rfl | ⟨-, zeros⟩
      · exact fun c mem => absurd mem List.not_mem_nil
      · exact zeros
    · rintro (empty | ⟨rfl, rfl, zeros⟩)
      · cases empty
      · obtain ⟨digits, same⟩ := (ih 0).mpr (Or.inr ⟨rfl, zeros⟩)
        exact ⟨⟨rfl, digits⟩, same⟩

/-- The loop succeeds exactly on digits whose value fits, whatever was read before. -/
theorem parseDigits_eq_ok_iff {min max : Int} (negative : Bool) (s : Str)
    (m : Nat) (fits : min ≤ signedValue negative m ∧ signedValue negative m ≤ max) (i : Int) :
    parseDigits min max negative (signedValue negative m) s = .ok i ↔
      (∀ c ∈ s, c.isDigit) ∧ i = signedValue negative (Nat.ofDigitChars 10 s m) ∧
        min ≤ i ∧ i ≤ max := by
  induction s generalizing m with
  | nil =>
    simp only [parseDigits, Except.ok.injEq, Nat.ofDigitChars_nil]
    constructor
    · rintro rfl
      exact ⟨by simp, rfl, fits⟩
    · exact fun h => h.2.1.symm
  | cons c rest ih =>
    by_cases digit : c.isDigit
    · have next : (if negative then 10 * signedValue negative m - ((c.toNat - '0'.toNat : Nat) : Int)
          else 10 * signedValue negative m + ((c.toNat - '0'.toNat : Nat) : Int)) =
            signedValue negative (10 * m + (c.toNat - '0'.toNat)) := by
        cases negative
        · simp [signedValue]
        · simp [signedValue]
          omega
      simp only [parseDigits, digit, if_true, next, List.forall_mem_cons, true_and,
        Nat.ofDigitChars_cons]
      split
      · rename_i inside
        exact ih _ inside
      · rename_i outside
        -- the value only grows with further digits, so it stays outside the range
        have grows := le_ofDigitChars rest (10 * m + (c.toNat - '0'.toNat))
        simp only [reduceCtorEq, false_iff]
        rintro ⟨-, rfl, lo, hi⟩
        cases negative <;> simp [signedValue] at * <;> omega
    · simp [parseDigits, digit]

/-- `Reads signed s i`: the text `s` is an optional sign and a nonempty run of digits
of value `i`; a minus sign needs a signed type. -/
def Reads (signed : Prop) (s : Str) (i : Int) : Prop :=
  ∃ digits : Str, digits ≠ [] ∧ (∀ c ∈ digits, c.isDigit) ∧
    (((s = digits ∨ s = '+' :: digits) ∧ i = Nat.ofDigitChars 10 digits 0) ∨
      (signed ∧ s = '-' :: digits ∧ i = -(Nat.ofDigitChars 10 digits 0 : Int)))

/-- Nothing, or a text that does not continue a number. -/
def Detached (suffix : Str) : Prop := ∀ c, suffix.head? = some c → ¬ c.isDigit

theorem takeWhile_digits_append {digits suffix : Str} (all : ∀ c ∈ digits, c.isDigit)
    (detached : Detached suffix) : (digits ++ suffix).takeWhile Char.isDigit = digits := by
  have stop : suffix.takeWhile Char.isDigit = [] := by
    cases suffix with
    | nil => rfl
    | cons c rest => exact List.takeWhile_cons_of_neg (detached c rfl)
  rw [List.takeWhile_append_of_pos all, stop, List.append_nil]

theorem digit_not_sign {c : Char} (digit : c.isDigit) : c ≠ '+' ∧ c ≠ '-' := by
  constructor
  · rintro rfl
    exact absurd digit (by decide)
  · rintro rfl
    exact absurd digit (by decide)

theorem plus_not_mem {s : Str} (digits : ∀ c ∈ s, c.isDigit) : '+' ∉ s := by
  intro plus
  exact (digit_not_sign (digits '+' plus)).1 rfl

/-- Without a sign that counts, the text itself is the run of digits. -/
theorem reads_plain_iff {signed : Prop} {s : Str} {i : Int}
    (first : ∀ c, s.head? = some c → c ≠ '+' ∧ ¬ (c = '-' ∧ signed)) : Reads signed s i ↔
      s ≠ [] ∧ (∀ c ∈ s, c.isDigit) ∧ i = Nat.ofDigitChars 10 s 0 := by
  constructor
  · rintro ⟨digits, nonempty, isDigits, ⟨rfl | rfl, value⟩ | ⟨is_signed, rfl, -⟩⟩
    · exact ⟨nonempty, isDigits, value⟩
    · exact absurd rfl (first '+' rfl).1
    · exact absurd ⟨rfl, is_signed⟩ (first '-' rfl).2
  · rintro ⟨nonempty, isDigits, value⟩
    exact ⟨s, nonempty, isDigits, Or.inl ⟨Or.inl rfl, value⟩⟩

theorem reads_plus_iff {signed : Prop} {s : Str} {i : Int} : Reads signed ('+' :: s) i ↔
    s ≠ [] ∧ (∀ c ∈ s, c.isDigit) ∧ i = Nat.ofDigitChars 10 s 0 := by
  constructor
  · rintro ⟨digits, nonempty, isDigits, ⟨same | same, value⟩ | ⟨-, same, -⟩⟩
    · exact absurd rfl (digit_not_sign (isDigits '+' (same ▸ List.mem_cons_self))).1
    · cases same
      exact ⟨nonempty, isDigits, value⟩
    · cases same
  · rintro ⟨nonempty, isDigits, value⟩
    exact ⟨s, nonempty, isDigits, Or.inl ⟨Or.inr rfl, value⟩⟩

theorem reads_minus_iff {signed : Prop} {s : Str} {i : Int} : Reads signed ('-' :: s) i ↔
    signed ∧ s ≠ [] ∧ (∀ c ∈ s, c.isDigit) ∧ i = -(Nat.ofDigitChars 10 s 0 : Int) := by
  constructor
  · rintro ⟨digits, nonempty, isDigits, ⟨same | same, -⟩ | ⟨is_signed, same, value⟩⟩
    · exact absurd rfl (digit_not_sign (isDigits '-' (same ▸ List.mem_cons_self))).2
    · cases same
    · cases same
      exact ⟨is_signed, nonempty, isDigits, value⟩
  · rintro ⟨is_signed, nonempty, isDigits, value⟩
    exact ⟨s, nonempty, isDigits, Or.inr ⟨is_signed, rfl, value⟩⟩

section Exact

variable {α : Type} [MachineInt α]

theorem parseDigits_map_eq_ok_iff (negative : Bool) (s : Str) (a : α) :
    (parseDigits (MachineInt.min α) (MachineInt.max α) negative 0 s).map ofInt =
        (.ok a : Except IntErrorKind α) ↔
      (∀ c ∈ s, c.isDigit) ∧ toInt a = signedValue negative (Nat.ofDigitChars 10 s 0) := by
  have zero : (0 : Int) = signedValue negative 0 := by cases negative <;> rfl
  have fits : MachineInt.min α ≤ signedValue negative 0 ∧
      signedValue negative 0 ≤ MachineInt.max α := by
    rw [← zero]
    exact ⟨min_le_zero, zero_le_max⟩
  have spec := parseDigits_eq_ok_iff negative s 0 fits
  rw [← zero] at spec
  cases read : parseDigits (MachineInt.min α) (MachineInt.max α) negative 0 s with
  | error e =>
    simp only [Except.map, reduceCtorEq, false_iff]
    rintro ⟨digits, value⟩
    have bounds := toInt_mem a
    have ok := (spec (toInt a)).mpr ⟨digits, value, bounds⟩
    rw [read] at ok
    cases ok
  | ok i =>
    have spec := (spec i).mp read
    simp only [Except.map, Except.ok.injEq]
    constructor
    · rintro rfl
      exact ⟨spec.1, by rw [toInt_ofInt i spec.2.2.1 spec.2.2.2]; exact spec.2.1⟩
    · rintro ⟨-, value⟩
      rw [spec.2.1, ← value, ofInt_toInt]

/-- The accepted texts of a type, exactly: those that read as a value of the type. -/
theorem parse_eq_ok_iff (s : Str) (a : α) :
    parse α s = .ok a ↔ Reads (MachineInt.min α < 0) s (toInt a) := by
  cases s with
  | nil =>
    rw [reads_plain_iff (by simp)]
    exact iff_of_false (fun ok => nomatch ok) fun read => read.1 rfl
  | cons c rest =>
    by_cases lone : rest = [] ∧ (c = '+' ∨ c = '-')
    · simp only [parse, if_pos lone, reduceCtorEq, false_iff]
      obtain ⟨rfl, rfl | rfl⟩ := lone
      · rw [reads_plus_iff]
        exact fun read => read.1 rfl
      · rw [reads_minus_iff]
        exact fun read => read.2.1 rfl
    · simp only [parse, if_neg lone]
      by_cases plus : c = '+'
      · subst plus
        have nonempty : rest ≠ [] := fun empty => lone ⟨empty, Or.inl rfl⟩
        rw [if_pos rfl, parseDigits_map_eq_ok_iff, reads_plus_iff]
        exact (and_iff_right nonempty).symm
      · rw [if_neg plus]
        by_cases minus : c = '-' ∧ MachineInt.min α < 0
        · obtain ⟨rfl, signed⟩ := minus
          have nonempty : rest ≠ [] := fun empty => lone ⟨empty, Or.inr rfl⟩
          rw [if_pos ⟨rfl, signed⟩, parseDigits_map_eq_ok_iff, reads_minus_iff]
          exact ((and_iff_right signed).trans (and_iff_right nonempty)).symm
        · have first : ∀ c', (c :: rest).head? = some c' →
              c' ≠ '+' ∧ ¬ (c' = '-' ∧ MachineInt.min α < 0) := by
            rintro c' ⟨⟩
            exact ⟨plus, minus⟩
          rw [if_neg minus, parseDigits_map_eq_ok_iff, reads_plain_iff first]
          exact (and_iff_right (List.cons_ne_nil c rest)).symm

/-- A nonempty run of digits, of value `n`. -/
def Numeral (s : Str) (n : Nat) : Prop :=
  s ≠ [] ∧ (∀ c ∈ s, c.isDigit) ∧ n = Nat.ofDigitChars 10 s 0

/-- The texts of an unsigned number: its numerals, with an optional plus sign. -/
def NumberText (s : Str) (n : Nat) : Prop :=
  ∃ digits, Numeral digits n ∧ (s = digits ∨ s = '+' :: digits)

theorem numberText_iff_numeral {s : Str} (unsigned : '+' ∉ s) (n : Nat) :
    NumberText s n ↔ Numeral s n := by
  constructor
  · rintro ⟨digits, numeral, rfl | rfl⟩
    · exact numeral
    · exact absurd List.mem_cons_self unsigned
  · intro numeral
    exact ⟨s, numeral, Or.inl rfl⟩

/-- What an unsigned type accepts as the text of a value. -/
theorem parse_eq_ok_iff_numberText {a : α} {n : Nat} (unsigned : MachineInt.min α = 0)
    (value : toInt a = n) (s : Str) : parse α s = .ok a ↔ NumberText s n := by
  rw [parse_eq_ok_iff, unsigned, value]
  constructor
  · rintro ⟨digits, nonempty, isDigits, (⟨shape, same⟩ | ⟨signed, -⟩)⟩
    · exact ⟨digits, ⟨nonempty, isDigits, by omega⟩, shape⟩
    · exact absurd signed (Int.lt_irrefl 0)
  · rintro ⟨digits, ⟨nonempty, isDigits, same⟩, shape⟩
    exact ⟨digits, nonempty, isDigits, Or.inl ⟨shape, by omega⟩⟩

theorem exists_parse_iff {bound : Nat} (unsigned : MachineInt.min α = 0)
    (below : MachineInt.max α = bound - 1) (s : Str) :
    (∃ a : α, parse α s = .ok a) ↔ ∃ n < bound, NumberText s n := by
  constructor
  · rintro ⟨a, parsed⟩
    have range := toInt_mem a
    obtain ⟨n, value⟩ := Int.eq_ofNat_of_zero_le (unsigned ▸ range.1)
    exact ⟨n, by omega, (parse_eq_ok_iff_numberText unsigned value s).mp parsed⟩
  · rintro ⟨n, fits, text⟩
    have value := @toInt_ofInt α _ n (by omega) (by omega)
    exact ⟨ofInt n, (parse_eq_ok_iff_numberText unsigned value s).mpr text⟩

theorem toDigits_isDigit (n : Nat) : ∀ c ∈ Nat.toDigits 10 n, c.isDigit :=
  fun _ mem => Nat.isDigit_of_mem_toDigits (by decide) (by decide) mem

/-- Parsing undoes printing on every value of the type. -/
@[simp] theorem parse_display (a : α) : parse α (display a) = .ok a := by
  rw [parse_eq_ok_iff, display]
  refine ⟨Nat.toDigits 10 (toInt a).natAbs, Nat.toDigits_ne_nil, toDigits_isDigit _, ?_⟩
  rw [Nat.ofDigitChars_ten_toDigits]
  split
  · rename_i negative
    have bound := toInt_mem a
    exact Or.inr ⟨by omega, rfl, by omega⟩
  · exact Or.inl ⟨Or.inl rfl, by omega⟩

/-- What may follow a printed value without changing what is read: nothing, or zeros behind
a zero. -/
theorem parse_display_append_iff (a : α) (t : Str) :
    parse α (display a ++ t) = .ok a ↔ t = [] ∨ toInt a = 0 ∧ ∀ c ∈ t, c = '0' := by
  let digits := Nat.toDigits 10 (toInt a).natAbs
  have own : ∀ c ∈ digits, c.isDigit := toDigits_isDigit _
  have nonempty : digits ++ t ≠ [] := List.append_ne_nil_of_left_ne_nil Nat.toDigits_ne_nil _
  have all : (∀ c ∈ digits ++ t, c.isDigit) ↔ ∀ c ∈ t, c.isDigit := by
    rw [List.forall_mem_append]
    exact and_iff_right own
  have value : Nat.ofDigitChars 10 (digits ++ t) 0 = Nat.ofDigitChars 10 t (toInt a).natAbs := by
    rw [Nat.ofDigitChars_append, Nat.ofDigitChars_ten_toDigits]
  rw [parse_eq_ok_iff, display, ← Int.natAbs_eq_zero, ← ofDigitChars_eq_self_iff]
  split
  · rename_i negative
    have signed : MachineInt.min α < 0 := by
      have range := toInt_mem a
      omega
    rw [List.cons_append, reads_minus_iff, all, value]
    constructor
    · rintro ⟨-, -, isDigits, same⟩
      exact ⟨isDigits, by omega⟩
    · rintro ⟨isDigits, same⟩
      exact ⟨signed, nonempty, isDigits, by omega⟩
  · have first : ∀ c, (digits ++ t).head? = some c →
        c ≠ '+' ∧ ¬ (c = '-' ∧ MachineInt.min α < 0) := by
      intro c head
      rw [List.head?_append_of_ne_nil _ Nat.toDigits_ne_nil] at head
      have not_sign := digit_not_sign (own c (List.mem_of_mem_head? head))
      exact ⟨not_sign.1, fun minus => not_sign.2 minus.1⟩
    rw [reads_plain_iff first, all, value]
    constructor
    · rintro ⟨-, isDigits, same⟩
      exact ⟨isDigits, by omega⟩
    · rintro ⟨isDigits, same⟩
      exact ⟨nonempty, isDigits, by omega⟩

theorem display_injective : Function.Injective (@display α _) := by
  intro a b same
  have parsed := congrArg (parse α) same
  simpa using parsed

theorem display_ne_nil (a : α) : display a ≠ [] := by
  rw [display]
  split
  · exact List.cons_ne_nil _ _
  · exact Nat.toDigits_ne_nil

theorem mem_display {a : α} {c : Char} (mem : c ∈ display a) : c = '-' ∨ c.isDigit := by
  rw [display] at mem
  split at mem
  · rcases List.mem_cons.mp mem with sign | digit
    · exact Or.inl sign
    · exact Or.inr (toDigits_isDigit _ c digit)
  · exact Or.inr (toDigits_isDigit _ c mem)

theorem digits_display (unsigned : MachineInt.min α = 0) (a : α) :
    ∀ c ∈ display a, c.isDigit := by
  have nonneg : ¬ toInt a < 0 := by
    have range := (toInt_mem a).1
    omega
  rw [display, if_neg nonneg]
  exact toDigits_isDigit _

/-- The text of an unsigned number is a numeral of it. -/
theorem numeral_display {a : α} {n : Nat} (unsigned : MachineInt.min α = 0)
    (value : toInt a = n) : Numeral (display a) n := by
  have text := (parse_eq_ok_iff_numberText unsigned value (display a)).mp (parse_display a)
  exact (numberText_iff_numeral (plus_not_mem (digits_display unsigned a)) n).mp text

omit [MachineInt α] in
/-- Leading zeros do not change the value. -/
theorem numeral_padded (zeros : Nat) {s : Str} {n : Nat} (numeral : Numeral s n) :
    Numeral (List.replicate zeros '0' ++ s) n := by
  obtain ⟨nonempty, digits, value⟩ := numeral
  refine ⟨List.append_ne_nil_of_right_ne_nil _ nonempty, ?_, ?_⟩
  · intro c mem
    rcases List.mem_append.mp mem with zero | digit
    · rw [List.eq_of_mem_replicate zero]
      rfl
    · exact digits c digit
  · rw [Nat.ofDigitChars_append, Nat.ofDigitChars_replicate_zero, value]
    simp

/-- Printed integers have no white space, so trimming leaves them alone. -/
theorem display_solid (a : α) : ∀ c ∈ display a, isWhitespace c = false := by
  intro c mem
  rcases mem_display mem with rfl | digit
  · decide
  · have range : 48 ≤ c.toNat ∧ c.toNat ≤ 57 := by
      simp only [Char.isDigit, Bool.and_eq_true, decide_eq_true_eq, ge_iff_le,
        UInt32.le_iff_toNat_le] at digit
      exact digit
    rw [isWhitespace, decide_eq_false_iff_not]
    omega

/-- Printed integers are words between white space of every kind. -/
theorem isWord_display {blank : Char → Bool}
    (covered : ∀ c, blank c = true → isWhitespace c = true) (a : α) :
    IsWord blank (display a) := by
  refine ⟨display_ne_nil a, fun c mem => ?_⟩
  have solid := display_solid a c mem
  cases blank_c : blank c with
  | false => rfl
  | true => exact absurd (covered c blank_c) (by simp [solid])

/-- Numbers spelled with blanks between them are read back as they were printed. -/
theorem words_display {blank : Char → Bool}
    (covered : ∀ c, blank c = true → isWhitespace c = true) {numbers : List α} {s : Str}
    (spelled : Spelled blank (numbers.map display) s) :
    words blank s = numbers.map display := by
  refine words_spelled spelled fun w mem => ?_
  obtain ⟨a, -, rfl⟩ := List.mem_map.mp mem
  exact isWord_display covered a

/-- White space of a text of printed numbers is the white space between them. -/
theorem blank_of_spelled {blank : Char → Bool} {numbers : List α} {s : Str}
    (spelled : Spelled blank (numbers.map display) s) :
    ∀ c ∈ s, isWhitespace c = true → blank c = true := by
  generalize shape : numbers.map display = ws at spelled
  induction spelled generalizing numbers with
  | nil => exact fun c mem => absurd mem List.not_mem_nil
  | @cons w blanks s ws all apart rest ih =>
    cases numbers with
    | nil => cases shape
    | cons n numbers =>
      obtain ⟨rfl, tail⟩ := List.cons.inj shape
      intro c mem white
      rcases List.mem_append.mp mem with mem | mem
      · rcases List.mem_append.mp mem with digit | between
        · exact absurd white (by simp [display_solid n c digit])
        · exact all c between
      · exact ih tail c mem white

end Exact

example : parse UInt8 "+007" = .ok 7 ∧ parse UInt8 "256" = .error .posOverflow ∧
    parse UInt8 "-1" = .error .invalidDigit ∧ parse Int16 "-32768" = .ok (-32768) := by
  decide

end IntText
