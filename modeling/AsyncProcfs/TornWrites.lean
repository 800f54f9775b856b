import Mathlib.Algebra.Group.Nat.Defs
import AsyncProcfs.IntText

/-!
# Writes that may tear

A write that fails may leave the old value of its cell, or a part of the new
one. After any history of such writes the cell goes back to one attempt, and no
attempt after that one succeeded. A part of a printed unsigned number is either
empty or the number divided by a power of ten.
-/

namespace TornWrites

open Text IntText

section Cells

universe u v w

variable {E : Type u} {A : Type v} {V : Type w}

/-- How a cell is written: what an event attempts, whether it succeeded, and what a value that
was attempted may leave there. -/
structure Discipline (E : Type u) (A : Type v) (V : Type w) where
  attempts : E → Option A
  Done : E → Prop
  whole : A → V
  Part : A → V → Prop

/-- The event replaces the value of the cell for certain. -/
def Discipline.Sets (D : Discipline E A V) (e : E) : Prop := D.Done e ∧ (D.attempts e).isSome = true

variable {D : Discipline E A V}

/-- What one event leaves where `old` was. -/
inductive Leaves (D : Discipline E A V) (e : E) (old : V) : V → Prop
  | unmoved (unset : ¬ D.Sets e) : Leaves D e old old
  | whole {a : A} (attempted : D.attempts e = some a) (done : D.Done e) : Leaves D e old (D.whole a)
  | part {a : A} {left : V} (attempted : D.attempts e = some a) (failed : ¬ D.Done e)
      (part : D.Part a left) : Leaves D e old left

/-- The value goes back to the start, or to one attempt; nothing set it since. -/
inductive Holds (D : Discipline E A V) (initial : V) (events : List E) : V → Prop
  | initial (unset : ∀ e ∈ events, ¬ D.Sets e) : Holds D initial events initial
  | whole {before after : List E} {e : E} {a : A} (split : events = before ++ e :: after)
      (attempted : D.attempts e = some a) (done : D.Done e) (since : ∀ e' ∈ after, ¬ D.Sets e') :
      Holds D initial events (D.whole a)
  | part {before after : List E} {e : E} {a : A} {left : V} (split : events = before ++ e :: after)
      (attempted : D.attempts e = some a) (failed : ¬ D.Done e) (part : D.Part a left)
      (since : ∀ e' ∈ after, ¬ D.Sets e') : Holds D initial events left

theorem holds_snoc {initial old new : V} {events : List E} {e : E}
    (holds : Holds D initial events old) (leaves : Leaves D e old new) :
    Holds D initial (events ++ [e]) new := by
  have last (after : List E) (since : ∀ e' ∈ after, ¬ D.Sets e') (unset : ¬ D.Sets e) :
      ∀ e' ∈ after ++ [e], ¬ D.Sets e' := by
    intro e' mem
    rcases List.mem_append.mp mem with mem | mem
    · exact since e' mem
    · exact List.mem_singleton.mp mem ▸ unset
  have none : ∀ e' ∈ ([] : List E), ¬ D.Sets e' := fun _ mem => absurd mem List.not_mem_nil
  cases leaves with
  | whole attempted done => exact .whole rfl attempted done none
  | part attempted failed part => exact .part rfl attempted failed part none
  | unmoved unset =>
    cases holds with
    | initial since => exact .initial (last events since unset)
    | @whole before after _ _ split attempted done since =>
      refine .whole (?_ : _ = before ++ _ :: (after ++ [e])) attempted done (last after since unset)
      rw [split, List.append_assoc, List.cons_append]
    | @part before after _ _ _ split attempted failed part since =>
      refine .part (?_ : _ = before ++ _ :: (after ++ [e])) attempted failed part
        (last after since unset)
      rw [split, List.append_assoc, List.cons_append]

end Cells

section Texts

theorem encodeUtf8_ascii {s : Str} (ascii : ∀ c ∈ s, c.utf8Size = 1) :
    encodeUtf8 s = s.map fun c => c.val.toUInt8 := by
  induction s with
  | nil => rfl
  | cons c rest ih =>
    obtain ⟨first, rest⟩ := List.forall_mem_cons.mp ascii
    rw [encodeUtf8, List.flatMap_cons, ← encodeUtf8, ih rest,
      String.utf8EncodeChar_eq_singleton first]
    rfl

/-- The first bytes of a plain text are the text of its first characters. -/
theorem take_encodeUtf8 {s : Str} (ascii : ∀ c ∈ s, c.utf8Size = 1) (n : Nat) :
    (encodeUtf8 s).take n = encodeUtf8 (s.take n) := by
  rw [encodeUtf8_ascii ascii, encodeUtf8_ascii fun c mem => ascii c (List.mem_of_mem_take mem),
    List.map_take]

theorem digit_range {c : Char} (digit : c.isDigit) : 48 ≤ c.toNat ∧ c.toNat ≤ 57 := by
  simpa [Char.isDigit, UInt32.le_iff_toNat_le] using digit

theorem utf8Size_digit {c : Char} (digit : c.isDigit) : c.utf8Size = 1 := by
  have range := digit_range digit
  rw [Char.utf8Size_eq_one_iff, UInt32.le_iff_toNat_le]
  exact range.2.trans (by decide)

theorem ofDigitChars_lt {s : Str} (digits : ∀ c ∈ s, c.isDigit) :
    Nat.ofDigitChars 10 s 0 < 10 ^ s.length := by
  induction s using List.reverseRecOn with
  | nil => simp
  | append_singleton s c ih =>
    obtain ⟨first, last⟩ := List.forall_mem_append.mp digits
    have range := digit_range (last c List.mem_cons_self)
    have zero : '0'.toNat = 48 := rfl
    have ih := ih first
    rw [Nat.ofDigitChars_append, Nat.ofDigitChars_cons, Nat.ofDigitChars_nil, List.length_append,
      List.length_singleton, Nat.pow_succ]
    omega

/-- Dropping the last digits divides by a power of ten. -/
theorem ofDigitChars_take {s : Str} (digits : ∀ c ∈ s, c.isDigit) (n : Nat) :
    Nat.ofDigitChars 10 (s.take n) 0 = Nat.ofDigitChars 10 s 0 / 10 ^ (s.drop n).length := by
  have dropped : Nat.ofDigitChars 10 (s.drop n) 0 < 10 ^ (s.drop n).length :=
    ofDigitChars_lt fun c mem => digits c (List.mem_of_mem_drop mem)
  have value : Nat.ofDigitChars 10 s 0 = 10 ^ (s.drop n).length * Nat.ofDigitChars 10 (s.take n) 0 +
      Nat.ofDigitChars 10 (s.drop n) 0 := by
    rw [← Nat.ofDigitChars_eq_ofDigitChars_zero, ← Nat.ofDigitChars_append, List.take_append_drop]
  rw [value, Nat.mul_add_div (Nat.pow_pos (by decide)), Nat.div_eq_of_lt dropped, Nat.add_zero]

variable {α : Type} [MachineInt α]

/-- What an unsigned type reads in a part of a printed value: the last `k` digits are left out,
and not all of them. -/
theorem parse_take_display (unsigned : MachineInt.min α = 0) (a : α) (n : Nat) :
    parse α ((display a).take n) = .error .empty ∨
      ∃ b, ∃ k < (display a).length, parse α ((display a).take n) = .ok b ∧
        MachineInt.toInt b = MachineInt.toInt a / 10 ^ k := by
  have digits := digits_display unsigned a
  have range := MachineInt.toInt_mem a
  obtain ⟨m, value⟩ := Int.eq_ofNat_of_zero_le (unsigned ▸ range.1)
  cases part : (display a).take n with
  | nil => exact Or.inl rfl
  | cons c rest =>
    let k := ((display a).drop n).length
    have some_left : k < (display a).length := by
      have cut := congrArg List.length part
      have whole := congrArg List.length (List.take_append_drop n (display a))
      rw [List.length_append, cut, List.length_cons] at whole
      omega
    have smaller : ((m / 10 ^ k : Nat) : Int) ≤ m := Int.ofNat_le.mpr (Nat.div_le_self m _)
    have low : MachineInt.min α ≤ (m / 10 ^ k : Nat) := unsigned ▸ Int.natCast_nonneg _
    have high : ((m / 10 ^ k : Nat) : Int) ≤ MachineInt.max α :=
      Int.le_trans smaller (value ▸ range.2)
    have fits : MachineInt.toInt (MachineInt.ofInt (m / 10 ^ k : Nat) : α) = (m / 10 ^ k : Nat) :=
      MachineInt.toInt_ofInt _ low high
    refine Or.inr ⟨MachineInt.ofInt (m / 10 ^ k : Nat), k, some_left, ?_, ?_⟩
    · rw [parse_eq_ok_iff_numberText unsigned fits, ← part]
      refine ⟨_, ⟨?_, fun c mem => digits c (List.mem_of_mem_take mem), ?_⟩, Or.inl rfl⟩
      · exact part ▸ List.cons_ne_nil c rest
      · rw [ofDigitChars_take digits, ← (numeral_display unsigned value).2.2]
    · rw [fits, value]
      push_cast
      rfl

end Texts

end TornWrites
