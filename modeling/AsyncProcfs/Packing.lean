import Mathlib.Algebra.Group.Nat.Defs

/-!
# Words as bytes in native order

`to_ne_bytes` and `from_ne_bytes` for a word of any length and either byte
order. Little-endian bytes are the base-256 digits of the word, lowest first;
big-endian bytes are the same list reversed.
-/

namespace Packing

inductive ByteOrder where
  | little
  | big
  deriving DecidableEq, Repr

/-- The lowest `len` base-256 digits of a number. -/
def leBytes : Nat → Nat → List UInt8
  | 0, _ => []
  | len + 1, n => UInt8.ofNat n :: leBytes len (n / 256)

def leValue : List UInt8 → Nat
  | [] => 0
  | b :: rest => b.toNat + 256 * leValue rest

def toNeBytes (order : ByteOrder) (len n : Nat) : List UInt8 :=
  match order with
  | .little => leBytes len n
  | .big => (leBytes len n).reverse

def fromNeBytes (order : ByteOrder) (bytes : List UInt8) : Nat :=
  match order with
  | .little => leValue bytes
  | .big => leValue bytes.reverse

@[simp] theorem length_leBytes (len n : Nat) : (leBytes len n).length = len := by
  induction len generalizing n with
  | zero => rfl
  | succ len ih => simp [leBytes, ih]

@[simp] theorem length_toNeBytes (order : ByteOrder) (len n : Nat) :
    (toNeBytes order len n).length = len := by
  cases order <;> simp [toNeBytes]

theorem leValue_leBytes (len n : Nat) (fits : n < 256 ^ len) :
    leValue (leBytes len n) = n := by
  induction len generalizing n with
  | zero => simp [leBytes, leValue]; omega
  | succ len ih =>
    have quotient : n / 256 < 256 ^ len := by
      rw [Nat.div_lt_iff_lt_mul (by decide), ← Nat.pow_succ]
      exact fits
    simp only [leBytes, leValue, ih _ quotient, UInt8.toNat_ofNat']
    omega

theorem leBytes_leValue (bytes : List UInt8) :
    leBytes bytes.length (leValue bytes) = bytes := by
  induction bytes with
  | nil => rfl
  | cons b rest ih =>
    have byte := b.toNat_lt
    have quotient : (b.toNat + 256 * leValue rest) / 256 = leValue rest := by omega
    simp only [List.length_cons, leValue, leBytes, quotient, ih]
    congr 1
    apply UInt8.toNat_inj.mp
    rw [UInt8.toNat_ofNat']
    omega

theorem leValue_lt (bytes : List UInt8) : leValue bytes < 256 ^ bytes.length := by
  induction bytes with
  | nil => simp [leValue]
  | cons b rest ih =>
    have byte := b.toNat_lt
    rw [List.length_cons, Nat.pow_succ, leValue]
    omega

theorem fromNeBytes_toNeBytes (order : ByteOrder) (len n : Nat) (fits : n < 256 ^ len) :
    fromNeBytes order (toNeBytes order len n) = n := by
  cases order <;> simp [fromNeBytes, toNeBytes, leValue_leBytes len n fits]

theorem toNeBytes_fromNeBytes (order : ByteOrder) (bytes : List UInt8) :
    toNeBytes order bytes.length (fromNeBytes order bytes) = bytes := by
  cases order with
  | little => exact leBytes_leValue bytes
  | big =>
    have reversed := leBytes_leValue bytes.reverse
    rw [List.length_reverse] at reversed
    simp only [fromNeBytes, toNeBytes, reversed, List.reverse_reverse]

theorem fromNeBytes_lt (order : ByteOrder) (bytes : List UInt8) :
    fromNeBytes order bytes < 256 ^ bytes.length := by
  cases order with
  | little => exact leValue_lt bytes
  | big => simpa [fromNeBytes] using leValue_lt bytes.reverse

end Packing
