import Mathlib.Algebra.Order.Ring.Nat
import Mathlib.Data.List.Basic

/-!
# Little-endian bytes

The bytes of a number, least significant first, and the number they stand for.
-/

namespace LittleEndian

/-- The `w` lowest bytes of `n`. -/
def bytes : Nat → Nat → List UInt8
  | 0, _ => []
  | w + 1, n => UInt8.ofNat n :: bytes w (n / 256)

def value : List UInt8 → Nat
  | [] => 0
  | b :: bs => b.toNat + 256 * value bs

@[simp] theorem length_bytes (w n : Nat) : (bytes w n).length = w := by
  induction w generalizing n with
  | zero => rfl
  | succ w ih => rw [bytes, List.length_cons, ih]

theorem value_lt (bs : List UInt8) : value bs < 256 ^ bs.length := by
  induction bs with
  | nil => decide
  | cons b bs ih =>
      have low := b.toNat_lt
      rw [value, List.length_cons, Nat.pow_succ]
      omega

theorem value_bytes {w n : Nat} (h : n < 256 ^ w) : value (bytes w n) = n := by
  induction w generalizing n with
  | zero =>
      rw [Nat.pow_zero] at h
      rw [bytes, value]
      omega
  | succ w ih =>
      rw [Nat.pow_succ] at h
      rw [bytes, value, ih (by omega), UInt8.toNat_ofNat']
      omega

theorem bytes_value (bs : List UInt8) : bytes bs.length (value bs) = bs := by
  induction bs with
  | nil => rfl
  | cons b bs ih =>
      have low := b.toNat_lt
      have first : UInt8.ofNat (b.toNat + 256 * value bs) = b := by
        apply UInt8.toNat_inj.mp
        rw [UInt8.toNat_ofNat']
        omega
      have rest : (b.toNat + 256 * value bs) / 256 = value bs := by omega
      rw [value, List.length_cons, bytes, first, rest, ih]

/-- Bytes shifted in from the last to the first. -/
theorem toNat_foldr {bs : List UInt8} (h : bs.length ≤ 4) :
    (bs.foldr (fun b (acc : UInt32) => acc <<< 8 ||| b.toUInt32) 0).toNat = value bs := by
  induction bs with
  | nil => rfl
  | cons b bs ih =>
      rw [List.length_cons] at h
      have low := b.toNat_lt
      have high : value bs < 2 ^ 24 :=
        Nat.lt_of_lt_of_le (value_lt bs) (Nat.pow_le_pow_right (by decide) (by omega : _ ≤ 3))
      have shifted : value bs <<< 8 % 2 ^ 32 = value bs <<< 8 := by
        apply Nat.mod_eq_of_lt
        rw [Nat.shiftLeft_eq]
        omega
      rw [List.foldr_cons, UInt32.toNat_or, UInt32.toNat_shiftLeft, ih (by omega)]
      change (value bs <<< 8 % 2 ^ 32) ||| b.toNat = _
      rw [shifted, ← Nat.shiftLeft_add_eq_or_of_lt low, Nat.shiftLeft_eq, value]
      omega

end LittleEndian
