import Mathlib.Algebra.Order.Ring.Nat
import Mathlib.Algebra.Ring.Int.Defs
import Mathlib.Data.List.Induction

/-!
# Big-endian numbers

A list of bytes as a number, most significant byte first.
-/

namespace BigEndian

def value (bytes : List UInt8) : Nat := bytes.foldl (fun v b => v * 256 + b.toNat) 0

@[simp] theorem value_nil : value [] = 0 := rfl

@[simp] theorem value_concat (bytes : List UInt8) (b : UInt8) :
    value (bytes ++ [b]) = value bytes * 256 + b.toNat := by
  simp [value]

theorem value_lt (bytes : List UInt8) : value bytes < 256 ^ bytes.length := by
  induction bytes using List.reverseRecOn with
  | nil => simp
  | append_singleton bytes b ih =>
      have small := b.toNat_lt
      rw [value_concat, List.length_append, List.length_singleton, Nat.pow_succ]
      omega

/-- Shifting in the bytes one by one, in place of what a variable held before. -/
theorem foldl_value (bytes : List UInt8) (v : Nat) :
    bytes.foldl (fun v b => v * 256 + b.toNat) v = v * 256 ^ bytes.length + value bytes := by
  induction bytes using List.reverseRecOn with
  | nil => simp
  | append_singleton bytes b ih =>
      rw [List.foldl_append, List.foldl_cons, List.foldl_nil, ih, value_concat,
        List.length_append, List.length_singleton, Nat.pow_succ, Nat.add_mul, Nat.mul_assoc]
      omega

theorem value_append (high low : List UInt8) :
    value (high ++ low) = value high * 256 ^ low.length + value low := by
  rw [← foldl_value]
  exact List.foldl_append

/-- The last bytes are the remainder. -/
theorem value_drop (bytes : List UInt8) (k : Nat) :
    value (bytes.drop k) = value bytes % 256 ^ (bytes.drop k).length := by
  have whole := value_append (bytes.take k) (bytes.drop k)
  rw [List.take_append_drop] at whole
  rw [whole, Nat.mul_add_mod_self_right, Nat.mod_eq_of_lt (value_lt _)]

/-- The byte `i` places from the front is the digit of weight `256 ^ (n - 1 - i)`. -/
theorem getElem_eq (bytes : List UInt8) (i : Nat) (inside : i < bytes.length) :
    bytes[i] = UInt8.ofNat (value bytes / 256 ^ (bytes.length - 1 - i)) := by
  induction bytes using List.reverseRecOn with
  | nil => simp at inside
  | append_singleton bytes b ih =>
      have small := b.toNat_lt
      rw [List.length_append, List.length_singleton] at inside
      rw [value_concat, List.length_append, List.length_singleton]
      by_cases last : i = bytes.length
      · subst last
        apply UInt8.toNat_inj.mp
        simp
      · have before : i < bytes.length := by omega
        have weight : bytes.length + 1 - 1 - i = (bytes.length - 1 - i) + 1 := by omega
        have rest : (value bytes * 256 + b.toNat) / 256 = value bytes := by omega
        rw [List.getElem_append_left before, ih before, weight, Nat.pow_succ',
          ← Nat.div_div_eq_div_mul, rest]

end BigEndian
