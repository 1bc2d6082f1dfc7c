import Lra.Bus.I2c

/-!
# Registers and register files

A register names an address and a byte length. A register file is the memory a
slave exposes: a transfer that names a start address moves through it upwards,
one byte at a time, and read-only registers ignore what is written to them.
-/

namespace Lra

/-- `Register`: address, data length in bytes and default value. -/
structure Register where
  addr : UInt64
  bytelen : Nat
  dv : Nat
  deriving DecidableEq, Repr

/-- `Register_8`. -/
def register8 (addr : UInt64) (dv : UInt8) : Register := ⟨addr, 1, dv.toNat⟩

/-- The registers of a slave by address. -/
abbrev RegFile := Nat → UInt8

namespace RegFile

/-- Bytes written from address `a` upwards, skipping read-only registers. -/
def store (ro : Nat → Bool) (a : Nat) (bs : List UInt8) (m : RegFile) : RegFile := fun i =>
  if a ≤ i ∧ i < a + bs.length ∧ ro i = false then bs.getD (i - a) 0 else m i

/-- The `n` bytes from address `a` upwards. -/
def load (a n : Nat) (m : RegFile) : List UInt8 := (List.range n).map fun i => m (a + i)

variable {ro : Nat → Bool} {a i : Nat} {bs : List UInt8} {m : RegFile}

theorem store_of_lt (h : i < a) : store ro a bs m i = m i := by
  have outside : ¬ (a ≤ i ∧ i < a + bs.length ∧ ro i = false) := by omega
  simp only [store, if_neg outside]

theorem store_of_ge (h : a + bs.length ≤ i) : store ro a bs m i = m i := by
  have outside : ¬ (a ≤ i ∧ i < a + bs.length ∧ ro i = false) := by omega
  simp only [store, if_neg outside]

/-- A writable register inside the written range takes the byte meant for it. -/
theorem store_add {k : Nat} (inside : k < bs.length) (writable : ro (a + k) = false) :
    store ro a bs m (a + k) = bs.getD k 0 := by
  have hit : a ≤ a + k ∧ a + k < a + bs.length ∧ ro (a + k) = false :=
    ⟨Nat.le_add_right a k, by omega, writable⟩
  rw [store, if_pos hit, Nat.add_sub_cancel_left]

@[simp] theorem store_nil : store ro a [] m = m := by
  funext i
  simp only [store, List.length_nil, Nat.add_zero]
  split
  · omega
  · rfl

theorem store_one_self {b : UInt8} (writable : ro a = false) : store ro a [b] m a = b := by
  have inside : 0 < [b].length := by simp
  simpa using store_add inside (show ro (a + 0) = false from writable)

theorem store_one_ne {b : UInt8} (h : i ≠ a) : store ro a [b] m i = m i := by
  rcases Nat.lt_or_gt_of_ne h with h | h
  · exact store_of_lt h
  · refine store_of_ge ?_
    simp only [List.length_singleton]
    omega

@[simp] theorem load_one : load a 1 m = [m a] := by
  simp [load, List.range_succ]

@[simp] theorem load_length (n : Nat) : (load a n m).length = n := by
  simp [load]

/-- A slave with one address byte receives `out`: a start address, then data. -/
def receive (ro : Nat → Bool) (out : List UInt8) (m : RegFile) : RegFile :=
  match out with
  | [] => m
  | a :: data => store ro a.toNat data m

/-- The start address a transfer names. -/
def startOf (out : List UInt8) : Nat := (out.headD 0).toNat

end RegFile

end Lra
