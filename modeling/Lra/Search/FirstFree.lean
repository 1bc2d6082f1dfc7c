import Mathlib.Algebra.Order.Ring.Nat
import Mathlib.Data.List.Nodup
import Mathlib.Data.List.Perm.Subperm
import Mathlib.Data.Nat.Find

/-!
# The first free member of a sequence

A loop goes through a sequence, counting in 32 bits, until it comes to a member that is
not taken. With fewer members taken than there are indices it ends at the first free one.
-/

namespace Search

variable {α : Type}

/-- Some member among more than are taken is free, and one of these is the first. -/
theorem exists_first_free {f : Nat → α} {taken : List α} {N : Nat}
    (inj : ∀ i < N, ∀ j < N, f i = f j → i = j) (few : taken.length < N) :
    ∃ n < N, f n ∉ taken ∧ ∀ j < n, f j ∈ taken := by
  have exists_free : ∃ n, n < N ∧ f n ∉ taken := by
    by_contra none
    have all : ∀ n < N, f n ∈ taken := by
      intro n inside
      by_contra free
      exact none ⟨n, inside, free⟩
    have distinct : ((List.range N).map f).Nodup := by
      refine (List.nodup_range).map_on fun i hi j hj same => ?_
      exact inj i (List.mem_range.mp hi) j (List.mem_range.mp hj) same
    have within : (List.range N).map f ⊆ taken := by
      intro a inside
      obtain ⟨n, below, rfl⟩ := List.mem_map.mp inside
      exact all n (List.mem_range.mp below)
    have many := (List.subperm_of_subset distinct within).length_le
    rw [List.length_map, List.length_range] at many
    omega
  classical
  obtain ⟨inside, free⟩ := Nat.find_spec exists_free
  refine ⟨Nat.find exists_free, inside, free, fun j before => ?_⟩
  by_contra free'
  exact Nat.find_min exists_free before ⟨Nat.lt_trans before inside, free'⟩

section Loop

variable {taken : α → Bool} {f : UInt32 → α}

/-- At most `fuel` rounds of the loop, from the index `i`. -/
def firstFree (taken : α → Bool) (f : UInt32 → α) : Nat → UInt32 → Option α
  | 0, _ => none
  | fuel + 1, i => if taken (f i) then firstFree taken f fuel (i + 1) else some (f i)

theorem firstFree_succ_of_some {fuel : Nat} {i : UInt32} {a : α}
    (found : firstFree taken f fuel i = some a) : firstFree taken f (fuel + 1) i = some a := by
  induction fuel generalizing i with
  | zero => cases found
  | succ fuel ih =>
      rw [firstFree] at found ⊢
      split at found
      · next used =>
          rw [if_pos used]
          exact ih found
      · next free =>
          rw [if_neg free]
          exact found

theorem firstFree_of_le {fuel more : Nat} {i : UInt32} {a : α}
    (found : firstFree taken f fuel i = some a) (le : fuel ≤ more) :
    firstFree taken f more i = some a := by
  induction le with
  | refl => exact found
  | step _ ih => exact firstFree_succ_of_some ih

/-- The loop does not depend on how many rounds it is given, if they are enough. -/
theorem firstFree_unique {fuel fuel' : Nat} {i : UInt32} {a b : α}
    (found : firstFree taken f fuel i = some a) (found' : firstFree taken f fuel' i = some b) :
    a = b := by
  have first := firstFree_of_le found (Nat.le_max_left fuel fuel')
  have second := firstFree_of_le found' (Nat.le_max_right fuel fuel')
  exact Option.some.inj (first.symm.trans second)

theorem not_taken_of_firstFree {fuel : Nat} {i : UInt32} {a : α}
    (found : firstFree taken f fuel i = some a) : taken a = false := by
  induction fuel generalizing i with
  | zero => cases found
  | succ fuel ih =>
      rw [firstFree] at found
      split at found
      · exact ih found
      · next free =>
          cases found
          simpa using free

/-- Over taken members the loop goes on to the first free one. -/
theorem firstFree_eq {i k : Nat} (inside : i + k < 2 ^ 32)
    (used : ∀ j < k, taken (f (UInt32.ofNat (i + j))) = true)
    (free : taken (f (UInt32.ofNat (i + k))) = false) :
    firstFree taken f (k + 1) (UInt32.ofNat i) = some (f (UInt32.ofNat (i + k))) := by
  induction k generalizing i with
  | zero =>
      rw [Nat.add_zero] at free
      rw [firstFree, free]
      rfl
  | succ k ih =>
      have next : UInt32.ofNat i + 1 = UInt32.ofNat (i + 1) := by
        rw [UInt32.ofNat_add]
        rfl
      have first : taken (f (UInt32.ofNat i)) = true := used 0 (Nat.succ_pos k)
      have shift : ∀ j, i + (j + 1) = i + 1 + j := by
        intro j
        omega
      rw [firstFree, first, next, shift k]
      rw [shift k] at inside free
      refine ih inside (fun j before => ?_) free
      rw [← shift j]
      exact used (j + 1) (Nat.succ_lt_succ before)

/-- With fewer members taken than there are indices, the loop ends at the first free one. -/
theorem exists_firstFree {used : List α} (inj : Function.Injective f)
    (spec : ∀ a, taken a = true ↔ a ∈ used) (few : used.length < 2 ^ 32) :
    ∃ n < 2 ^ 32, (∃ fuel, firstFree taken f fuel 0 = some (f (UInt32.ofNat n))) ∧
      taken (f (UInt32.ofNat n)) = false ∧ ∀ j < n, taken (f (UInt32.ofNat j)) = true := by
  have apart : ∀ i < 2 ^ 32, ∀ j < 2 ^ 32,
      f (UInt32.ofNat i) = f (UInt32.ofNat j) → i = j := by
    intro i hi j hj same
    have words := congrArg UInt32.toNat (inj same)
    rwa [UInt32.toNat_ofNat_of_lt' hi, UInt32.toNat_ofNat_of_lt' hj] at words
  obtain ⟨n, inside, free, before⟩ := exists_first_free apart few
  have unused : taken (f (UInt32.ofNat n)) = false := by
    rw [Bool.eq_false_iff]
    exact fun yes => free ((spec _).mp yes)
  have taken_before : ∀ j < n, taken (f (UInt32.ofNat j)) = true := fun j lt =>
    (spec _).mpr (before j lt)
  have found := @firstFree_eq _ taken f 0 n
    (by rwa [Nat.zero_add]) (by simpa using taken_before) (by rwa [Nat.zero_add])
  rw [Nat.zero_add] at found
  exact ⟨n, inside, ⟨n + 1, found⟩, unused, taken_before⟩

end Loop

end Search
