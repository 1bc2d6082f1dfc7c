import Lra.Number.Binary32

/-!
# Whole numbers in single precision

A whole number below `2 ^ 24` has a number in single precision of its own. Sums and products
that stay below are exact: what is shifted out of their significands is zero.
-/

namespace Binary32

open Float.Model (Format UnpackedFloat)
open Float.Model.UnpackedFloat (ExtendedMantissa)

/-- The number of a whole number, or the nearest one. -/
def wholeNumber (n : Nat) : Float32 := .ofModel (.pack (UnpackedFloat.ofNat Format.binary32 n))

/-- The conversion of an `int` to the nearest number. -/
def ofInt32 (n : Int32) : Float32 := .ofModel (.ofInt32 n)

/-! ### Rounding -/

section Rounding

variable {n k : Nat}

/-- Zeros are shifted out again. -/
theorem shift_shiftLeft (n k : Nat) :
    (⟨n <<< k, false, false⟩ : ExtendedMantissa) >>> k = ⟨n, false, false⟩ := by
  induction k generalizing n with
  | zero => rfl
  | succ k ih =>
      have double : n <<< (k + 1) = (n <<< 1) <<< k := by
        rw [← Nat.shiftLeft_add, Nat.add_comm]
      have last : (⟨n <<< 1, false, false⟩ : ExtendedMantissa).shiftRightOne
          = ⟨n, false, false⟩ := by
        simp [ExtendedMantissa.shiftRightOne, Nat.shiftLeft_eq]
      rw [double, ← last, ← ih (n <<< 1)]
      rfl

theorem log2_le (pos : 0 < n) (small : n < 2 ^ 24) : n.log2 ≤ 23 :=
  Nat.lt_succ_iff.mp ((Nat.log2_lt pos.ne').mpr small)

theorem shiftLeft_bounds (pos : 0 < n) (small : n < 2 ^ 24) :
    2 ^ 23 ≤ n <<< (23 - n.log2) ∧ n <<< (23 - n.log2) < 2 ^ 24 := by
  have log := log2_shiftLeft pos (23 - n.log2)
  have le := log2_le pos small
  rw [Nat.add_sub_cancel' le] at log
  exact (Nat.log2_eq_iff (Nat.shiftLeft_pos_iff.mpr pos).ne').mp log

/-- However many zeros there are behind a whole number, rounding only takes them off. -/
theorem roundWithAccuracy_whole (pos : 0 < n) (small : n < 2 ^ 24) (full : 23 ≤ n.log2 + k)
    (normal : k ≤ 149) :
    ∃ h, UnpackedFloat.roundWithAccuracy Format.binary32 .positive (n <<< k) (-k : Int) .exact
      = .finite .positive (n <<< (23 - n.log2)) ((n.log2 : Int) - 23) h := by
  have le := log2_le pos small
  obtain ⟨lower, upper⟩ := shiftLeft_bounds pos small
  have log := log2_shiftLeft pos k
  have first := @shiftToTarget_eq (n <<< k) (-k : Int) (by omega) (by omega)
  have zeros : n <<< k = (n <<< (23 - n.log2)) <<< (n.log2 + k - 23) := by
    rw [← Nat.shiftLeft_add]
    congr 1
    omega
  have exponent : (-k : Int) + (n.log2 + k - 23 : Nat) = (n.log2 : Int) - 23 := by omega
  rw [log, exponent] at first
  have shifted := shift_shiftLeft (n <<< (23 - n.log2)) (n.log2 + k - 23)
  rw [← zeros] at shifted
  rw [shifted] at first
  have log' : (n <<< (23 - n.log2)).log2 = 23 := (Nat.log2_eq_iff (by omega)).mpr ⟨lower, upper⟩
  have second := @shiftToTarget_eq (n <<< (23 - n.log2)) ((n.log2 : Int) - 23) (by omega) (by omega)
  have rounded : (⟨n <<< (23 - n.log2), false, false⟩ : ExtendedMantissa).roundedMantissa
      = n <<< (23 - n.log2) := rfl
  have mantissa := congrArg (·.1.mantissa) second
  simp only [mantissa_shift, log', Nat.sub_self, Nat.pow_zero, Nat.div_one] at mantissa
  have exponent' := congrArg (·.2) second
  simp only [log', Nat.sub_self, Nat.cast_zero, add_zero] at exponent'
  refine ⟨by omega, ?_⟩
  simp only [UnpackedFloat.roundWithAccuracy, first, rounded]
  rw [dif_neg (mantissa.trans_ne (by omega)), UnpackedFloat.finite.injEq]
  exact ⟨rfl, mantissa, exponent'⟩

theorem round_whole (pos : 0 < n) (small : n < 2 ^ 24) (normal : k ≤ 149) :
    ∃ h, UnpackedFloat.round Format.binary32 .positive (n <<< k) (-k : Int)
      = .finite .positive (n <<< (23 - n.log2)) ((n.log2 : Int) - 23) h := by
  have log := log2_shiftLeft pos k
  have target : Format.binary32.targetExponent
      (Float.Model.totalExponent (n <<< k) (-k : Int)) = (n.log2 : Int) - 23 := by
    simp only [Format.targetExponent, Float.Model.totalExponent, Format.mantissaBits,
      Format.minExponent, log]
    rw [max_eq_left (by omega)]
    omega
  have amount : ((-k : Int) - ((n.log2 : Int) - 23)).toNat = 23 - n.log2 - k := by omega
  have exponent : (-k : Int) - (23 - n.log2 - k : Nat) = -(k + (23 - n.log2 - k) : Nat) := by
    omega
  rw [UnpackedFloat.round, target, UnpackedFloat.decreaseExponent, amount]
  dsimp only
  rw [exponent, ← Nat.shiftLeft_add]
  have le := log2_le pos small
  exact roundWithAccuracy_whole pos small (by omega) (by omega)

theorem ofNat_whole (pos : 0 < n) (small : n < 2 ^ 24) :
    ∃ h, UnpackedFloat.ofNat Format.binary32 n
      = .finite .positive (n <<< (23 - n.log2)) ((n.log2 : Int) - 23) h := by
  rw [ofNat_eq_round pos]
  have zeros := @round_whole n 0 pos small (by omega)
  rwa [Nat.shiftLeft_zero, Nat.cast_zero, neg_zero] at zeros

end Rounding

/-! ### Numbers -/

section Numbers

variable {a b n : Nat}

theorem unpack_wholeNumber (small : n < 2 ^ 24) :
    (wholeNumber n).toModel.unpack = UnpackedFloat.ofNat Format.binary32 n := by
  rcases Nat.eq_zero_or_pos n with rfl | pos
  · rfl
  · obtain ⟨h, whole⟩ := ofNat_whole pos small
    obtain ⟨lower, upper⟩ := shiftLeft_bounds pos small
    have le := log2_le pos small
    have packed := @unpack_pack _ h ((n.log2 : Int) - 23) lower upper (by omega) (by omega)
    rw [← whole] at packed
    exact packed

theorem ofInt32_ofInt (small : n < 2 ^ 24) : ofInt32 (.ofInt n) = wholeNumber n := by
  have kept : (Int32.ofInt n).toInt = n := Int32.toInt_ofInt_of_le (by omega) (by omega)
  rw [ofInt32, Float32.Model.ofInt32, UnpackedFloat.ofInt32, kept]
  rfl

theorem ofNat_cases (n : Nat) : UnpackedFloat.ofNat Format.binary32 n = .zero .positive ∨
    ∃ m e h, UnpackedFloat.ofNat Format.binary32 n = .finite .positive m e h := by
  rcases Nat.eq_zero_or_pos n with rfl | pos
  · exact .inl rfl
  · obtain ⟨m, e, h, finite, _⟩ := round_eq pos
    exact .inr ⟨m, e, h, (ofNat_eq_round pos).trans finite⟩

theorem wholeNumber_mul (smallA : a < 2 ^ 24) (smallB : b < 2 ^ 24) (small : a * b < 2 ^ 24) :
    wholeNumber a * wholeNumber b = wholeNumber (a * b) := by
  suffices exact : UnpackedFloat.mul Format.binary32 (wholeNumber a).toModel.unpack
      (wholeNumber b).toModel.unpack = UnpackedFloat.ofNat Format.binary32 (a * b) from
    congrArg (fun m => Float32.ofModel (.pack m)) exact
  rw [unpack_wholeNumber smallA, unpack_wholeNumber smallB]
  rcases Nat.eq_zero_or_pos a with rfl | posA
  · rw [Nat.zero_mul]
    rcases ofNat_cases b with zero | ⟨_, _, _, finite⟩
    · rw [zero]
      rfl
    · rw [finite]
      rfl
  · rcases Nat.eq_zero_or_pos b with rfl | posB
    · obtain ⟨_, _, _, finite, _⟩ := round_eq posA
      rw [Nat.mul_zero, ofNat_eq_round posA, finite]
      rfl
    · have pos : 0 < a * b := Nat.mul_pos posA posB
      obtain ⟨_, wholeA⟩ := ofNat_whole posA smallA
      obtain ⟨_, wholeB⟩ := ofNat_whole posB smallB
      have logA := log2_le posA smallA
      have logB := log2_le posB smallB
      have full : a.log2 ≤ (a * b).log2 := (Nat.le_log2 pos.ne').mpr
        ((Nat.log2_self_le posA.ne').trans (Nat.le_mul_of_pos_right a posB))
      obtain ⟨_, product⟩ := @roundWithAccuracy_whole (a * b) (23 - a.log2 + (23 - b.log2)) pos
        small (by omega) (by omega)
      obtain ⟨_, whole⟩ := ofNat_whole pos small
      have mantissa : a <<< (23 - a.log2) * b <<< (23 - b.log2)
          = (a * b) <<< (23 - a.log2 + (23 - b.log2)) := by
        simp only [Nat.shiftLeft_eq, pow_add]
        ring
      have exponent : (a.log2 : Int) - 23 + ((b.log2 : Int) - 23)
          = -(23 - a.log2 + (23 - b.log2) : Nat) := by omega
      rw [wholeA, wholeB, whole, ← product, ← mantissa, ← exponent]
      rfl

theorem normalize_of_pos (pos : 0 < n) (e : Int) (sign : UnpackedFloat.Sign) :
    UnpackedFloat.normalize Format.binary32 (n : Int) e sign
      = UnpackedFloat.round Format.binary32 .positive n e := by
  have gt : compare (n : Int) 0 = .gt := Int.compare_eq_gt.mpr (Int.natCast_pos.mpr pos)
  rw [UnpackedFloat.normalize, gt, Int.toNat_natCast]

theorem decreaseExponent_whole {j k : Nat} {e : Int} (le : j ≤ k) (same : e = -j) :
    UnpackedFloat.decreaseExponent (a <<< j) e (-k : Int) = (a <<< k, (-k : Int)) := by
  have amount : (e - (-k : Int)).toNat = k - j := by omega
  rw [UnpackedFloat.decreaseExponent, amount, ← Nat.shiftLeft_add, Nat.add_sub_cancel' le]
  refine congrArg _ ?_
  omega

theorem wholeNumber_add (small : a + b < 2 ^ 24) :
    wholeNumber a + wholeNumber b = wholeNumber (a + b) := by
  suffices exact : UnpackedFloat.add Format.binary32 (wholeNumber a).toModel.unpack
      (wholeNumber b).toModel.unpack = UnpackedFloat.ofNat Format.binary32 (a + b) from
    congrArg (fun m => Float32.ofModel (.pack m)) exact
  rw [unpack_wholeNumber (by omega), unpack_wholeNumber (by omega)]
  rcases Nat.eq_zero_or_pos a with rfl | posA
  · rw [Nat.zero_add]
    rcases ofNat_cases b with zero | ⟨_, _, _, finite⟩
    · rw [zero]
      rfl
    · rw [finite]
      rfl
  · rcases Nat.eq_zero_or_pos b with rfl | posB
    · obtain ⟨_, _, _, finite, _⟩ := round_eq posA
      rw [Nat.add_zero, ofNat_eq_round posA, finite]
      rfl
    · have pos : 0 < a + b := by omega
      obtain ⟨_, wholeA⟩ := ofNat_whole posA (by omega)
      obtain ⟨_, wholeB⟩ := ofNat_whole posB (by omega)
      have logA := log2_le posA (by omega)
      have logB := log2_le posB (by omega)
      -- The number with more zeros behind it is shifted further.
      have least : min ((a.log2 : Int) - 23) ((b.log2 : Int) - 23)
          = -(max (23 - a.log2) (23 - b.log2) : Nat) := by omega
      obtain ⟨_, sum⟩ := @round_whole (a + b) (max (23 - a.log2) (23 - b.log2)) pos small
        (by omega)
      obtain ⟨_, whole⟩ := ofNat_whole pos small
      have shiftA := decreaseExponent_whole (a := a) (e := (a.log2 : Int) - 23)
        (le_max_left (23 - a.log2) (23 - b.log2)) (by omega)
      have shiftB := decreaseExponent_whole (a := b) (e := (b.log2 : Int) - 23)
        (le_max_right (23 - a.log2) (23 - b.log2)) (by omega)
      rw [wholeA, wholeB, whole, ← sum, UnpackedFloat.add, least]
      dsimp only
      rw [shiftA, shiftB]
      have mantissa : ((a <<< max (23 - a.log2) (23 - b.log2) : Nat) : Int)
          + (b <<< max (23 - a.log2) (23 - b.log2) : Nat)
          = ((a + b) <<< max (23 - a.log2) (23 - b.log2) : Nat) := by
        simp only [Nat.shiftLeft_eq]
        push_cast
        ring
      dsimp only [UnpackedFloat.Sign.apply]
      rw [mantissa, normalize_of_pos (Nat.shiftLeft_pos_iff.mpr pos)]

theorem value_wholeNumber (small : n < 2 ^ 24) :
    value (wholeNumber n).toModel.unpack = some (n : ℚ) := by
  rw [unpack_wholeNumber small]
  rcases Nat.eq_zero_or_pos n with rfl | pos
  · rfl
  · obtain ⟨_, finite⟩ := ofNat_whole pos small
    have le := log2_le pos small
    have exponent : (n.log2 : Int) - 23 = -((23 - n.log2 : Nat) : Int) := by omega
    have scale : (2 : ℚ) ^ (23 - n.log2) ≠ 0 := pow_ne_zero _ two_ne_zero
    rw [finite, value, exponent, zpow_neg, zpow_natCast, UnpackedFloat.Sign.apply,
      Nat.shiftLeft_eq]
    push_cast
    rw [mul_inv_cancel_right₀ scale]

end Numbers

end Binary32
