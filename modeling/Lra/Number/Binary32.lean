import Mathlib

/-!
# Numbers in single precision

The order of `Float32`, and the conversion of integers to it. Rounding is followed from
the bits shifted out of a significand to the number they round; it keeps the order.
-/

namespace Binary32

open Float.Model (Format UnpackedFloat)
open Float.Model.UnpackedFloat (ExtendedMantissa)

/-! ### Order -/

/-- A place in the order of the numbers; none for what is not a number. -/
def key : UnpackedFloat → Option (Int ×ₗ Int ×ₗ Int)
  | .notANumber => none
  | .infinity .negative => some (toLex (-2, toLex (0, 0)))
  | .finite .negative m e _ => some (toLex (-1, toLex (-e, -m)))
  | .zero _ => some (toLex (0, toLex (0, 0)))
  | .finite .positive m e _ => some (toLex (1, toLex (e, m)))
  | .infinity .positive => some (toLex (2, toLex (0, 0)))

theorem unpacked_lt_iff (x y : UnpackedFloat) :
    x.lt y = true ↔ ∃ k ∈ key x, ∃ l ∈ key y, k < l := by
  cases x with
  | notANumber => cases y <;> simp [key, UnpackedFloat.lt, UnpackedFloat.compare]
  | infinity s =>
      cases s <;> cases y with
      | notANumber => simp [key, UnpackedFloat.lt, UnpackedFloat.compare]
      | zero => simp [key, UnpackedFloat.lt, UnpackedFloat.compare, Prod.Lex.toLex_lt_toLex]
      | infinity t | finite t =>
          cases t <;>
            simp [key, UnpackedFloat.lt, UnpackedFloat.compare, Prod.Lex.toLex_lt_toLex] <;> decide
  | zero s =>
      cases y with
      | notANumber => cases s <;> simp [key, UnpackedFloat.lt, UnpackedFloat.compare]
      | zero => cases s <;> simp [key, UnpackedFloat.lt, UnpackedFloat.compare]
      | infinity t | finite t =>
          cases t <;> cases s <;>
            simp [key, UnpackedFloat.lt, UnpackedFloat.compare, Prod.Lex.toLex_lt_toLex]
  | finite s m e h =>
      cases s <;> cases y with
      | notANumber => simp [key, UnpackedFloat.lt, UnpackedFloat.compare]
      | zero => simp [key, UnpackedFloat.lt, UnpackedFloat.compare, Prod.Lex.toLex_lt_toLex]
      | infinity t =>
          cases t <;>
            simp [key, UnpackedFloat.lt, UnpackedFloat.compare, Prod.Lex.toLex_lt_toLex]
      | finite t =>
          cases t <;>
            simp [key, UnpackedFloat.lt, UnpackedFloat.compare, Prod.Lex.toLex_lt_toLex,
              Ordering.then_eq_lt, Ordering.then_eq_gt, Nat.compare_eq_lt, Nat.compare_eq_gt,
              Int.compare_eq_lt, Int.compare_eq_gt]

theorem lt_iff {a b : Float32} :
    a < b ↔ ∃ k ∈ key a.toModel.unpack, ∃ l ∈ key b.toModel.unpack, k < l := by
  rw [← unpacked_lt_iff]
  change Float32.lt a b = true ↔ _
  rw [Float32.lt]
  exact decide_eq_true_iff

/-! ### Rounding -/

/-- A mantissa with its round bit and its sticky bit. -/
def code (em : ExtendedMantissa) : Nat :=
  4 * em.mantissa + 2 * em.roundBit.toNat + em.stickyBit.toNat

theorem code_shiftRightOne {a b : ExtendedMantissa} (h : code a ≤ code b) :
    code a.shiftRightOne ≤ code b.shiftRightOne := by
  obtain ⟨m, r, s⟩ := a
  obtain ⟨m', r', s'⟩ := b
  have bit : ∀ m : Nat, (m % 2 != 0).toNat = m % 2 := by
    intro m
    rcases Nat.mod_two_eq_zero_or_one m with h | h <;> simp [h]
  simp only [code, ExtendedMantissa.shiftRightOne, bit] at *
  cases r <;> cases s <;> cases r' <;> cases s' <;> simp at * <;> omega

theorem code_shift {a b : ExtendedMantissa} (h : code a ≤ code b) (k : Nat) :
    code (a >>> k) ≤ code (b >>> k) := by
  induction k with
  | zero => exact h
  | succ k ih => exact code_shiftRightOne ih

theorem mantissa_shift (em : ExtendedMantissa) (k : Nat) :
    (em >>> k).mantissa = em.mantissa / 2 ^ k := by
  induction k with
  | zero => exact (Nat.div_one _).symm
  | succ k ih =>
      change (em >>> k).mantissa / 2 = _
      rw [ih, Nat.div_div_eq_div_mul, Nat.pow_succ]

theorem roundedMantissa_le {a b : ExtendedMantissa} (h : code a ≤ code b) :
    a.roundedMantissa ≤ b.roundedMantissa := by
  obtain ⟨m, r, s⟩ := a
  obtain ⟨m', r', s'⟩ := b
  simp only [code] at h
  cases r <;> cases s <;> cases r' <;> cases s' <;>
    simp [ExtendedMantissa.roundedMantissa, ExtendedMantissa.accuracy,
      UnpackedFloat.Accuracy.roundToNearestEven] at * <;>
    omega

theorem roundedMantissa_bounds (em : ExtendedMantissa) :
    em.mantissa ≤ em.roundedMantissa ∧ em.roundedMantissa ≤ em.mantissa + 1 := by
  obtain ⟨m, r, s⟩ := em
  cases r <;> cases s <;>
    simp [ExtendedMantissa.roundedMantissa, ExtendedMantissa.accuracy,
      UnpackedFloat.Accuracy.roundToNearestEven]
  omega

/-- The significand of a positive integer before a carry out of its 24 bits is dealt with. -/
def significand (n : Nat) : Nat :=
  ((⟨n <<< (23 - n.log2), false, false⟩ : ExtendedMantissa) >>> (n.log2 - 23)).roundedMantissa

theorem log2_shiftLeft {n : Nat} (pos : 0 < n) (k : Nat) : (n <<< k).log2 = n.log2 + k := by
  obtain ⟨lower, upper⟩ := (Nat.log2_eq_iff pos.ne').mp rfl
  have scaled : 0 < n <<< k := by
    rw [Nat.shiftLeft_eq]
    exact Nat.mul_pos pos (Nat.two_pow_pos k)
  apply (Nat.log2_eq_iff scaled.ne').mpr
  rw [Nat.shiftLeft_eq, Nat.add_right_comm, Nat.pow_add, Nat.pow_add _ _ k]
  exact ⟨Nat.mul_le_mul_right _ lower, Nat.mul_lt_mul_of_pos_right upper (Nat.two_pow_pos k)⟩

theorem significand_bounds {n : Nat} (pos : 0 < n) :
    2 ^ 23 ≤ significand n ∧ significand n ≤ 2 ^ 24 := by
  have bounds := roundedMantissa_bounds
    ((⟨n <<< (23 - n.log2), false, false⟩ : ExtendedMantissa) >>> (n.log2 - 23))
  rw [mantissa_shift] at bounds
  have scaled : 0 < n <<< (23 - n.log2) := by
    rw [Nat.shiftLeft_eq]
    exact Nat.mul_pos pos (Nat.two_pow_pos _)
  have log := log2_shiftLeft pos (23 - n.log2)
  obtain ⟨lower, upper⟩ := (Nat.log2_eq_iff scaled.ne').mp log
  have split : n.log2 + (23 - n.log2) = 23 + (n.log2 - 23) := by omega
  rw [split, Nat.pow_add] at lower
  rw [split, Nat.add_right_comm, Nat.pow_add] at upper
  have below := (Nat.le_div_iff_mul_le (Nat.two_pow_pos (n.log2 - 23))).mpr lower
  have above := (Nat.div_lt_iff_lt_mul (Nat.two_pow_pos (n.log2 - 23))).mpr upper
  exact ⟨Nat.le_trans below bounds.1, Nat.le_trans bounds.2 above⟩

theorem significand_le {a b : Nat} (le : a ≤ b) (log : a.log2 = b.log2) :
    significand a ≤ significand b := by
  rw [significand, significand, log]
  apply roundedMantissa_le
  apply code_shift
  simp only [code, Nat.shiftLeft_eq]
  have := Nat.mul_le_mul_right (2 ^ (23 - b.log2)) le
  omega

/-- Excess digits are shifted out, and the exponent makes up for it. -/
theorem shiftToTarget_eq {m : Nat} {e : Int} (full : 23 ≤ m.log2) (normal : -149 ≤ e) :
    UnpackedFloat.shiftToTargetExponent Format.binary32 m e .exact =
      ((⟨m, false, false⟩ : ExtendedMantissa) >>> (m.log2 - 23), e + (m.log2 - 23 : Nat)) := by
  have target : Format.binary32.targetExponent (Float.Model.totalExponent m e) =
      e + (m.log2 - 23 : Nat) := by
    simp only [Format.targetExponent, Float.Model.totalExponent, Format.mantissaBits,
      Format.minExponent]
    rw [max_eq_left (by omega)]
    omega
  have amount : (e + (m.log2 - 23 : Nat) - e).toNat = m.log2 - 23 := by omega
  rw [UnpackedFloat.shiftToTargetExponent, target, UnpackedFloat.shiftToExponent, amount]
  rfl

/-- A positive integer is rounded to its significand, normalised after a carry. -/
theorem round_eq {n : Nat} (pos : 0 < n) :
    ∃ (m : Nat) (e : Int) (h : 0 < m),
      UnpackedFloat.round Format.binary32 .positive n 0 = .finite .positive m e h ∧
      (significand n < 2 ^ 24 ∧ m = significand n ∧ e = (n.log2 : Int) - 23 ∨
        significand n = 2 ^ 24 ∧ m = 2 ^ 23 ∧ e = (n.log2 : Int) - 22) := by
  have target : Format.binary32.targetExponent (Float.Model.totalExponent n 0) =
      (n.log2 : Int) - 23 := by
    simp only [Format.targetExponent, Float.Model.totalExponent, Format.mantissaBits,
      Format.minExponent]
    rw [max_eq_left (by omega)]
    omega
  have amount : (0 - ((n.log2 : Int) - 23)).toNat = 23 - n.log2 := by omega
  have log := log2_shiftLeft pos (23 - n.log2)
  obtain ⟨lower, upper⟩ := significand_bounds pos
  have first := @shiftToTarget_eq (n <<< (23 - n.log2)) (0 - (23 - n.log2 : Nat)) (by omega)
    (by omega)
  have exponent : (0 - (23 - n.log2 : Nat) : Int) + ((n <<< (23 - n.log2)).log2 - 23 : Nat) =
      (n.log2 : Int) - 23 := by omega
  have drop : n.log2 + (23 - n.log2) - 23 = n.log2 - 23 := by omega
  rw [exponent, log, drop] at first
  rw [UnpackedFloat.round, target, UnpackedFloat.decreaseExponent, amount]
  simp only [UnpackedFloat.roundWithAccuracy, first]
  have full : 23 ≤ (significand n).log2 := (Nat.le_log2 (by omega)).mpr lower
  have second := @shiftToTarget_eq (significand n) ((n.log2 : Int) - 23) full (by omega)
  have mantissa := congrArg (·.1.mantissa) second
  simp only [mantissa_shift] at mantissa
  by_cases carry : significand n < 2 ^ 24
  · have log : (significand n).log2 = 23 := (Nat.log2_eq_iff (by omega)).mpr ⟨lower, carry⟩
    rw [log, Nat.sub_self, Nat.pow_zero, Nat.div_one] at mantissa
    refine ⟨_, _, Nat.pos_of_ne_zero ?_, dif_neg ?_, .inl ⟨carry, mantissa, ?_⟩⟩
    · exact mantissa.trans_ne (by omega)
    · exact mantissa.trans_ne (by omega)
    · refine (congrArg (·.2) second).trans ?_
      simp only [log]
      omega
  · have carried : significand n = 2 ^ 24 := by omega
    have log : (significand n).log2 = 24 := by
      rw [carried]
      exact Nat.log2_two_pow
    have half : significand n / 2 ^ ((significand n).log2 - 23) = 2 ^ 23 := by
      rw [log, carried]
      decide
    refine ⟨_, _, Nat.pos_of_ne_zero ?_, dif_neg ?_, .inr ⟨carried, mantissa.trans half, ?_⟩⟩
    · exact (mantissa.trans half).trans_ne (by decide)
    · exact (mantissa.trans half).trans_ne (by decide)
    · refine (congrArg (·.2) second).trans ?_
      simp only [log]
      omega

theorem ofNat_eq_round {n : Nat} (pos : 0 < n) :
    UnpackedFloat.ofNat Format.binary32 n =
      UnpackedFloat.round Format.binary32 .positive n 0 := by
  have gt : compare (n : Int) 0 = .gt := Int.compare_eq_gt.mpr (by omega)
  rw [UnpackedFloat.ofNat, UnpackedFloat.ofInt, UnpackedFloat.normalize, gt, Int.toNat_natCast]

/-- A larger integer never becomes a smaller number. -/
theorem key_ofNat_le {a b : Nat} (le : a ≤ b) :
    ∃ k ∈ key (UnpackedFloat.ofNat Format.binary32 a),
      ∃ l ∈ key (UnpackedFloat.ofNat Format.binary32 b), k ≤ l := by
  by_cases zero : a = 0
  · subst zero
    by_cases same : b = 0
    · subst same
      exact ⟨_, rfl, _, rfl, le_refl _⟩
    · obtain ⟨m, e, h, round, _⟩ := round_eq (Nat.pos_of_ne_zero same)
      rw [ofNat_eq_round (Nat.pos_of_ne_zero same), round]
      refine ⟨_, rfl, _, rfl, ?_⟩
      exact (Prod.Lex.toLex_lt_toLex.mpr (.inl Int.zero_lt_one)).le
  · have pos : 0 < a := Nat.pos_of_ne_zero zero
    obtain ⟨m, e, h, round, spec⟩ := round_eq pos
    obtain ⟨m', e', h', round', spec'⟩ := round_eq (Nat.lt_of_lt_of_le pos le)
    rw [ofNat_eq_round pos, ofNat_eq_round (Nat.lt_of_lt_of_le pos le), round, round']
    refine ⟨_, rfl, _, rfl, ?_⟩
    have bounds := significand_bounds pos
    have bounds' := significand_bounds (Nat.lt_of_lt_of_le pos le)
    have order : e < e' ∨ e = e' ∧ m ≤ m' := by
      have digits : a.log2 ≤ b.log2 :=
        (Nat.le_log2 (by omega)).mpr (Nat.le_trans (Nat.log2_self_le zero) le)
      by_cases same : a.log2 = b.log2
      · have := significand_le le same
        omega
      · omega
    rw [Prod.Lex.toLex_le_toLex]
    refine .inr ⟨rfl, ?_⟩
    rw [Prod.Lex.toLex_le_toLex]
    simpa using order

/-! ### Packing -/

theorem toNat_implicit {m : Nat} (lower : 2 ^ 23 ≤ m) (upper : m < 2 ^ 24) :
    (1#1 ++ BitVec.ofNat 23 m).toNat = m := by
  have low : m % 2 ^ 23 < 2 ^ 23 := Nat.mod_lt _ (by decide)
  rw [BitVec.toNat_append, BitVec.toNat_ofNat, BitVec.toNat_ofNat,
    ← Nat.shiftLeft_add_eq_or_of_lt low, Nat.shiftLeft_eq]
  omega

/-- A normal number survives in 32 bits. -/
theorem unpack_pack {m : Nat} (h : 0 < m) {e : Int} (lower : 2 ^ 23 ≤ m) (upper : m < 2 ^ 24)
    (normal : -149 ≤ e) (finite : e ≤ 104) :
    UnpackedFloat.unpack Format.binary32
      (UnpackedFloat.pack Format.binary32 (.finite .positive m e h)) = .finite .positive m e h := by
  have log : m.log2 = 23 := (Nat.log2_eq_iff (by omega)).mpr ⟨lower, upper⟩
  have small : ¬ 2 ^ 8 ≤ (e + 127 + 23).toNat + 1 := by omega
  have packed : UnpackedFloat.pack Format.binary32 (.finite .positive m e h) =
      UnpackedFloat.packComponents Format.binary32 .positive
        (BitVec.ofNat 8 (e + 127 + 23).toNat) (BitVec.ofNat 23 m) := by
    change (if 2 ^ 8 ≤ (e + 127 + 23).toNat + 1 then _
      else if m.log2 + 1 = 1 + 23 then _ else _) = _
    rw [if_neg small, if_pos (by rw [log])]
    rfl
  have ones : BitVec.ofNat 8 (e + 127 + 23).toNat ≠ -1#_ := by
    rw [ne_eq, ← BitVec.toNat_inj, BitVec.toNat_ofNat]
    change ¬ (e + 127 + 23).toNat % 2 ^ 8 = 255
    omega
  have zeros : BitVec.ofNat 8 (e + 127 + 23).toNat ≠ 0#_ := by
    rw [ne_eq, ← BitVec.toNat_inj, BitVec.toNat_ofNat]
    change ¬ (e + 127 + 23).toNat % 2 ^ 8 = 0
    omega
  rw [packed]
  unfold UnpackedFloat.unpack
  simp only [UnpackedFloat.unpackSign_packComponents, UnpackedFloat.unpackExponent_packComponents,
    UnpackedFloat.unpackMantissa_packComponents, if_neg ones, if_neg zeros]
  rw [UnpackedFloat.finite.injEq]
  refine ⟨rfl, toNat_implicit lower upper, ?_⟩
  rw [BitVec.toNat_ofNat]
  change (((e + 127 + 23).toNat % 2 ^ 8 : Nat) : Int) - (127 + 23) = e
  omega

/-! ### Counts -/

/-- The conversion of a 64-bit integer to the nearest number. -/
def ofInt64 (n : Int64) : Float32 := .ofModel (.ofInt64 n)

theorem unpack_ofInt64 {n : Int64} (nonneg : 0 ≤ n) :
    (ofInt64 n).toModel.unpack = UnpackedFloat.ofNat Format.binary32 n.toInt.toNat := by
  have nonneg : 0 ≤ n.toInt := Int64.le_iff_toInt_le.mp nonneg
  have bound := n.toInt_lt
  have count : (n.toInt.toNat : Int) = n.toInt := Int.toNat_of_nonneg nonneg
  have packed : (ofInt64 n).toModel.unpack = UnpackedFloat.unpack Format.binary32
      (UnpackedFloat.pack Format.binary32 (UnpackedFloat.ofNat Format.binary32 n.toInt.toNat)) := by
    rw [UnpackedFloat.ofNat, count]
    rfl
  rw [packed]
  generalize n.toInt.toNat = k at count
  by_cases zero : k = 0
  · subst zero
    rfl
  · have pos : 0 < k := Nat.pos_of_ne_zero zero
    have digits : k.log2 < 63 := (Nat.log2_lt zero).mpr (by omega)
    have bounds := significand_bounds pos
    obtain ⟨m, e, h, round, spec⟩ := round_eq pos
    rw [ofNat_eq_round pos, round]
    apply unpack_pack h <;> omega

/-- A number above a count is above every smaller count. -/
theorem ofInt64_lt_of_le {a b : Int64} (nonneg : 0 ≤ a) (le : a ≤ b) {t : Float32}
    (above : ofInt64 b < t) : ofInt64 a < t := by
  have larger : 0 ≤ b := Int64.le_trans nonneg le
  have order : a.toInt.toNat ≤ b.toInt.toNat := Int.toNat_le_toNat (Int64.le_iff_toInt_le.mp le)
  rw [lt_iff, unpack_ofInt64 larger] at above
  obtain ⟨l, upper, k, limit, below⟩ := above
  obtain ⟨j, lower, l', upper', kept⟩ := key_ofNat_le order
  obtain rfl := Option.mem_unique upper upper'
  rw [lt_iff, unpack_ofInt64 nonneg]
  exact ⟨j, lower, k, limit, lt_of_le_of_lt kept below⟩

/-! ### Values -/

/-- The value of a finite number. -/
def value : UnpackedFloat → Option Rat
  | .zero _ => some 0
  | .finite s m e _ => some (s.apply m * 2 ^ e)
  | _ => none

/-- The positive numbers, and infinity. -/
theorem pos_iff {t : Float32} :
    0 < t ↔ t.toModel.unpack = .infinity .positive ∨ ∃ v ∈ value t.toModel.unpack, 0 < v := by
  have zero : key (0 : Float32).toModel.unpack = some (toLex (0, toLex (0, 0))) := by
    decide +kernel
  rw [lt_iff, zero]
  cases unpacked : t.toModel.unpack with
  | notANumber => simp [key, value]
  | infinity s => cases s <;> simp [key, value, Prod.Lex.toLex_lt_toLex]
  | zero s => simp [key, value]
  | finite s m e pos =>
      have scale : (0 : Rat) < 2 ^ e := zpow_pos (by decide) e
      have digits : (0 : Rat) < m := Nat.cast_pos.mpr pos
      cases s with
      | negative =>
          have value_neg : (UnpackedFloat.Sign.negative.apply m : Rat) * 2 ^ e < 0 := by
            rw [UnpackedFloat.Sign.apply, Int.cast_neg, Int.cast_natCast, neg_mul]
            exact neg_neg_of_pos (mul_pos digits scale)
          simpa [key, value, Prod.Lex.toLex_lt_toLex] using value_neg.le
      | positive =>
          have value_pos : (0 : Rat) < (UnpackedFloat.Sign.positive.apply m : Rat) * 2 ^ e := by
            rw [UnpackedFloat.Sign.apply, Int.cast_natCast]
            exact mul_pos digits scale
          simpa [key, value, Prod.Lex.toLex_lt_toLex] using value_pos

theorem ofInt64_lt_infinity {n : Int64} (nonneg : 0 ≤ n) {t : Float32}
    (infinite : t.toModel.unpack = .infinity .positive) : ofInt64 n < t := by
  rw [lt_iff, unpack_ofInt64 nonneg, infinite]
  by_cases zero : n.toInt.toNat = 0
  · rw [zero]
    exact ⟨_, rfl, _, rfl, Prod.Lex.toLex_lt_toLex.mpr (.inl (by decide))⟩
  · obtain ⟨m, e, h, round, _⟩ := round_eq (Nat.pos_of_ne_zero zero)
    rw [ofNat_eq_round (Nat.pos_of_ne_zero zero), round]
    exact ⟨_, rfl, _, rfl, Prod.Lex.toLex_lt_toLex.mpr (.inl (Int.lt_succ 1))⟩

end Binary32
