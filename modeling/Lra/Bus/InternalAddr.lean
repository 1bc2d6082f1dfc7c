import Lra.Bus.I2cAdapter
import Lra.Number.BigEndian
import Mathlib.Data.List.GetD

/-!
# Internal addresses

An address that fits the address bytes of a device passes the adapter's check, and its bytes
are written most significant first. Both hold for every width the functions are given.
-/

namespace Lra

/-! ### The mask -/

/-- A mask of `k` bytes grows by one byte in each round. -/
theorem toNat_integralMaskLoop {n k : Nat} {mask : UInt64} (filled : mask.toNat + 1 = 2 ^ (8 * k))
    (fits : k + n ≤ 8) : (integralMaskLoop n mask).toNat + 1 = 2 ^ (8 * (k + n)) := by
  induction n generalizing k mask with
  | zero => exact filled
  | succ n ih =>
      have room : 2 ^ (8 * k) ≤ 2 ^ 56 := Nat.pow_le_pow_right (by decide) (by omega)
      have next : (mask <<< 8 ||| 0x0ff).toNat = mask.toNat * 256 + 255 := by
        have shifted : (mask <<< 8).toNat = mask.toNat <<< 8 := by
          have small : mask.toNat <<< 8 < 2 ^ 64 := by
            rw [Nat.shiftLeft_eq]
            omega
          exact (UInt64.toNat_shiftLeft mask 8).trans (Nat.mod_eq_of_lt small)
        rw [UInt64.toNat_or, shifted, ← Nat.shiftLeft_add_eq_or_of_lt (by decide),
          Nat.shiftLeft_eq]
        rfl
      have filled' : (mask <<< 8 ||| 0x0ff).toNat + 1 = 2 ^ (8 * (k + 1)) := by
        have width : 8 * (k + 1) = 8 * k + 8 := rfl
        rw [next, width, Nat.pow_add, ← filled]
        omega
      rw [integralMaskLoop, ih filled' (by omega), Nat.add_right_comm, Nat.add_assoc]

theorem toNat_makeIntegralMask {nbytes : UInt8} (lt : nbytes < 8) :
    (makeIntegralMask nbytes).toNat = 2 ^ (8 * nbytes.toNat) - 1 := by
  have small : nbytes.toNat < 8 := lt
  have filled : (0 : UInt64).toNat + 1 = 2 ^ (8 * 0) := rfl
  have grown := toNat_integralMaskLoop (n := nbytes.toNat) filled (by omega)
  rw [Nat.zero_add] at grown
  rw [makeIntegralMask, if_neg (UInt8.not_le.mpr lt)]
  omega

namespace I2cAdapter

/-- The addresses that the check accepts. -/
theorem i2cInternalAddrCheck_iff (nbytes : UInt8) (iaddr : UInt64) :
    i2cInternalAddrCheck nbytes iaddr = true ↔
      8 ≤ nbytes ∨ iaddr.toNat < 2 ^ (8 * nbytes.toNat) := by
  rw [i2cInternalAddrCheck, beq_iff_eq]
  by_cases wide : 8 ≤ nbytes
  · have all : makeIntegralMask nbytes = ~~~0 := if_pos wide
    rw [all]
    exact iff_of_true (UInt64.neg_one_and) (.inl wide)
  · have mask := toNat_makeIntegralMask (UInt8.not_le.mp wide)
    rw [or_iff_right wide, ← UInt64.toNat_inj, UInt64.toNat_and, mask, Nat.and_comm,
      Nat.and_two_pow_sub_one_eq_mod]
    exact Nat.mod_eq_iff_lt (Nat.two_pow_pos _).ne'

/-! ### The bytes -/

theorem length_networkBytes (iaddr : UInt32) : (networkBytes iaddr).length = 4 := rfl

theorem value_networkBytes (iaddr : UInt32) :
    BigEndian.value (networkBytes iaddr) = iaddr.toNat := by
  have small := iaddr.toNat_lt
  simp only [BigEndian.value, networkBytes, List.foldl_cons, List.foldl_nil,
    UInt32.toNat_toUInt8, UInt32.toNat_shiftRight]
  simp only [UInt32.reduceToNat, Nat.reduceMod, Nat.shiftRight_eq_div_pow]
  omega

/-- The loop copies the last bytes in front of what it leaves alone. -/
theorem addrConvertLoop_eq {caddr toBuf : List UInt8} {i j : Nat} (le : i ≤ j)
    (inside : j ≤ caddr.length) (room : i ≤ toBuf.length) :
    addrConvertLoop caddr i j toBuf = (caddr.drop (j - i)).take i ++ toBuf.drop i := by
  induction i generalizing j toBuf with
  | zero => cases j <;> rfl
  | succ i ih =>
      obtain ⟨j, rfl⟩ : ∃ j', j = j' + 1 := ⟨j - 1, by omega⟩
      have here : i < (caddr.drop (j - i)).length := by
        rw [List.length_drop]
        omega
      have last : caddr.getD j 0 = (caddr.drop (j - i))[i] := by
        rw [List.getElem_drop, List.getD_eq_getElem _ _ (by omega)]
        congr 1
        omega
      have rest : (toBuf.set i (caddr.getD j 0)).drop i = caddr.getD j 0 :: toBuf.drop (i + 1) := by
        rw [List.drop_eq_getElem_cons (by rw [List.length_set]; omega), List.getElem_set_self,
          List.drop_set_of_lt (by omega)]
      rw [addrConvertLoop, ih (by omega) (by omega) (by rw [List.length_set]; omega), rest,
        Nat.succ_sub_succ, List.take_succ_eq_append_getElem here, last, List.append_assoc]
      rfl

/-- The bytes of an address: the last of those in network order. -/
def addrBytes (iaddr : UInt32) (nbyte : UInt8) : List UInt8 :=
  (networkBytes iaddr).drop (4 - nbyte.toNat)

theorem length_addrBytes {nbyte : UInt8} (le : nbyte ≤ 4) (iaddr : UInt32) :
    (addrBytes iaddr nbyte).length = nbyte.toNat := by
  have le : nbyte.toNat ≤ 4 := le
  rw [addrBytes, List.length_drop, length_networkBytes]
  omega

/-- The conversion writes these bytes, one for each byte of the width, and leaves the rest of
the buffer alone. -/
def WritesAddr (nbyte : UInt8) (iaddr : UInt32) (bytes : List UInt8) : Prop :=
  bytes.length = nbyte.toNat ∧ ∀ toBuf, nbyte.toNat ≤ toBuf.length →
    i2cInternalAddrConvert iaddr nbyte toBuf = bytes ++ toBuf.drop nbyte.toNat

theorem writesAddr_addrBytes {nbyte : UInt8} (le : nbyte ≤ 4) (iaddr : UInt32) :
    WritesAddr nbyte iaddr (addrBytes iaddr nbyte) := by
  refine ⟨length_addrBytes le iaddr, ?_⟩
  intro toBuf room
  have four : nbyte.toNat ≤ 4 := le
  have whole : (addrBytes iaddr nbyte).length ≤ nbyte.toNat :=
    Nat.le_of_eq (length_addrBytes le iaddr)
  rw [i2cInternalAddrConvert, addrConvertLoop_eq four (length_networkBytes iaddr).ge room]
  exact congrArg (· ++ _) (List.take_of_length_le whole)

theorem WritesAddr.unique {nbyte : UInt8} {iaddr : UInt32} {bytes bytes' : List UInt8}
    (h : WritesAddr nbyte iaddr bytes) (h' : WritesAddr nbyte iaddr bytes') : bytes = bytes' := by
  have room : nbyte.toNat ≤ (List.replicate nbyte.toNat (0 : UInt8)).length :=
    List.length_replicate.ge
  exact List.append_cancel_right ((h.2 _ room).symm.trans (h'.2 _ room))

/-- An accepted address of at most four bytes survives. -/
theorem value_addrBytes {nbytes : UInt8} (le : nbytes ≤ 4) {iaddr : UInt64}
    (accepted : i2cInternalAddrCheck nbytes iaddr = true) :
    BigEndian.value (addrBytes iaddr.toUInt32 nbytes) = iaddr.toNat := by
  have four : nbytes.toNat ≤ 4 := le
  have narrow : ¬ 8 ≤ nbytes := by
    intro wide
    have eight : 8 ≤ nbytes.toNat := wide
    omega
  have lt : iaddr.toNat < 2 ^ (8 * nbytes.toNat) :=
    ((i2cInternalAddrCheck_iff nbytes iaddr).mp accepted).resolve_left narrow
  have power : 256 ^ nbytes.toNat = 2 ^ (8 * nbytes.toNat) := (Nat.pow_mul 2 8 _).symm
  have most : 2 ^ (8 * nbytes.toNat) ≤ 2 ^ 32 := Nat.pow_le_pow_right (by decide) (by omega)
  have kept : iaddr.toUInt32.toNat = iaddr.toNat := by
    rw [UInt64.toNat_toUInt32]
    omega
  have length := length_addrBytes le iaddr.toUInt32
  rw [addrBytes] at length ⊢
  rw [BigEndian.value_drop, length, value_networkBytes, kept, power, Nat.mod_eq_of_lt lt]

/-- Which addresses are accepted. Those of at most four bytes are written whole, and no two of
them alike. -/
theorem internalAddr_written (nbytes : UInt8) :
    (∀ iaddr, i2cInternalAddrCheck nbytes iaddr = true ↔
      8 ≤ nbytes ∨ iaddr.toNat < 2 ^ (8 * nbytes.toNat)) ∧
    (nbytes ≤ 4 → ∀ iaddr, i2cInternalAddrCheck nbytes iaddr = true →
      (∃ bytes, WritesAddr nbytes iaddr.toUInt32 bytes ∧
        BigEndian.value bytes = iaddr.toNat) ∧
      ∀ iaddr' bytes, i2cInternalAddrCheck nbytes iaddr' = true →
        WritesAddr nbytes iaddr.toUInt32 bytes → WritesAddr nbytes iaddr'.toUInt32 bytes →
          iaddr = iaddr') := by
  refine ⟨i2cInternalAddrCheck_iff nbytes, fun le iaddr accepted => ⟨?_, ?_⟩⟩
  · exact ⟨_, writesAddr_addrBytes le _, value_addrBytes le accepted⟩
  · intro iaddr' bytes accepted' writes writes'
    have value := value_addrBytes le accepted
    have value' := value_addrBytes le accepted'
    rw [(writesAddr_addrBytes le _).unique writes] at value
    rw [(writesAddr_addrBytes le _).unique writes'] at value'
    exact UInt64.toNat_inj.mp (value.symm.trans value')

end I2cAdapter

end Lra
