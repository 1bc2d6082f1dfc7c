import Lra.Device.Adxl355Cache
import Lra.Number.BigEndian
import Mathlib.Data.Fin.VecNotation

/-!
# The codes of the ADXL355

A sample has 20 bits for each axis and an offset 16, both in two's complement and most
significant byte first. Samples are decoded as they should be. An offset is tested for its
range only after it has been narrowed to 16 bits, so the test is always passed.
-/

namespace Lra

open Effect

/-! ### Samples -/

/-- The elements of a vector. -/
@[reducible] def Elements : Signature where
  Op := Nat
  Res _ := UInt8

/-- `v[i]`. -/
def element (i : Nat) : Program Elements UInt8 := .op i .ret

/-- Behind the end of a vector there is no element to read. -/
def elementsOf (v : List UInt8) : Semantics Elements Unit :=
  fun i _ b _ => v[i]? = some b

structure Float3 where
  x : Float32 := 0.0
  y : Float32 := 0.0
  z : Float32 := 0.0

namespace Adxl355

/-- `(v[i] << 12) | (v[i + 1] << 4) | (v[i + 2] >> 4)`; no shift reaches the sign of `int`. -/
def digitalCode (b₀ b₁ b₂ : UInt8) : UInt32 :=
  b₀.toUInt32 <<< 12 ||| b₁.toUInt32 <<< 4 ||| b₂.toUInt32 >>> 4

def mask20 : UInt32 := (1 : UInt32) <<< 20 - 1

/-- Two's complement by bit 19. -/
def signExtend (code : UInt32) : Int32 :=
  (if code &&& (1 : UInt32) <<< 19 ≠ 0 then code ||| ~~~mask20 else code).toInt32

/-- `(double)n * (1.0 / acc_adc_num) * dAccRange`, as a `float`. -/
def scaleAcc (s : Adxl355) (n : Int32) : Float32 :=
  (Float.ofInt n.toInt * (1.0 / 1048576.0) * s.getCacheRange.toFloat).toFloat32

/-- `ParseDigitalAcc` on a vector of the given size. -/
def parseDigitalAcc (s : Adxl355) (size : Nat) : Program Elements Float3 :=
  if size ≠ 9 then pure {}
  else do
    let uintX := digitalCode (← element 0) (← element 1) (← element 2)
    let uintY := digitalCode (← element 3) (← element 4) (← element 5)
    let uintZ := digitalCode (← element 6) (← element 7) (← element 8)
    return ⟨s.scaleAcc (signExtend uintX), s.scaleAcc (signExtend uintY),
      s.scaleAcc (signExtend uintZ)⟩

/-- The three fields do not overlap. -/
theorem digitalCode_toNat (b₀ b₁ b₂ : UInt8) :
    (digitalCode b₀ b₁ b₂).toNat = b₀.toNat * 2 ^ 12 + b₁.toNat * 2 ^ 4 + b₂.toNat / 2 ^ 4 := by
  have h₀ := b₀.toNat_lt
  have h₁ := b₁.toNat_lt
  have h₂ := b₂.toNat_lt
  have high : b₀.toNat <<< 12 % 2 ^ 32 = b₀.toNat <<< 12 := by
    rw [Nat.shiftLeft_eq]
    omega
  have middle : b₁.toNat <<< 4 % 2 ^ 32 = b₁.toNat <<< 4 := by
    rw [Nat.shiftLeft_eq]
    omega
  have low : b₂.toNat >>> 4 = b₂.toNat / 2 ^ 4 := Nat.shiftRight_eq_div_pow _ _
  have join : b₁.toNat <<< 4 ||| b₂.toNat >>> 4 = b₁.toNat * 2 ^ 4 + b₂.toNat / 2 ^ 4 := by
    rw [← Nat.shiftLeft_add_eq_or_of_lt (by omega), Nat.shiftLeft_eq, low]
  have whole : b₀.toNat <<< 12 ||| (b₁.toNat <<< 4 ||| b₂.toNat >>> 4) =
      b₀.toNat * 2 ^ 12 + (b₁.toNat * 2 ^ 4 + b₂.toNat / 2 ^ 4) := by
    rw [join, ← Nat.shiftLeft_add_eq_or_of_lt (by omega), Nat.shiftLeft_eq]
  simp only [digitalCode, UInt32.toNat_or, UInt32.toNat_shiftLeft, UInt32.toNat_shiftRight,
    UInt8.toNat_toUInt32]
  rw [Nat.or_assoc]
  simp only [UInt32.toNat_ofNat, Nat.reducePow, Nat.reduceMod] at *
  rw [high, middle, whole, Nat.add_assoc]

/-- The value of a 20-bit number in two's complement. -/
def signed20 (n : Nat) : Int := if n < 2 ^ 19 then n else n - 2 ^ 20

theorem signExtend_toInt {code : UInt32} (small : code.toNat < 2 ^ 20) :
    (signExtend code).toInt = signed20 code.toNat := by
  have value : ∀ u : UInt32, u.toInt32.toInt = (u.toNat : Int).bmod (2 ^ 32) := fun u =>
    BitVec.toInt_eq_toNat_bmod u.toBitVec
  have bit : (code &&& (1 : UInt32) <<< 19).toNat = (code.toNat / 2 ^ 19 % 2) * 2 ^ 19 := by
    have power : ((1 : UInt32) <<< 19).toNat = 2 ^ 19 := by decide
    have quotient : (code.toNat &&& 2 ^ 19) / 2 ^ 19 = code.toNat / 2 ^ 19 % 2 := by
      rw [Nat.and_div_two_pow, Nat.div_self (by decide), Nat.and_one_is_mod]
    have remainder : (code.toNat &&& 2 ^ 19) % 2 ^ 19 = 0 := by
      rw [Nat.and_mod_two_pow, Nat.mod_self, Nat.and_zero]
    rw [UInt32.toNat_and, power]
    omega
  rw [signExtend, signed20]
  by_cases negative : code.toNat < 2 ^ 19
  · have clear : ¬ code &&& (1 : UInt32) <<< 19 ≠ 0 := by
      rw [not_not, ← UInt32.toNat_inj, bit, Nat.div_eq_of_lt negative]
      rfl
    rw [if_neg clear, if_pos negative, value, Int.bmod_def]
    split <;> omega
  · have set : code &&& (1 : UInt32) <<< 19 ≠ 0 := by
      intro zero
      rw [zero] at bit
      have : code.toNat / 2 ^ 19 = 1 := by omega
      rw [this] at bit
      cases bit
    have high : ((~~~mask20) : UInt32).toNat = 0xFFF <<< 20 := by decide
    have extended : (code ||| ~~~mask20).toNat = 0xFFF * 2 ^ 20 + code.toNat := by
      rw [UInt32.toNat_or, high, Nat.or_comm, ← Nat.shiftLeft_add_eq_or_of_lt small,
        Nat.shiftLeft_eq]
    rw [if_pos set, if_neg negative, value, extended, Int.bmod_def]
    split <;> omega

theorem digitalCode_lt (b₀ b₁ b₂ : UInt8) : (digitalCode b₀ b₁ b₂).toNat < 2 ^ 20 := by
  have h₀ := b₀.toNat_lt
  have h₁ := b₁.toNat_lt
  have h₂ := b₂.toNat_lt
  rw [digitalCode_toNat]
  omega

theorem exec_element {v : List UInt8} {i : Nat} {b : UInt8} (inside : v[i]? = some b)
    {α : Type} {next : UInt8 → Program Elements α} {r : α} :
    (∃ tr, Exec (elementsOf v) (element i >>= next) () tr r ()) ↔
      ∃ tr, Exec (elementsOf v) (next b) () tr r () := by
  have outcome : ∀ (b' : UInt8) (u : Unit), elementsOf v i () b' u ↔ b' = b ∧ u = () := by
    intro b' u
    rw [elementsOf, inside]
    exact ⟨fun same => ⟨(Option.some.inj same).symm, rfl⟩, fun same => congrArg some same.1.symm⟩
  exact exists_exec_op_of (S := Elements) (o := i) outcome

/-- From nine bytes the code of each axis is made of its own twenty bits, in two's complement;
from any other number of bytes the result is zero and no byte is read. -/
theorem parseDigitalAcc_spec (s : Adxl355) (v : List UInt8) :
    (v.length = 9 → ∃ code : Fin 3 → Int32,
      (∀ k : Fin 3, (code k).toInt = signed20 ((v.getD (3 * k) 0).toNat * 2 ^ 12 +
        (v.getD (3 * k + 1) 0).toNat * 2 ^ 4 + (v.getD (3 * k + 2) 0).toNat / 2 ^ 4) ∧
        -524288 ≤ (code k).toInt ∧ (code k).toInt ≤ 524287) ∧
      ∀ r, (∃ tr, Exec (elementsOf v) (s.parseDigitalAcc v.length) () tr r ()) ↔
        r = ⟨s.scaleAcc (code 0), s.scaleAcc (code 1), s.scaleAcc (code 2)⟩) ∧
    (v.length ≠ 9 → ∀ tr r,
      Exec (elementsOf v) (s.parseDigitalAcc v.length) () tr r () ↔ tr = [] ∧ r = {}) := by
  constructor
  · intro nine
    refine ⟨fun k => signExtend (digitalCode (v.getD (3 * k) 0) (v.getD (3 * k + 1) 0)
      (v.getD (3 * k + 2) 0)), fun k => ?_, fun r => ?_⟩
    · have small := digitalCode_lt (v.getD (3 * k) 0) (v.getD (3 * k + 1) 0) (v.getD (3 * k + 2) 0)
      rw [signExtend_toInt small, ← digitalCode_toNat]
      refine ⟨rfl, ?_⟩
      rw [signed20]
      split <;> omega
    · have inside : ∀ i < 9, v[i]? = some (v.getD i 0) := by
        intro i lt
        rw [List.getD_eq_getElem?_getD, List.getElem?_eq_getElem (nine ▸ lt), Option.getD_some]
      rw [parseDigitalAcc, if_neg (not_not_intro nine)]
      rw [exec_element (inside 0 (by decide)), exec_element (inside 1 (by decide)),
        exec_element (inside 2 (by decide)), exec_element (inside 3 (by decide)),
        exec_element (inside 4 (by decide)), exec_element (inside 5 (by decide)),
        exec_element (inside 6 (by decide)), exec_element (inside 7 (by decide)),
        exec_element (inside 8 (by decide))]
      exact exists_exec_ret.trans (and_iff_left rfl)
  · intro other tr r
    rw [parseDigitalAcc, if_pos other]
    constructor
    · intro run
      cases run
      exact ⟨rfl, rfl⟩
    · rintro ⟨rfl, rfl⟩
      exact .ret _ _

/-! ### Offsets -/

/-- `int16_t n = round(v / r * 65536)`: the rounded number, reduced modulo `2 ^ 16`. -/
def narrow (rounded : Float32 → Float32 → Int) (v r : Float32) : Int16 := .ofInt (rounded v r)

/-- The codes of the three axes, as they are before they are narrowed. -/
def codes (rounded : Float32 → Float32 → Int) (acc : Acc3) (s : Adxl355) : Fin 3 → Int :=
  ![rounded acc.x s.getCacheRange, rounded acc.y s.getCacheRange, rounded acc.z s.getCacheRange]

def InRange (n : Int) : Prop := -32768 ≤ n ∧ n ≤ 32767

/-- The transfer writes one of the six offset registers. -/
def WritesOffset : List UInt8 → Prop
  | [] => False
  | cmd :: data => cmd &&& 1 ≠ 1 ∧
    ∃ i, 0x1E ≤ i ∧ i ≤ 0x23 ∧ (cmd >>> 1).toNat ≤ i ∧ i < (cmd >>> 1).toNat + data.length

/-- The offset registers hold the codes and are decoded to the codes. -/
def Stored (code : Fin 3 → Int) (st : State) : Prop :=
  (∀ k : Fin 3, (BigEndian.value (RegFile.load (0x1E + 2 * k) 2 st.2) : Int) = code k % 65536) ∧
  ∃ x y z r, (st.1.getOffSet.run chip st.2).1 = (x, y, z, r) ∧
    x.toInt = code 0 ∧ y.toInt = code 1 ∧ z.toInt = code 2

/-- What is asked of `SetOffSet`: codes in range are stored, others are refused, and the mode
is as before. -/
structure OffsetRight (rounded : Float32 → Float32 → Int) (acc : Acc3) (s : Adxl355)
    (m : RegFile) : Prop where
  stored : (∀ k, InRange (codes rounded acc s k)) →
    Stored (codes rounded acc s) ((s.setOffSet (narrow rounded) acc).run chip m)
  refused : (∃ k, ¬ InRange (codes rounded acc s k)) →
    (∀ data m', (data, m') ∈ (s.setOffSet (narrow rounded) acc).trace chip m →
      ¬ WritesOffset data) ∧
    ∀ i, 0x1E ≤ i → i ≤ 0x23 → ((s.setOffSet (narrow rounded) acc).run chip m).2 i = m i
  standby : ((s.setOffSet (narrow rounded) acc).run chip m).1.standby = s.standby
  bit : ((s.setOffSet (narrow rounded) acc).run chip m).2 0x2D &&& 1 = m 0x2D &&& 1

theorem toUInt16_toNat (n : Int16) : (n.toUInt16.toNat : Int) = n.toInt % 65536 := by
  have value : n.toInt = (n.toUInt16.toNat : Int).bmod (2 ^ 16) :=
    BitVec.toInt_eq_toNat_bmod n.toBitVec
  have lt := n.toUInt16.toNat_lt
  rw [value, Int.bmod_def]
  split <;> omega

/-- The two bytes of an offset are its digits to the base 256. -/
theorem offsetBytes_value (n : Int16) : BigEndian.value (offsetBytes n) = n.toUInt16.toNat := by
  have high : (n >>> 8).toUInt16.toUInt8.toNat = n.toUInt16.toNat / 256 := by
    have logical : (n.toBitVec.sshiftRight 8).setWidth 8 = (n.toBitVec >>> 8).setWidth 8 := by
      ext i small
      simp [BitVec.getLsbD_sshiftRight]
      grind
    have shifted : ((n.toBitVec >>> 8).setWidth 8).toNat = n.toBitVec.toNat / 256 := by
      have lt := n.toBitVec.isLt
      simp only [BitVec.toNat_setWidth, BitVec.toNat_ushiftRight, Nat.shiftRight_eq_div_pow]
      omega
    rw [← logical] at shifted
    exact shifted
  have low : n.toUInt16.toUInt8.toNat = n.toUInt16.toNat % 256 := rfl
  have digits : BigEndian.value (offsetBytes n) =
      (0 * 256 + (n >>> 8).toUInt16.toUInt8.toNat) * 256 + n.toUInt16.toUInt8.toNat := rfl
  rw [digits, high, low]
  omega

theorem pair_value {bytes : List UInt8} {n : Int16} {code : Int} (pair : bytes = offsetBytes n)
    (same : n.toInt = code) : (BigEndian.value bytes : Int) = code % 65536 := by
  rw [pair, offsetBytes_value, toUInt16_toNat, same]

/-- What is read from two bytes is their number, most significant byte first. -/
theorem offsetOf_toNat (v : List UInt8) (i : Nat) :
    (offsetOf v i).toUInt16.toNat = BigEndian.value [v.getD i 0, v.getD (i + 1) 0] := by
  rw [offsetOf]
  generalize v.getD i 0 = a, v.getD (i + 1) 0 = b
  have ha := a.toNat_lt
  have hb := b.toNat_lt
  have eight : (8 : UInt16).toNat % 16 = 8 := rfl
  have fits : a.toNat <<< 8 < 2 ^ 16 := by
    rw [Nat.shiftLeft_eq]
    omega
  have join : (a.toUInt16 <<< 8 ||| b.toUInt16).toNat = a.toNat * 256 + b.toNat := by
    simp only [UInt16.toNat_or, UInt16.toNat_shiftLeft, UInt8.toNat_toUInt16, eight]
    rw [Nat.mod_eq_of_lt fits, ← Nat.shiftLeft_add_eq_or_of_lt (by omega), Nat.shiftLeft_eq]
  have digits : BigEndian.value [a, b] = (0 * 256 + a.toNat) * 256 + b.toNat := rfl
  rw [digits, Nat.zero_mul, Nat.zero_add]
  exact join

/-- The number written in two bytes is the one read from them. -/
theorem offsetOf_eq {v : List UInt8} {i : Nat} {n : Int16}
    (bytes : [v.getD i 0, v.getD (i + 1) 0] = offsetBytes n) : offsetOf v i = n := by
  have same : (offsetOf v i).toUInt16 = n.toUInt16 := by
    rw [← UInt16.toNat_inj, offsetOf_toNat, bytes, offsetBytes_value]
  exact congrArg UInt16.toInt16 same

theorem narrow_toInt {rounded : Float32 → Float32 → Int} {v r : Float32}
    (inRange : InRange (rounded v r)) : (narrow rounded v r).toInt = rounded v r := by
  obtain ⟨lower, upper⟩ := inRange
  exact Int16.toInt_ofInt_of_le lower (Int.lt_add_one_of_le upper)

section SetOffSet

variable {adc : Float32 → Float32 → Int16} {acc : Acc3} {s : Adxl355} {m : RegFile}

/-- The bytes that are written to the offset registers. -/
def offsetVector (adc : Float32 → Float32 → Int16) (acc : Acc3) (s : Adxl355) : List UInt8 :=
  offsetBytes (adc acc.x s.getCacheRange) ++ offsetBytes (adc acc.y s.getCacheRange) ++
    offsetBytes (adc acc.z s.getCacheRange)

/-- The registers when the offsets are written. -/
def held (s : Adxl355) (m : RegFile) : RegFile :=
  if s.standby = true then m else Function.update m 0x2D 1

/-- A 16-bit number passes the test, whatever it was narrowed from. -/
theorem natAbs_le (n : Int16) : ¬ n.toInt.natAbs > 65536 >>> 1 := by
  have lower := n.le_toInt
  have upper := n.toInt_lt
  have half : 65536 >>> 1 = 32768 := rfl
  omega

/-- `SetOffSet` never aborts. -/
theorem setOffSet_eq : s.setOffSet adc acc =
    setStandBy true s >>= fun t =>
      write offsetXH.visitAddr.toUInt8 (offsetVector adc acc t) >>= fun _ =>
        setStandBy s.standby t := by
  refine congrArg (setStandBy true s >>= ·) (funext fun t => if_neg ?_)
  simp only [natAbs_le, or_self, not_false_eq_true]

theorem setStandBy_true_run :
    (setStandBy true s).run chip m = ({ s with standby := true }, held s m) :=
  setStandBy_run true s m

theorem setOffSet_run : (s.setOffSet adc acc).run chip m =
    (s, if s.standby = true then pokeAll 0x1E (offsetVector adc acc s) m
      else Function.update (pokeAll 0x1E (offsetVector adc acc s) (held s m)) 0x2D 0) := by
  rw [setOffSet_eq, Program.run_bind, setStandBy_true_run, Program.run_bind,
    write_run _ _ (by decide), setStandBy_run]
  obtain ⟨standby, range⟩ := s
  cases standby <;> rfl

/-- Every call writes the offset registers. -/
theorem setOffSet_writes :
    ∃ data m', (data, m') ∈ (s.setOffSet adc acc).trace chip m ∧ WritesOffset data := by
  have writes : WritesOffset
      ((offsetXH.visitAddr.toUInt8 <<< 1 ||| 0x00) :: offsetVector adc acc s) :=
    ⟨by decide, 0x1E, le_rfl, by decide, by decide, by simp [offsetVector, offsetBytes]; decide⟩
  refine ⟨_, held s m, ?_, writes⟩
  rw [setOffSet_eq, Program.trace_bind, setStandBy_true_run, Program.trace_bind]
  exact List.mem_append_right _ (List.mem_append_left _ (.head _))

theorem setOffSet_byte {k : Nat} (inside : k < 6) :
    ((s.setOffSet adc acc).run chip m).2 (0x1E + k) = (offsetVector adc acc s).getD k 0 := by
  have length : (offsetVector adc acc s).length = 6 := rfl
  simp only [setOffSet_run]
  split
  · exact pokeAll_add _ (length ▸ inside) (length ▸ by decide)
  · rw [Function.update_of_ne (by omega)]
    exact pokeAll_add _ (length ▸ inside) (length ▸ by decide)

/-- The mode of the chip afterwards. -/
theorem setOffSet_mode : ((s.setOffSet adc acc).run chip m).2 0x2D =
    if s.standby = true then m 0x2D else 0 := by
  have length : (offsetVector adc acc s).length = 6 := rfl
  simp only [setOffSet_run]
  split
  · exact pokeAll_of_ge _ (length ▸ by decide) (length ▸ by decide)
  · rw [Function.update_self]

theorem setOffSet_field : ((s.setOffSet adc acc).run chip m).1 = s := by
  rw [setOffSet_run]

theorem setOffSet_stored {rounded : Float32 → Float32 → Int}
    (inRange : ∀ k, InRange (codes rounded acc s k)) :
    Stored (codes rounded acc s) ((s.setOffSet (narrow rounded) acc).run chip m) := by
  have byte := fun k (inside : k < 6) =>
    @setOffSet_byte (narrow rounded) acc s m k inside
  have x : (narrow rounded acc.x s.getCacheRange).toInt = _ := narrow_toInt (inRange 0)
  have y : (narrow rounded acc.y s.getCacheRange).toInt = _ := narrow_toInt (inRange 1)
  have z : (narrow rounded acc.z s.getCacheRange).toInt = _ := narrow_toInt (inRange 2)
  generalize (s.setOffSet (narrow rounded) acc).run chip m = st at byte
  have bytes : RegFile.load 0x1E 6 st.2 = offsetVector (narrow rounded) acc s := by
    simp only [RegFile.load, List.range, List.range.loop, List.map_cons, List.map_nil]
    rw [byte 0 (by decide), byte 1 (by decide), byte 2 (by decide), byte 3 (by decide),
      byte 4 (by decide), byte 5 (by decide)]
    rfl
  constructor
  · intro k
    have axes : k = 0 ∨ k = 1 ∨ k = 2 := by
      revert k
      decide
    rcases axes with rfl | rfl | rfl
    · have pair : RegFile.load (0x1E + 2 * 0) 2 st.2 = offsetBytes (narrow rounded acc.x _) :=
        congrArg (List.take 2) bytes
      exact pair_value pair x
    · have pair : RegFile.load (0x1E + 2 * 1) 2 st.2 = offsetBytes (narrow rounded acc.y _) :=
        congrArg (fun v => (v.drop 2).take 2) bytes
      exact pair_value pair y
    · have pair : RegFile.load (0x1E + 2 * 2) 2 st.2 = offsetBytes (narrow rounded acc.z _) :=
        congrArg (List.drop 4) bytes
      exact pair_value pair z
  · have got : (st.1.getOffSet.run chip st.2).1 = (offsetOf (RegFile.load 0x1E 6 st.2) 0,
        offsetOf (RegFile.load 0x1E 6 st.2) 2, offsetOf (RegFile.load 0x1E 6 st.2) 4,
        st.1.getCacheRange) := by
      rw [getOffSet, Program.run_bind, read_run _ _ (by decide)]
      rfl
    rw [bytes] at got
    exact ⟨_, _, _, _, got, (congrArg Int16.toInt (offsetOf_eq rfl)).trans x,
      (congrArg Int16.toInt (offsetOf_eq rfl)).trans y,
      (congrArg Int16.toInt (offsetOf_eq rfl)).trans z⟩

end SetOffSet

/-- `SetOffSet` does what is asked of it exactly if the three codes are in range and, when the
driver takes the chip to measure, the chip does. -/
theorem offsetRight_iff (rounded : Float32 → Float32 → Int) (acc : Acc3) (s : Adxl355)
    (m : RegFile) : OffsetRight rounded acc s m ↔
      (∀ k, InRange (codes rounded acc s k)) ∧ (s.standby = false → m 0x2D &&& 1 = 0) := by
  constructor
  · intro right
    refine ⟨?_, fun measuring => ?_⟩
    · by_contra outside
      obtain ⟨data, m', performed, writes⟩ :=
        @setOffSet_writes (narrow rounded) acc s m
      exact (right.refused (not_forall.mp outside)).1 data m' performed writes
    · have bit := right.bit
      rw [setOffSet_mode, if_neg (ne_true_of_eq_false measuring)] at bit
      exact bit.symm
  · rintro ⟨inRange, mode⟩
    refine ⟨setOffSet_stored, fun ⟨k, outside⟩ => absurd (inRange k) outside, ?_, ?_⟩
    · rw [setOffSet_field]
    · rw [setOffSet_mode]
      split
      · rfl
      · next measuring => exact (mode (eq_false_of_ne_true measuring)).symm

/-- A code beyond the range is written as another one. -/
theorem not_offsetRight_beyond :
    ∃ rounded acc s m, s.standby = true ∧ m 0x2D &&& 1 = 1 ∧ ¬ OffsetRight rounded acc s m := by
  refine ⟨fun _ _ => 32800, ⟨4.1, 4.1, 4.1, 0⟩, { standby := true }, powerOn, rfl, by decide, ?_⟩
  intro right
  obtain ⟨data, m', performed, writes⟩ := @setOffSet_writes
    (narrow fun _ _ => 32800) ⟨4.1, 4.1, 4.1, 0⟩ { standby := true } powerOn
  exact (right.refused ⟨0, fun inRange => absurd inRange.2 (by decide)⟩).1 data m' performed writes

end Adxl355

end Lra
