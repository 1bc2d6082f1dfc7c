import Lra.Device.Adxl355
import Lra.Effect.Execution
import Lra.Effect.Transition

/-!
# The cached state of the ADXL355

The driver's `standby_` and `range_` are meant to follow bit 0 of `POWER_CTL` and the low
bits of `Range`. Two operations let them drift apart: a repeated `Init`, which forgets the
cached range, and a bulk write, whose bytes may restore the power-on values or change the
mode that was to be kept.
-/

namespace Lra

open Effect

namespace Adxl355

/-! ### The chip -/

/-- The value of a register after power-on. -/
def powerOn : RegFile := fun a =>
  ((regs.find? fun reg => reg.visitAddr.toNat == a).map fun reg =>
    UInt8.ofNat reg.toRegister.dv).getD 0

/-- Writing 0x52 to the reset register restores the power-on values. -/
def poke (a : Nat) (b : UInt8) (m : RegFile) : RegFile :=
  if a = 0x2F ∧ b = 0x52 then powerOn else Function.update m a b

/-- The bytes go to successive addresses. -/
def pokeAll : Nat → List UInt8 → RegFile → RegFile
  | _, [], m => m
  | a, b :: bs, m => pokeAll (a + 1) bs (poke a b m)

/-- The chip on the bus: the first byte holds the address and, in its lowest bit, the
direction. Every transfer succeeds. -/
def chip : Handler Spi RegFile
  | [], m => ((0, []), m)
  | cmd :: data, m =>
    let a := (cmd >>> 1).toNat
    let num : Int := data.length + 1
    if cmd &&& 1 = 1 then ((num, 0 :: RegFile.load a data.length m), m)
    else ((num, 0 :: data), pokeAll a data m)

/-! ### What the transfers do -/

/-- Below the reset register a byte is only stored. -/
theorem poke_below {a : Nat} (below : a < 0x2F) (b : UInt8) (m : RegFile) :
    poke a b m = Function.update m a b := by
  rw [poke, if_neg (by omega)]

theorem pokeAll_append (a : Nat) (first rest : List UInt8) (m : RegFile) :
    pokeAll a (first ++ rest) m = pokeAll (a + first.length) rest (pokeAll a first m) := by
  induction first generalizing a m with
  | nil => rfl
  | cons b first ih =>
      rw [List.cons_append, pokeAll, ih, pokeAll, List.length_cons, Nat.add_assoc,
        Nat.add_comm 1]

theorem pokeAll_of_lt {a i : Nat} {bs : List UInt8} (m : RegFile) (before : i < a)
    (below : a + bs.length ≤ 0x2F) : pokeAll a bs m i = m i := by
  induction bs generalizing a m with
  | nil => rfl
  | cons b bs ih =>
      rw [List.length_cons] at below
      rw [pokeAll, ih _ (by omega) (by omega), poke_below (by omega),
        Function.update_of_ne (by omega)]

theorem pokeAll_of_ge {a i : Nat} {bs : List UInt8} (m : RegFile) (behind : a + bs.length ≤ i)
    (below : a + bs.length ≤ 0x2F) : pokeAll a bs m i = m i := by
  induction bs generalizing a m with
  | nil => rfl
  | cons b bs ih =>
      rw [List.length_cons] at below behind
      rw [pokeAll, ih _ (by omega) (by omega), poke_below (by omega),
        Function.update_of_ne (by omega)]

theorem pokeAll_add {a k : Nat} {bs : List UInt8} (m : RegFile) (inside : k < bs.length)
    (below : a + bs.length ≤ 0x2F) : pokeAll a bs m (a + k) = bs.getD k 0 := by
  induction bs generalizing a k m with
  | nil => simp at inside
  | cons b bs ih =>
      rw [List.length_cons] at below inside
      cases k with
      | zero =>
          have kept : pokeAll (a + 1) bs (poke a b m) a = poke a b m a :=
            pokeAll_of_lt _ (Nat.lt_succ_self a) (by omega)
          change pokeAll (a + 1) bs (poke a b m) a = b
          rw [kept, poke_below (by omega), Function.update_self]
      | succ k =>
          have rest := ih (a := a + 1) (poke a b m) (by omega : k < bs.length) (by omega)
          rw [pokeAll, Nat.add_comm k, ← Nat.add_assoc, rest, Nat.add_comm 1]
          rfl

theorem write_run {addr : UInt8} (val : List UInt8) (m : RegFile)
    (fits : (addr <<< 1 ||| 0x00) >>> 1 = addr ∧ (addr <<< 1 ||| 0x00) &&& 1 ≠ 1) :
    (write addr val).run chip m = ((val.length : Int), pokeAll addr.toNat val m) := by
  obtain ⟨address, direction⟩ := fits
  have transfer : chip ((addr <<< 1 ||| 0x00) :: val) m =
      (((val.length + 1 : Int), 0 :: val), pokeAll addr.toNat val m) := by
    simp only [chip, if_neg direction, address]
  rw [write, Program.run_bind]
  change ((chip ((addr <<< 1 ||| 0x00) :: val) m).1.1 - 1,
    (chip ((addr <<< 1 ||| 0x00) :: val) m).2) = _
  rw [transfer]
  simp

theorem read_run {addr : UInt8} (len : UInt16) (m : RegFile)
    (fits : (addr <<< 1 ||| 0x01) >>> 1 = addr ∧ (addr <<< 1 ||| 0x01) &&& 1 = 1) :
    (read addr len).run chip m = (RegFile.load addr.toNat len.toNat m, m) := by
  obtain ⟨address, direction⟩ := fits
  have transfer : chip ((addr <<< 1 ||| 0x01) :: List.replicate len.toNat 0) m =
      (((len.toNat + 1 : Int), 0 :: RegFile.load addr.toNat len.toNat m), m) := by
    simp only [chip, if_pos direction, address, List.length_replicate]
  rw [read, Program.run_bind]
  change (if (chip ((addr <<< 1 ||| 0x01) :: List.replicate len.toNat 0) m).1.1 - 1 ≠ len.toNat
    then [] else (chip ((addr <<< 1 ||| 0x01) :: List.replicate len.toNat 0) m).1.2.tail,
    (chip ((addr <<< 1 ||| 0x01) :: List.replicate len.toNat 0) m).2) = _
  rw [transfer]
  simp

/-- A change is carried out on the chip, a repetition is not. -/
theorem setStandBy_run (standby : Bool) (s : Adxl355) (m : RegFile) :
    (setStandBy standby s).run chip m =
      ({ s with standby },
        if s.standby = standby then m else Function.update m 0x2D standby.toUInt8) := by
  by_cases same : s.standby = standby
  · rw [setStandBy, if_neg (not_not_intro same), if_pos same, ← same]
    rfl
  · have got := @read_run powerCtl.visitAddr.toUInt8 1 m (by decide)
    have low : ∀ b : UInt8, (b &&& 0x0) ||| standby.toUInt8 = standby.toUInt8 := by simp
    have put := @write_run powerCtl.visitAddr.toUInt8 [standby.toUInt8] m (by decide)
    have stored : pokeAll powerCtl.visitAddr.toUInt8.toNat [standby.toUInt8] m =
        Function.update m 0x2D standby.toUInt8 :=
      poke_below (show 0x2D < 0x2F by decide) standby.toUInt8 m
    rw [setStandBy, if_pos same, if_neg same, Program.run_bind, got]
    simp only [low]
    rw [Program.run_bind, put, stored]
    rfl

/-- The bytes of a bulk write that reach `Range` and `POWER_CTL`, unless the last one resets
the chip. -/
theorem bulk_write {v : List UInt8} (length : v.length = rwRegNum) (m : RegFile) :
    (v.getD 17 0 = 0x52 → pokeAll 0x1E v m = powerOn) ∧
      (v.getD 17 0 ≠ 0x52 → pokeAll 0x1E v m 0x2C = v.getD 14 0 ∧
        pokeAll 0x1E v m 0x2D = v.getD 15 0) := by
  have whole : v = v.take 17 ++ [v.getD 17 0] := by
    have inside : 17 < v.length := by
      rw [length]
      decide
    rw [List.getD_eq_getElem?_getD, List.getElem?_eq_getElem inside, Option.getD_some,
      List.take_append_getElem]
    exact (List.take_of_length_le (Nat.le_of_eq length)).symm
  have front : (v.take 17).length = 17 := by
    rw [List.length_take, length]
    rfl
  have last : pokeAll 0x1E v m = poke 0x2F (v.getD 17 0) (pokeAll 0x1E (v.take 17) m) := by
    conv => lhs; rw [whole]
    rw [pokeAll_append, front]
    rfl
  constructor
  · intro resets
    rw [last, resets]
    rfl
  · intro keeps
    have stored : pokeAll 0x1E v m =
        Function.update (pokeAll 0x1E (v.take 17) m) 0x2F (v.getD 17 0) := by
      rw [last, poke, if_neg (fun both => keeps both.2)]
    have byte : ∀ k < 17, pokeAll 0x1E (v.take 17) m (0x1E + k) = v.getD k 0 := by
      intro k inside
      rw [pokeAll_add m (by omega) (by omega), List.getD_eq_getElem?_getD,
        List.getElem?_take_of_lt inside, List.getD_eq_getElem?_getD]
    constructor
    · rw [stored, Function.update_of_ne (by decide)]
      exact byte 14 (by decide)
    · rw [stored, Function.update_of_ne (by decide)]
      exact byte 15 (by decide)

/-! ### Operations -/

inductive Op where
  | init (fd : Int)
  | setStandBy (standby : Bool)
  | updateAllReg (v : List UInt8)
  | setOffSet (acc : Acc3)
  | getOffSet
  | getAllReg

/-- The program of an operation, with the fields it leaves. -/
def Op.program (adc : Float32 → Float32 → Int16) (s : Adxl355) : Op → Program Spi Adxl355
  | init fd => s.init fd
  | setStandBy standby => s.setStandBy standby
  | updateAllReg v => s.updateAllReg v
  | setOffSet acc => s.setOffSet adc acc
  | getOffSet => do
    let _ ← s.getOffSet
    return s
  | getAllReg => do
    let _ ← Adxl355.getAllReg
    return s

/-- The driver's fields and the chip's registers. -/
abbrev State := Adxl355 × RegFile

def Op.apply (adc : Float32 → Float32 → Int16) (op : Op) (st : State) : State :=
  (op.program adc st.1).run chip st.2

inductive Step (adc : Float32 → Float32 → Int16) : State → Op → State → Prop where
  | op (st : State) (op : Op) : Step adc st op (op.apply adc st)

/-- The cached fields are what the chip's registers say. -/
structure Synced (st : State) : Prop where
  standby : st.1.standby = (st.2 0x2D &&& 1 == 1)
  range : st.1.range = st.2 0x2C &&& 0b11
  range_ne : st.1.range ≠ 0

/-- The range in a bulk write is the one the chip holds afterwards, and not zero. -/
def RangeOk (v : List UInt8) : Prop :=
  if v.getD 17 0 = 0x52 then v.getD 14 0 &&& 0b11 = 0b01 else v.getD 14 0 &&& 0b11 ≠ 0

/-- The chip is in standby after a bulk write. -/
def StandbyKept (v : List UInt8) : Prop := v.getD 17 0 ≠ 0x52 → v.getD 15 0 &&& 1 = 1

/-- A repeated initialisation finds the default range cached. A bulk write carries a right
range and, if the chip is to stay in standby, does not wake it. -/
def Admissible (st : State) : Op → Prop
  | .init fd => 0 < fd → st.1.range = 0b10
  | .updateAllReg v => v.length = rwRegNum →
    RangeOk v ∧ (st.1.standby = true → StandbyKept v)
  | _ => True

/-! ### One operation -/

section Operations

variable {adc : Float32 → Float32 → Int16} {s : Adxl355} {m : RegFile}

theorem standby_bit (standby : Bool) : standby = (standby.toUInt8 &&& 1 == 1) := by
  cases standby <;> rfl

theorem Synced.setStandBy (synced : Synced (s, m)) (standby : Bool) :
    Synced ((s.setStandBy standby).run chip m) := by
  rw [setStandBy_run]
  split
  · next same =>
      subst same
      exact synced
  · refine ⟨?_, ?_, synced.range_ne⟩
    · simp only [Function.update_self]
      exact standby_bit standby
    · simp only [Function.update_of_ne (show (0x2C : Nat) ≠ 0x2D by decide)]
      exact synced.range

/-- Bytes written below `Range` leave the cached fields right. -/
theorem Synced.write (synced : Synced (s, m)) {a : Nat} {bs : List UInt8}
    (below : a + bs.length ≤ 0x2C) : Synced (s, pokeAll a bs m) := by
  have range := pokeAll_of_ge (i := 0x2C) m below (by omega)
  have power := pokeAll_of_ge (i := 0x2D) m (by omega : a + bs.length ≤ 0x2D) (by omega)
  refine ⟨?_, ?_, synced.range_ne⟩
  · simp only [power]
    exact synced.standby
  · simp only [range]
    exact synced.range

theorem init_run {fd : Int} (open_ : 0 < fd) :
    ∃ m', (s.init fd).run chip m = ({ s with standby := true }, m') ∧
      m' 0x2C = 0x42 ∧ m' 0x2D = 0x01 := by
  rw [init, if_pos open_]
  exact ⟨_, rfl, rfl, rfl⟩

/-- An initialisation synchronises the fields exactly if the default range is cached. -/
theorem synced_init_iff {fd : Int} (open_ : 0 < fd) :
    Synced ((Op.init fd).apply adc (s, m)) ↔ s.range = 0b10 := by
  obtain ⟨m', run, range, power⟩ := init_run (s := s) (m := m) open_
  have applied : (Op.init fd).apply adc (s, m) = ({ s with standby := true }, m') := run
  rw [applied]
  constructor
  · intro synced
    have equal := synced.range
    simp only [range] at equal
    exact equal
  · intro default
    refine ⟨?_, ?_, ?_⟩
    · simp only [power]
      rfl
    · simp only [range]
      exact default
    · simp only [default]
      decide

theorem Synced.setOffSet (synced : Synced (s, m)) (acc : Acc3) :
    Synced ((s.setOffSet adc acc).run chip m) := by
  have held := synced.setStandBy true
  rw [Adxl355.setOffSet, Program.run_bind]
  generalize (s.setStandBy true).run chip m = st at held
  obtain ⟨s, m⟩ := st
  simp only []
  split
  · exact held
  · rw [Program.run_bind, write_run _ _ (by decide)]
    exact Synced.setStandBy (held.write (by simp [offsetBytes, offsetXH, RegisterT.visitAddr])) _

/-- A bulk write of the accepted length, up to the final change of mode. -/
theorem updateAllReg_run {v : List UInt8} (length : v.length = rwRegNum) :
    (s.updateAllReg v).run chip m =
      ({ s with range := cachedRange v },
        if s.standby = true then pokeAll 0x1E v m
        else Function.update (pokeAll 0x1E v (Function.update m 0x2D 1)) 0x2D 0) := by
  rw [updateAllReg, Program.run_bind, setStandBy_run, if_pos length, Program.run_bind,
    write_run _ _ (by decide), setStandBy_run]
  obtain ⟨standby, range⟩ := s
  cases standby <;> rfl

theorem updateAllReg_mismatch {v : List UInt8} (mismatch : v.length ≠ rwRegNum) :
    (s.updateAllReg v).run chip m =
      (((s.setStandBy true).run chip m).1.setStandBy s.standby).run chip
        ((s.setStandBy true).run chip m).2 := by
  rw [updateAllReg, Program.run_bind]
  simp only [if_neg mismatch]

/-- The cached range is that of the bulk write, unless it is zero. -/
theorem cachedRange_eq_iff (v : List UInt8) :
    cachedRange v = v.getD 14 0 &&& 0b11 ↔ v.getD 14 0 &&& 0b11 ≠ 0 := by
  have mask : (1 : UInt8) <<< 2 - 1 = 0b11 := by decide
  rw [cachedRange, rangeIdx, mask]
  split
  · next zero =>
      rw [zero]
      decide
  · next nonzero => exact iff_of_true rfl nonzero

theorem cachedRange_eq_one_iff (v : List UInt8) :
    cachedRange v = 0b01 ↔ v.getD 14 0 &&& 0b11 = 0b01 := by
  have mask : (1 : UInt8) <<< 2 - 1 = 0b11 := by decide
  rw [cachedRange, rangeIdx, mask]
  split
  · next zero =>
      rw [zero]
      decide
  · rfl

theorem cachedRange_ne (v : List UInt8) : cachedRange v ≠ 0 := by
  rw [cachedRange]
  split
  · decide
  · next nonzero => exact nonzero

theorem bulk_range_iff {v : List UInt8} (length : v.length = rwRegNum) (m : RegFile) :
    cachedRange v = pokeAll 0x1E v m 0x2C &&& 0b11 ↔ RangeOk v := by
  obtain ⟨resets, keeps⟩ := bulk_write length m
  rw [RangeOk]
  split
  · next reset =>
      have power : powerOn 0x2C &&& 0b11 = 0b01 := by decide
      rw [resets reset, power]
      exact cachedRange_eq_one_iff v
  · next other =>
      rw [(keeps other).1]
      exact cachedRange_eq_iff v

theorem bulk_standby_iff {v : List UInt8} (length : v.length = rwRegNum) (m : RegFile) :
    (pokeAll 0x1E v m 0x2D &&& 1 == 1) = true ↔ StandbyKept v := by
  obtain ⟨resets, keeps⟩ := bulk_write length m
  by_cases reset : v.getD 17 0 = 0x52
  · rw [resets reset]
    exact iff_of_true (by decide) fun other => absurd reset other
  · rw [(keeps reset).2, beq_iff_eq]
    exact ⟨fun bit _ => bit, fun bit => bit reset⟩

/-- A bulk write leaves the fields right exactly if it is admissible. -/
theorem synced_updateAllReg_iff (synced : Synced (s, m)) (v : List UInt8) :
    Synced ((Op.updateAllReg v).apply adc (s, m)) ↔ Admissible (s, m) (.updateAllReg v) := by
  have applied : (Op.updateAllReg v).apply adc (s, m) = (s.updateAllReg v).run chip m := rfl
  rw [applied]
  by_cases length : v.length = rwRegNum
  · rw [updateAllReg_run length]
    cases standby : s.standby with
    | true =>
        rw [if_pos rfl]
        constructor
        · intro after _
          have up : true = (pokeAll 0x1E v m 0x2D &&& 1 == 1) := after.standby
          exact ⟨(bulk_range_iff length m).mp after.range,
            fun _ => (bulk_standby_iff length m).mp up.symm⟩
        · intro admissible
          obtain ⟨range, kept⟩ := admissible length
          have up := (bulk_standby_iff length m).mpr (kept standby)
          exact ⟨up.symm, (bulk_range_iff length m).mpr range, cachedRange_ne v⟩
    | false =>
        rw [if_neg (by decide)]
        have apart : Function.update (pokeAll 0x1E v (Function.update m 0x2D 1)) 0x2D 0 0x2C =
            pokeAll 0x1E v (Function.update m 0x2D 1) 0x2C := Function.update_of_ne (by decide) ..
        have range := bulk_range_iff length (Function.update m 0x2D 1)
        rw [← apart] at range
        constructor
        · intro after _
          refine ⟨range.mp after.range, fun up => ?_⟩
          rw [standby] at up
          cases up
        · intro admissible
          refine ⟨?_, range.mpr (admissible length).1, cachedRange_ne v⟩
          simp only [Function.update_self]
          exact standby_bit false
  · rw [updateAllReg_mismatch length]
    have held := synced.setStandBy true
    exact iff_of_true (Synced.setStandBy held s.standby) fun len => absurd len length

/-- One operation leaves the fields right exactly if it is admissible. -/
theorem Synced.apply_iff {st : State} (synced : Synced st) (op : Op) :
    Synced (op.apply adc st) ↔ Admissible st op := by
  obtain ⟨s, m⟩ := st
  cases op with
  | init fd =>
      by_cases open_ : 0 < fd
      · rw [synced_init_iff open_]
        exact ⟨fun range _ => range, fun range => range open_⟩
      · have idle : (Op.init fd).apply adc (s, m) = (s, m) := by
          change (s.init fd).run chip m = (s, m)
          rw [init, if_neg open_]
          rfl
        rw [idle]
        exact iff_of_true synced fun opened => absurd opened open_
  | setStandBy standby => exact iff_of_true (synced.setStandBy standby) trivial
  | updateAllReg v => exact synced_updateAllReg_iff synced v
  | setOffSet acc => exact iff_of_true (synced.setOffSet acc) trivial
  | getOffSet =>
      have idle : Op.getOffSet.apply adc (s, m) = (s, m) := rfl
      rw [idle]
      exact iff_of_true synced trivial
  | getAllReg =>
      have idle : Op.getAllReg.apply adc (s, m) = (s, m) := rfl
      rw [idle]
      exact iff_of_true synced trivial

end Operations

/-! ### Runs -/

/-- A fresh driver object after its first initialisation, whatever the chip held. -/
def initialised (adc : Float32 → Float32 → Int16) (fd : Int) (m : RegFile) : State :=
  (Op.init fd).apply adc ({}, m)

/-- Over a run that starts with an initialisation, the cached fields are right after every
operation exactly if every operation is admissible. -/
theorem synced_iff {adc : Float32 → Float32 → Int16} {fd : Int} (open_ : 0 < fd) {m : RegFile}
    {h : List (Op × State)} {st : State} (run : Run (Step adc) (initialised adc fd m) h st) :
    (∀ h', h' <:+ h → Synced (stateAfter (initialised adc fd m) h')) ↔
      ∀ op st' h', (op, st') :: h' <:+ h →
        Admissible (stateAfter (initialised adc fd m) h') op := by
  refine run.always_iff ((synced_init_iff open_).mpr rfl) fun earlier good last => ?_
  rw [earlier.stateAfter_eq] at good
  rw [earlier.stateAfter_eq]
  cases last
  exact good.apply_iff _

/-- Registers 0x1E to 0x2F with another range, and the standby bit clear. -/
def measuring : List UInt8 := [0, 1, 0, 2, 0, 3, 0, 0, 0, 0, 0, 0, 0, 0, 0x83, 0x00, 0, 0]

/-- The chip is woken up, gets all registers anew and is put to sleep. -/
theorem synced_iff_measuring :
    ∃ h st, Run (Step fun _ _ => 0) (initialised (fun _ _ => 0) 3 powerOn) h st ∧
      h.map Prod.fst = [.setStandBy true, .updateAllReg measuring, .setStandBy false] ∧
      st.1.range = 0b11 ∧
      ∀ h', h' <:+ h → Synced (stateAfter (initialised (fun _ _ => 0) 3 powerOn) h') := by
  have run := Run.nil.step (@Step.op (fun _ _ => 0) (initialised (fun _ _ => 0) 3 powerOn)
    (.setStandBy false))
  have run := run.step (.op _ (.updateAllReg measuring))
  have run := run.step (.op _ (.setStandBy true))
  refine ⟨_, _, run, rfl, by decide, (synced_iff (by decide) run).mpr ?_⟩
  have range : RangeOk measuring := by
    unfold RangeOk
    decide
  refine forall_steps_cons.mpr ⟨trivial, forall_steps_cons.mpr ⟨fun _ => ?_, ?_⟩⟩
  · exact ⟨range, fun asleep => absurd asleep (by decide)⟩
  · exact forall_steps_cons.mpr ⟨trivial, forall_steps_nil⟩

/-- A bulk write of zeros: the chip wakes up, and its range is not the cached one. -/
theorem bulk_zeros_not_synced :
    ∃ h st, Run (Step fun _ _ => 0) (initialised (fun _ _ => 0) 3 powerOn) h st ∧
      st.1.standby ≠ (st.2 0x2D &&& 1 == 1) ∧ st.1.range ≠ st.2 0x2C &&& 0b11 :=
  ⟨_, _, .step .nil (.op _ (.updateAllReg (List.replicate 18 0))), by decide, by decide⟩

end Adxl355

end Lra
