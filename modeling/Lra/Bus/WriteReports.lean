import Lra.Bus.I2cObject
import Lra.Bus.RegisterAccess
import Lra.Effect.Fallible
import Mathlib.Data.List.TakeDrop

/-!
# What a write reports

The adapter documents that a write returns the number of bytes it has sent. Over SMBus it
returns what libi2c returns, which is zero for a block that arrived; a plain message whose
length does not fit in sixteen bits is shortened and reported as if it were the whole.
-/

namespace Lra

open Effect

/-! ### The kernel and the wire -/

/-- What the device has received so far, transfer by transfer, and whether each of the
kernel's calls to come fails. -/
structure Wire where
  frames : List (List UInt8)
  fails : List Bool

namespace Wire

def failing (w : Wire) : Bool := w.fails.headD false

/-- The state after a call that sends `frame`, if it succeeds. -/
def send (w : Wire) (frame : List UInt8) : Wire where
  frames := if w.failing = true then w.frames else w.frames ++ [frame]
  fails := w.fails.tail

end Wire

/-- `I2C_RDWR` sends the bytes of the first message, as many as its length says. -/
def rdwrFrame (msgs : List I2cMsg) : List UInt8 :=
  (msgs.head?.map fun m => m.buf.take m.len.toNat).getD []

/-- A block write sends at most 32 bytes and returns zero. -/
def wire : Semantics Sys Wire
  | .ioctlSlave _ _, w, ret, w' =>
    (if w.failing = true then ret < 0 else 0 ≤ ret) ∧ w' = { w with fails := w.fails.tail }
  | .ioctlRdwr _ msgs, w, r, w' =>
    (if w.failing = true then r.1 < 0 else 0 ≤ r.1) ∧ w' = w.send (rdwrFrame msgs)
  | .smbus _ (.writeI2cBlockData command len values), w, r, w' =>
    (if w.failing = true then r.1 < 0 else r.1 = 0) ∧
      w' = w.send (command :: values.take (min len.toNat smbusBlockMax))
  | _, w, _, w' => w' = w

/-- `WriteMulti` and `ReadMulti` on the bus object. -/
def I2c.perform (bus : I2c) : BusCall → Program Sys (BusReply × I2c)
  | .smbusWrite data => bus.smbusRW false data
  | .smbusRead data => bus.smbusRW true data
  | .plain msgs => do
    let reply ← bus.plainRW msgs
    return (reply, bus)

/-- The adapter's calls, carried out by the bus object. -/
def onObject : Semantics busSig (I2c × Wire) :=
  fun call s r s' => ∃ tr, Exec wire (s.1.perform call) s.2 tr (r, s'.1) s'.2

/-! ### The two ways to write a sequence of bytes -/

inductive WriteForm where
  | array
  | vector

/-- `Write(iaddr, val, len)` with the length of the data, and `Write(iaddr, vector)`. -/
def WriteForm.write (a : I2cAdapter) (iaddr : UInt64) (data : List UInt8) :
    WriteForm → Program busSig Int
  | .array => a.writeArray onBus iaddr data (UInt16.ofNat data.length)
  | .vector => a.writeVector onBus iaddr data

namespace I2cAdapter

/-- The number of bytes that the documentation lets a successful write return. -/
def reported (a : I2cAdapter) (data : List UInt8) : Nat :=
  match a.method with
  | .plain => a.devInfo.iaddrBytes.toNat + data.length
  | .smbus => data.length

/-- The device has received the internal address and all data in one transfer. -/
def Arrived (a : I2cAdapter) (iaddr : UInt64) (data : List UInt8) (w w' : Wire) : Prop :=
  w'.frames = w.frames ++ [a.iaddrBuf iaddr ++ data]

/-- The write returns the documented number exactly if all data arrived, and otherwise
nothing positive. -/
def Truthful (a : I2cAdapter) (iaddr : UInt64) (data : List UInt8) (w w' : Wire) (ret : Int) :
    Prop :=
  (a.Arrived iaddr data w w' → ret = a.reported data) ∧
    (¬ a.Arrived iaddr data w w' → ret ≤ 0)

/-- The write passes the adapter's checks and all its calls of the kernel succeed. -/
def Reaches (a : I2cAdapter) (bus : I2c) (w : Wire) : Prop :=
  match a.method with
  | .plain => a.i2cPlainCheckFail = false ∧ w.failing = false
  | .smbus => a.i2cSmbusCheckFail = false ∧
    Spared (if bus.lastSlaveAddr = a.devInfo.addr.toUInt8.toUInt16 then 1 else 2) w.fails

/-- A write that reaches the device is reported right: its message fits in sixteen bits or is
cut to nothing, or its SMBus block is longer than a block can be. -/
def Countable (a : I2cAdapter) (data : List UInt8) : Prop :=
  match a.method with
  | .plain => a.devInfo.iaddrBytes.toNat + data.length ≤ 65536
  | .smbus => smbusBlockMax < data.length

section Write

variable {a : I2cAdapter} {iaddr : UInt64} {data : List UInt8} {bus : I2c} {w : Wire}

theorem toUInt8_ofNat (n : Nat) : (UInt16.ofNat n).toUInt8 = UInt8.ofNat n := by
  rw [← UInt8.toNat_inj]
  simp

/-- Both ways make the same call of the bus. -/
theorem write_eq (form : WriteForm) (length : data.length ≤ 65535) :
    form.write a iaddr data =
      a.checked iaddr (callBusI2cPlainWriteMulti onBus a iaddr data)
        (onBus (.smbusWrite (a.smbusData iaddr (UInt8.ofNat data.length) data))) >>=
          fun reply => pure reply.ret := by
  have whole : data.take (UInt16.ofNat data.length).toNat = data := by
    apply List.take_of_length_le
    rw [UInt16.toNat_ofNat']
    omega
  cases form with
  | array => rw [WriteForm.write, writeArray, whole, toUInt8_ofNat]
  | vector => rw [WriteForm.write, writeVector, whole]

/-- A block write that is accepted answers zero. -/
theorem block_wp {req : SmbusData} (register : req.noInternalReg = false) :
    ((do
      let answer ← sys (.smbus bus.fd (.writeI2cBlockData req.command req.len req.value))
      return (I2c.smbusReply req answer, bus) : Program Sys (BusReply × I2c))).wp wire
      (fun r w' =>
        (w.failing = false → r.1.ret = 0 ∧ w'.frames = w.frames ++
          [req.command :: req.value.take (min req.len.toNat smbusBlockMax)]) ∧
        (w.failing = true → r.1.ret < 0 ∧ w'.frames = w.frames)) w := by
  rintro answer w' ⟨value, rfl⟩
  have reply : (I2c.smbusReply req answer).ret = answer.1.toInt := by
    simp [I2c.smbusReply, register]
  constructor
  · intro succeeds
    rw [if_neg (ne_true_of_eq_false succeeds)] at value
    refine ⟨?_, ?_⟩
    · rw [reply, value]
      rfl
    · simp [Wire.send, succeeds]
  · intro fails
    rw [if_pos fails] at value
    refine ⟨?_, ?_⟩
    · rw [reply]
      exact Int32.lt_iff_toInt_lt.mp value
    · simp [Wire.send, fails]

/-- A block write tells whether the kernel took it. -/
theorem smbusWrite_wp {req : SmbusData} (register : req.noInternalReg = false) :
    (bus.perform (.smbusWrite req)).wp wire (fun r w' =>
      (Spared (if bus.lastSlaveAddr = req.slaveAddr.toUInt16 then 1 else 2) w.fails →
        r.1.ret = 0 ∧ w'.frames = w.frames ++
          [req.command :: req.value.take (min req.len.toNat smbusBlockMax)]) ∧
      (¬ Spared (if bus.lastSlaveAddr = req.slaveAddr.toUInt16 then 1 else 2) w.fails →
        r.1.ret < 0 ∧ w'.frames = w.frames)) w := by
  have block : I2c.smbusXfer false req =
      some (.writeI2cBlockData req.command req.len req.value) := by
    rw [I2c.smbusXfer, register]
    rfl
  rw [I2c.perform, I2c.smbusRW, Program.wp_bind, I2c.selectSlave]
  by_cases selected : bus.lastSlaveAddr = req.slaveAddr.toUInt16
  · rw [if_neg (by simpa using selected), if_pos selected, spared_succ]
    simp only [Program.pure_eq, Program.wp_ret, block]
    refine Program.wp_mono (block_wp register) fun r w' ⟨taken, refused⟩ => ?_
    refine ⟨fun spared => taken spared.1, fun not => refused ?_⟩
    by_contra succeeds
    exact not ⟨eq_false_of_ne_true succeeds, spared_zero _⟩
  · rw [if_pos (by simpa using selected), if_neg selected, spared_succ, spared_succ]
    rintro ret w₁ ⟨value, rfl⟩
    change (if ret < 0 then pure none else _ : Program Sys _).wp _ _ _
    by_cases fails : w.failing = true
    · rw [if_pos fails] at value
      rw [if_pos value]
      refine ⟨fun spared => absurd fails (ne_true_of_eq_false spared.1), fun _ => ⟨?_, rfl⟩⟩
      exact (by decide : (-1 : Int) < 0)
    · rw [if_neg fails] at value
      rw [if_neg (Int32.not_lt.mpr value)]
      simp only [Program.pure_eq, Program.wp_ret, block]
      have sent := @block_wp { bus with lastSlaveAddr := req.slaveAddr.toUInt16 }
        { w with fails := w.fails.tail } req register
      refine Program.wp_mono sent fun r w' ⟨taken, refused⟩ => ?_
      refine ⟨fun spared => taken spared.2.1, fun not => refused ?_⟩
      by_contra succeeds
      exact not ⟨eq_false_of_ne_true fails, eq_false_of_ne_true succeeds, spared_zero _⟩

/-- A plain message tells whether the kernel took it. -/
theorem plain_wp (msg : I2cMsg) :
    (bus.perform (.plain [msg])).wp wire (fun r w' =>
      (w.failing = false → r.1.ret = msg.len.toNat ∧
        w'.frames = w.frames ++ [msg.buf.take msg.len.toNat]) ∧
      (w.failing = true → r.1.ret < 0 ∧ w'.frames = w.frames)) w := by
  rw [I2c.perform, I2c.plainRW, Program.wp_bind]
  rintro answer w' ⟨value, rfl⟩
  change (if answer.1 < 0 then pure ⟨-1, []⟩ else pure _ : Program Sys BusReply).wp _ _ _
  by_cases fails : w.failing = true
  · rw [if_pos fails] at value
    rw [if_pos value]
    refine ⟨fun succeeds => absurd fails (ne_true_of_eq_false succeeds), fun _ => ⟨?_, ?_⟩⟩
    · exact (by decide : (-1 : Int) < 0)
    · simp [Wire.send, fails]
  · rw [if_neg fails] at value
    rw [if_neg (Int32.not_lt.mpr value)]
    refine ⟨fun _ => ⟨rfl, ?_⟩, fun failed => absurd failed fails⟩
    simp [Wire.send, fails, rdwrFrame]

theorem iaddrBuf_eq (one : a.devInfo.iaddrBytes = 1) : a.iaddrBuf iaddr = [iaddr.toUInt8] := by
  rw [iaddrBuf, one]
  simp [i2cInternalAddrConvert, addrConvertLoop, networkBytes]

/-- Over SMBus an internal address has one byte. -/
theorem iaddrBytes_eq_one (some : 0 < a.devInfo.iaddrBytes)
    (accepts : a.i2cSmbusCheckFail = false) : a.devInfo.iaddrBytes = 1 := by
  have few : ¬ 1 < a.devInfo.iaddrBytes := by
    intro many
    simp [i2cSmbusCheckFail, many] at accepts
  have some : 0 < a.devInfo.iaddrBytes.toNat := some
  have few : ¬ 1 < a.devInfo.iaddrBytes.toNat := few
  rw [← UInt8.toNat_inj]
  exact Nat.le_antisymm (Nat.not_lt.mp few) some

/-- The bytes that a write sends, if it reaches the device. -/
def shipped (a : I2cAdapter) (iaddr : UInt64) (data : List UInt8) : List UInt8 :=
  match a.method with
  | .plain => (a.iaddrBuf iaddr ++ data).take ((a.devInfo.iaddrBytes.toNat + data.length) % 65536)
  | .smbus => a.iaddrBuf iaddr ++ data.take (min (data.length % 256) smbusBlockMax)

/-- What it returns. -/
def returned (a : I2cAdapter) (data : List UInt8) : Int :=
  match a.method with
  | .plain => ((a.devInfo.iaddrBytes.toNat + data.length) % 65536 : Nat)
  | .smbus => 0

/-- A write either ships its bytes or answers with nothing positive and ships none. -/
theorem write_wp (form : WriteForm) (some : 0 < a.devInfo.iaddrBytes)
    (accepted : i2cInternalAddrCheck a.devInfo.iaddrBytes iaddr = true)
    (length : data.length ≤ 65535) :
    (form.write a iaddr data).wp onObject (fun ret s' =>
      (a.Reaches bus w → ret = a.returned data ∧
        s'.2.frames = w.frames ++ [a.shipped iaddr data]) ∧
      (¬ a.Reaches bus w → ret ≤ 0 ∧ s'.2.frames = w.frames)) (bus, w) := by
  rw [write_eq form length, Program.wp_bind, checked, accepted]
  simp only [Bool.not_true, Bool.false_eq_true, if_false]
  cases method : a.method with
  | plain =>
      have reaches : a.Reaches bus w ↔ a.i2cPlainCheckFail = false ∧ w.failing = false := by
        rw [Reaches, method]
      rw [reaches]
      cases refused : a.i2cPlainCheckFail with
      | true => exact ⟨fun both => Bool.noConfusion both.1, fun _ => ⟨Int.le_refl 0, rfl⟩⟩
      | false =>
          rintro r ⟨bus', w'⟩ ⟨tr, run⟩
          obtain ⟨taken, failed⟩ := (plain_wp _).of_exec run
          have size : (a.iaddrBuf iaddr ++ data).length =
              a.devInfo.iaddrBytes.toNat + data.length := by
            rw [List.length_append, iaddrBuf_length]
          rw [returned, shipped, method]
          simp only [size, UInt16.toNat_ofNat'] at taken
          refine ⟨fun both => taken both.2, fun not => ?_⟩
          have fails : w.failing = true := by
            by_contra succeeds
            exact not ⟨rfl, eq_false_of_ne_true succeeds⟩
          exact ⟨Int.le_of_lt (failed fails).1, (failed fails).2⟩
  | smbus =>
      have reaches : a.Reaches bus w ↔ a.i2cSmbusCheckFail = false ∧
          Spared (if bus.lastSlaveAddr = a.devInfo.addr.toUInt8.toUInt16 then 1 else 2)
            w.fails := by
        rw [Reaches, method]
      rw [reaches]
      cases refused : a.i2cSmbusCheckFail with
      | true => exact ⟨fun both => Bool.noConfusion both.1, fun _ => ⟨Int.le_refl 0, rfl⟩⟩
      | false =>
          have one := iaddrBytes_eq_one some refused
          have register : (a.smbusData iaddr (UInt8.ofNat data.length) data).noInternalReg =
              false := by
            rw [smbusData, one]
            rfl
          rintro r ⟨bus', w'⟩ ⟨tr, run⟩
          obtain ⟨taken, failed⟩ := (smbusWrite_wp register).of_exec run
          have count : (UInt8.ofNat data.length).toNat = data.length % 256 := UInt8.toNat_ofNat'
          rw [returned, shipped, method, iaddrBuf_eq one]
          simp only [smbusData, count] at taken failed
          refine ⟨fun both => taken both.2, fun not => ?_⟩
          have refuses := failed fun spared => not ⟨rfl, spared⟩
          exact ⟨Int.le_of_lt refuses.1, refuses.2⟩

/-- Where a write reaches the device, it is truthful exactly if it is countable. -/
theorem truthful_of_reaches {w' : Wire} (nonempty : 1 ≤ data.length)
    (length : data.length ≤ 65535)
    (sent : w'.frames = w.frames ++ [a.shipped iaddr data]) :
    a.Truthful iaddr data w w' (a.returned data) ↔ a.Countable data := by
  have arrived : a.Arrived iaddr data w w' ↔ a.shipped iaddr data = a.iaddrBuf iaddr ++ data := by
    rw [Arrived, sent, List.append_cancel_left_eq, List.singleton_inj]
  rw [Truthful, arrived]
  cases method : a.method with
  | plain =>
      have few : a.devInfo.iaddrBytes.toNat ≤ 4 := a.devInfo.iaddrBytes_le
      have size : (a.iaddrBuf iaddr ++ data).length = a.devInfo.iaddrBytes.toNat + data.length := by
        rw [List.length_append, iaddrBuf_length]
      have whole : a.shipped iaddr data = a.iaddrBuf iaddr ++ data ↔
          a.devInfo.iaddrBytes.toNat + data.length ≤
            (a.devInfo.iaddrBytes.toNat + data.length) % 65536 := by
        rw [shipped, method]
        simp only [List.take_eq_self_iff, size]
      rw [whole, returned, reported, Countable, method]
      simp only []
      omega
  | smbus =>
      have whole : a.shipped iaddr data = a.iaddrBuf iaddr ++ data ↔
          data.length ≤ min (data.length % 256) smbusBlockMax := by
        rw [shipped, method]
        simp only [List.append_cancel_left_eq, List.take_eq_self_iff]
      rw [whole, returned, reported, Countable, method, smbusBlockMax]
      simp only []
      omega

/-- A write of an internal address and data is reported as documented exactly if it does not
reach the device or is countable. -/
theorem write_truthful_iff {form : WriteForm} {s' : I2c × Wire} {ret : Int}
    {tr : List (BusCall × (I2c × Wire))} (some : 0 < a.devInfo.iaddrBytes)
    (accepted : i2cInternalAddrCheck a.devInfo.iaddrBytes iaddr = true)
    (nonempty : 1 ≤ data.length) (length : data.length ≤ 65535)
    (run : Exec onObject (form.write a iaddr data) (bus, w) tr ret s') :
    a.Truthful iaddr data w s'.2 ret ↔ (a.Reaches bus w → a.Countable data) := by
  obtain ⟨reached, refused⟩ := (write_wp form some accepted length).of_exec run
  by_cases reaches : a.Reaches bus w
  · obtain ⟨rfl, sent⟩ := reached reaches
    rw [truthful_of_reaches nonempty length sent]
    exact ⟨fun countable _ => countable, fun countable => countable reaches⟩
  · obtain ⟨small, none⟩ := refused reaches
    refine iff_of_true ⟨fun arrived => ?_, fun _ => small⟩ fun reached => absurd reached reaches
    have nothing := List.self_eq_append_right.mp (none.symm.trans arrived)
    exact absurd nothing (List.cons_ne_nil _ _)

end Write

/-- A kernel that answers zero where it succeeds, and -1 where it fails. -/
def wireBench : Handler Sys Wire
  | .ioctlSlave _ _, w => (if w.failing = true then -1 else 0, { w with fails := w.fails.tail })
  | .ioctlRdwr _ msgs, w => ((if w.failing = true then -1 else 0, []), w.send (rdwrFrame msgs))
  | .smbus _ (.writeI2cBlockData command len values), w =>
    ((if w.failing = true then -1 else 0, []),
      w.send (command :: values.take (min len.toNat smbusBlockMax)))
  | .openBus _, w => (0, w)
  | .fdValid _, w => (true, w)
  | .close _, w => ((), w)
  | .ioctlFuncs _, w => (none, w)
  | .smbus _ _, w => ((0, []), w)
  | .isPiDistribution, w => (false, w)
  | .updateI2cSpeedOnPi _, w => (none, w)

theorem wireBench_within : wireBench.Within wire := by
  intro o w
  have refuses : (-1 : Int32) < 0 := by decide
  cases o with
  | ioctlSlave fd addr =>
      refine ⟨?_, rfl⟩
      simp only [wireBench]
      split
      · exact refuses
      · exact Int32.le_refl 0
  | ioctlRdwr fd msgs =>
      refine ⟨?_, rfl⟩
      simp only [wireBench]
      split
      · exact refuses
      · exact Int32.le_refl 0
  | smbus fd xfer =>
      cases xfer with
      | writeI2cBlockData command len values =>
          refine ⟨?_, rfl⟩
          simp only [wireBench]
          split
          · exact refuses
          · rfl
      | _ => rfl
  | _ => rfl

/-- A write on a new bus object, with the given outcomes of the kernel's calls. -/
theorem exists_write (a : I2cAdapter) (iaddr : UInt64) (data : List UInt8) (form : WriteForm)
    (fails : List Bool) : ∃ tr ret s',
      Exec onObject (form.write a iaddr data) (({} : I2c), ⟨[], fails⟩) tr ret s' := by
  have total : ∀ (call : BusCall) (s : I2c × Wire), ∃ r s', onObject call s r s' := by
    intro call s
    obtain ⟨tr, run⟩ := wireBench_within.exec (s.1.perform call) s.2
    exact ⟨_, (_, _), tr, run⟩
  generalize form.write a iaddr data = p
  generalize ((({} : I2c), (⟨[], fails⟩ : Wire))) = s
  induction p generalizing s with
  | ret ret => exact ⟨_, _, _, .ret _ _⟩
  | op call next ih =>
      obtain ⟨r, t, answer⟩ := total call s
      obtain ⟨tr, ret, s', rest⟩ := ih r t
      exact ⟨_, _, _, .op answer rest⟩

theorem write_truthful_iff_plain :
    ∃ tr ret s', Exec onObject (WriteForm.vector.write memory24c64 0x1234 [1, 2])
        (({} : I2c), ⟨[], [false]⟩) tr ret s' ∧
      (memory24c64.Truthful 0x1234 [1, 2] ⟨[], [false]⟩ s'.2 ret ↔
        (memory24c64.Reaches {} ⟨[], [false]⟩ → memory24c64.Countable [1, 2])) := by
  obtain ⟨tr, ret, s', run⟩ := exists_write memory24c64 0x1234 [1, 2] .vector [false]
  exact ⟨tr, ret, s', run,
    write_truthful_iff (by decide) (by decide) (by decide) (by decide) run⟩

/-- A slave with one address byte on an SMBus. -/
def smbusSlave : I2cAdapter where
  devInfo := { addr := 0x5a, iaddrBytes_le := I2cDeviceInfo.oneByte_le }

/-- One byte arrives, and the answer is zero. -/
theorem not_truthful_smbus :
    ∃ tr ret s', Exec onObject (WriteForm.array.write smbusSlave 0x01 [0x40])
        (({} : I2c), ⟨[], []⟩) tr ret s' ∧
      i2cInternalAddrCheck smbusSlave.devInfo.iaddrBytes 0x01 = true ∧
      s'.2.frames = [[0x01, 0x40]] ∧ ret = 0 ∧
      ¬ smbusSlave.Truthful 0x01 [0x40] ⟨[], []⟩ s'.2 ret := by
  obtain ⟨tr, ret, s', run⟩ := exists_write smbusSlave 0x01 [0x40] .array []
  have reaches : smbusSlave.Reaches {} ⟨[], []⟩ := ⟨rfl, fun _ none => nomatch none⟩
  obtain ⟨rfl, sent⟩ := ((write_wp .array (by decide) (by decide) (by decide)).of_exec run).1
    reaches
  refine ⟨tr, _, s', run, by decide, sent, rfl, fun truthful => ?_⟩
  have countable := (truthful_of_reaches (by decide) (by decide) sent).mp truthful
  exact absurd countable (by decide : ¬ 32 < 1)

end I2cAdapter

end Lra
