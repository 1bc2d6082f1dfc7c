import Lra.Device.Tca9548a

/-!
# The DRV2605L haptic driver

Each function is the program the source runs for the drive on one axis. The
cached state `run_` lives in shared memory; log lines and sleeps are left out.
-/

namespace Lra

open Effect

/-- The address of a register as the adapter sends it. -/
def Register.index (reg : Register) : Nat := reg.addr.toUInt8.toNat

/-- The software standby bit of the mode register. -/
def standbyBit (mode : UInt8) : Bool := mode &&& 0x40 != 0

namespace Drv2605l

/-! ### Registers -/

def status : Register := register8 0x0 0xE0
def mode : Register := register8 0x1 0x40
def rtpInput : Register := register8 0x02 0x00
def librarySelection : Register := register8 0x03 0x01
def go : Register := register8 0x0C 0x00
def ratedVoltage : Register := register8 0x16 0x3E
def odClamp : Register := register8 0x17 0x8C
def aCalComp : Register := register8 0x18 0x0C
def aCalBemf : Register := register8 0x19 0x6C
def feedbackControl : Register := register8 0x1A 0x36
def control1 : Register := register8 0x1B 0x93
def control2 : Register := register8 0x1C 0xF5
def control3 : Register := register8 0x1D 0xA0
def control4 : Register := register8 0x1E 0x20
def control5 : Register := register8 0x1F 0x80
def vbat : Register := register8 0x21 0x00
def lraPeriod : Register := register8 0x22 0x00

/-- The registers of the chip that ignore writes. -/
def readOnly (addr : Nat) : Bool := addr == 0x00 || addr == 0x21 || addr == 0x22

/-! ### Transfers -/

/-- The settings `Controller::Init` gives the adapter of each drive. With this method no plain
message is sent, so it is no matter what becomes of an array. -/
def adapter : I2cAdapter where
  method := .smbus
  devInfo := {
    addr := 0x5a, flags := 0, iaddrBytes := 1, pageBytes := 32, tenbit := false
    iaddrBytes_le := I2cDeviceInfo.oneByte_le }

/-- `Write(reg, val)`. -/
def write (ax : Axis) (reg : Register) (val : Int) : Program Io Int :=
  if val < 0 then pure Errors.kWrite.toInt
  else adapter.writeReg (transfer (.drv ax)) reg val

/-- `Write(addr, val, len)`; the adapter takes a sixteen-bit length. -/
def writeArray (ax : Axis) (addr : UInt8) (val : List UInt8) (len : UInt32) : Program Io Int :=
  adapter.writeArray (transfer (.drv ax)) addr.toUInt64 val len.toUInt16

/-- `Read(reg)`: the value, or the error code if the transfer was not complete. -/
def read (ax : Axis) (reg : Register) : Program Io Int32 := do
  let (size, val) ← adapter.readReg (transfer (.drv ax)) .untouched reg 0
  return if size == reg.bytelen then Int32.ofNat val else Errors.kRead

/-- `Read(addr, len)`: a zeroed vector filled as far as the transfer delivers. -/
def readVec (ax : Axis) (addr : UInt8) (len : UInt16) : Program Io (List UInt8) := do
  let (_, vec) ← adapter.readArray (transfer (.drv ax)) .untouched addr.toUInt64 len
  return vec

/-- Registers of one byte whose address passes the adapter's check. -/
def Direct (reg : Register) : Bool :=
  reg.bytelen == 1 && I2cAdapter.i2cInternalAddrCheck 1 reg.addr

/-- The calls that write and read one such register. -/
def writeCall (reg : Register) (val : UInt8) : BusCall :=
  .smbusWrite { command := reg.addr.toUInt8, len := 1, slaveAddr := 0x5a, value := [val] }

def readCall (reg : Register) : BusCall :=
  .smbusRead { command := reg.addr.toUInt8, len := 1, slaveAddr := 0x5a, value := [0] }

/-- What `Read(reg)` makes of the bus reply. -/
def readValue (reply : BusReply) : Int32 :=
  if reply.ret == 1 then
    Int32.ofNat (array2IntegralBE 1 0 (reply.value ++ List.replicate (1 - reply.value.length) 0))
  else Errors.kRead

section Calls

variable {ax : Axis} {reg : Register} {val : Int}

theorem write_eq (direct : Direct reg = true) (nonneg : 0 ≤ val) :
    write ax reg val =
      transfer (.drv ax) (writeCall reg (UInt8.ofInt val)) >>= fun reply => pure reply.ret := by
  obtain ⟨one, check⟩ : reg.bytelen = 1 ∧ I2cAdapter.i2cInternalAddrCheck 1 reg.addr = true := by
    simpa [Direct] using direct
  rw [write, if_neg (Int.not_lt.mpr nonneg)]
  simp [I2cAdapter.writeReg, I2cAdapter.checked, one, check, integral2ArrayBE_one, adapter,
    transfer, writeCall, I2cAdapter.smbusData, I2cAdapter.i2cSmbusCheckFail]

theorem read_eq (direct : Direct reg = true) :
    read ax reg = transfer (.drv ax) (readCall reg) >>= fun reply => pure (readValue reply) := by
  obtain ⟨one, check⟩ : reg.bytelen = 1 ∧ I2cAdapter.i2cInternalAddrCheck 1 reg.addr = true := by
    simpa [Direct] using direct
  simp [read, I2cAdapter.readReg, I2cAdapter.checked, one, check, adapter, transfer, readCall,
    I2cAdapter.smbusData, I2cAdapter.i2cSmbusCheckFail]
  funext reply
  by_cases size : reply.ret = 1
  · simp [size, readValue]
  · simp [size, readValue]

end Calls

/-! ### Functions -/

/-- `val << pos` on `int`. -/
def shl (val pos : Int32) : Int32 := val <<< pos

def getAllReg (ax : Axis) : Program Io (List UInt8) :=
  readVec ax 0x00 (lraPeriod.addr.toUInt16 + 1)

/-- The number of bytes `UpdateAllReg` insists on. -/
def wRegLen : Nat := lraPeriod.addr.toNat

def updateAllReg (ax : Axis) (v : List UInt8) : Program Io Unit :=
  if v.length = wRegLen then do
    let _ ← writeArray ax mode.addr.toUInt8 v (UInt32.ofNat wRegLen)
  else
    pure ()

/-- The one transfer of a bulk write of the accepted length. -/
def updateAllCall (v : List UInt8) : BusCall :=
  .smbusWrite { command := 1, len := 34, slaveAddr := 0x5a, value := v }

theorem updateAllReg_eq {ax : Axis} {v : List UInt8} (len : v.length = wRegLen) :
    updateAllReg ax v = transfer (.drv ax) (updateAllCall v) >>= fun _ => pure () := by
  rw [updateAllReg, if_pos len]
  rfl

theorem updateAllReg_mismatch {ax : Axis} {v : List UInt8} (len : v.length ≠ wRegLen) :
    updateAllReg ax v = pure () := by
  rw [updateAllReg, if_neg len]

/-- The one transfer of a bulk read. -/
def getAllCall : BusCall :=
  .smbusRead { command := 0, len := 35, slaveAddr := 0x5a, value := List.replicate 35 0 }

theorem getAllReg_eq (ax : Axis) :
    getAllReg ax = transfer (.drv ax) getAllCall >>= fun reply =>
      pure (reply.value ++ List.replicate (35 - reply.value.length) 0) := rfl

def setToLraDefault (ax : Axis) : Program Io Unit := do
  let _ ← write ax mode (shl 0x01 7).toInt
  let _ ← write ax mode (shl 0x01 6 ||| 0x05).toInt
  let _ ← write ax rtpInput 0x00
  let _ ← write ax librarySelection 0x06
  let _ ← write ax ratedVoltage 0x3E
  let _ ← write ax feedbackControl (shl 0x01 7 ||| shl 0x03 4 ||| shl 0x01 2 ||| 0x02).toInt
  let _ ← write ax odClamp 0xFF
  let _ ← write ax control1 (shl 0x01 7 ||| shl 0x00 5 ||| 0x13).toInt
  let _ ← write ax control2
    (shl 0x00 7 ||| shl 0x01 6 ||| shl 0x01 4 ||| shl 0x02 2 ||| 0x02).toInt
  let _ ← write ax control3
    (shl 0x01 6 ||| shl 0x01 5 ||| shl 0x00 4 ||| shl 0x01 3 ||| shl 0x01 2).toInt
  let _ ← write ax control4 (shl 0x03 4).toInt
  let _ ← write ax control5 (shl 0x02 6 ||| shl 0x00 5 ||| shl 0x01 4).toInt

def getRun (ax : Axis) : Program Io Bool := host (.load (.run ax))

/-- The mode byte that sets or clears the software standby bit of `val`. -/
def readyByte (val : Int32) (ready : Bool) : Int32 :=
  if ready then (val &&& 0b10111111) ||| shl 0x00 6
  else (val &&& 0b10111111) ||| shl 0x01 6

/-- Leave or enter software standby, unless the mode cannot be read. -/
def ready (ax : Axis) (ready : Bool) : Program Io Unit := do
  let val ← read ax mode
  if val < 0 then
    pure ()
  else
    let _ ← write ax mode (readyByte val ready).toInt

/-- Fire or stop, if the cached state says this is a change. -/
def run (ax : Axis) (run : Bool) : Program Io Unit := do
  let cached ← getRun ax
  if cached != run then
    ready ax run
    let _ ← write ax go run.toInt
    host (.store (.run ax) run)

def updateRTP (ax : Axis) (cmd : UInt8) : Program Io Unit := do
  let _ ← write ax rtpInput cmd.toNat

/-- `GetHz`, before the conversion of the period to a frequency. -/
def getHz (ax : Axis) : Program Io Int32 := read ax lraPeriod

/-- The part number encoded in the status register. -/
def deviceId (id : UInt8) : String :=
  if id == 4 then "DRV2604"
  else if id == 3 then "DRV2605"
  else if id == 6 then "DRV2604L"
  else if id == 7 then "DRV2605L"
  else "unknown"

/-- The fields of the report that come from the status register. -/
def statusInfo (val : Int32) (info : Drv2605lInfo) : Drv2605lInfo :=
  if val >= 0 then
    { info with
      deviceId := deviceId (UInt8.ofInt (val >>> 5).toInt)
      overCurrentDetect := val &&& shl 0x1 1 != 0
      overTempDetect := val &&& 0x01 != 0
      diagResult := val &&& shl 0x01 3 != 0 }
  else info

/-- A byte read from the chip, if the read delivered one. -/
def byte? (val : Int32) : Option UInt8 :=
  if val >= 0 then some (UInt8.ofInt val.toInt) else none

/-- The back-EMF result needs a second register, read only if the first could be read. -/
def backEmf (ax : Axis) : Program Io (Option (UInt8 × UInt8)) := do
  match byte? (← read ax aCalBemf) with
  | none => pure none
  | some bemf =>
    let fcVal ← read ax feedbackControl
    pure ((byte? fcVal).map fun fc => (bemf, fc))

def getCalibrationInfo (ax : Axis) : Program Io Drv2605lInfo := do
  let info := statusInfo (← read ax status) {}
  let compensation := byte? (← read ax aCalComp)
  let bemf ← backEmf ax
  let period ← getHz ax
  let vbat := byte? (← read ax vbat)
  return { info with
    compensationCoeff := compensation, backEmfResult := bemf, lraPeriod := period, vbat := vbat }

def runAutoCalibration (ax : Axis) : Program Io Drv2605lInfo := do
  let cur := (← read ax mode) &&& 0x07
  let _ ← write ax mode (shl 0x01 6 ||| 0x07).toInt
  run ax true
  run ax false
  let _ ← write ax mode (shl 0x01 6 ||| cur).toInt
  getCalibrationInfo ax

/-- The mode byte `Ready` writes is a byte, carries the standby bit asked for and leaves the
mode alone. -/
theorem readyByte_spec (v : UInt8) (b : Bool) :
    ¬ Int32.ofNat v.toNat < 0 ∧ 0 ≤ (readyByte (Int32.ofNat v.toNat) b).toInt ∧
    standbyBit (UInt8.ofInt (readyByte (Int32.ofNat v.toNat) b).toInt) = !b ∧
    UInt8.ofInt (readyByte (Int32.ofNat v.toNat) b).toInt &&& 0x07 = v &&& 0x07 := by
  have all : ∀ n < 256, ∀ b, ¬ Int32.ofNat n < 0 ∧ 0 ≤ (readyByte (Int32.ofNat n) b).toInt ∧
      standbyBit (UInt8.ofInt (readyByte (Int32.ofNat n) b).toInt) = !b ∧
      UInt8.ofInt (readyByte (Int32.ofNat n) b).toInt &&& 0x07 = UInt8.ofNat n &&& 0x07 := by
    decide +kernel
  have spec := all v.toNat v.toNat_lt b
  rwa [UInt8.ofNat_toNat] at spec

/-- The mode byte that ends a calibration is a byte with the standby bit and the mode read. -/
theorem resumeByte_spec (v : UInt8) :
    0 ≤ (shl 0x01 6 ||| (Int32.ofNat v.toNat &&& 0x07)).toInt ∧
    standbyBit (UInt8.ofInt (shl 0x01 6 ||| (Int32.ofNat v.toNat &&& 0x07)).toInt) = true ∧
    UInt8.ofInt (shl 0x01 6 ||| (Int32.ofNat v.toNat &&& 0x07)).toInt &&& 0x07 = v &&& 0x07 := by
  have all : ∀ n < 256, 0 ≤ (shl 0x01 6 ||| (Int32.ofNat n &&& 0x07)).toInt ∧
      standbyBit (UInt8.ofInt (shl 0x01 6 ||| (Int32.ofNat n &&& 0x07)).toInt) = true ∧
      UInt8.ofInt (shl 0x01 6 ||| (Int32.ofNat n &&& 0x07)).toInt &&& 0x07 =
        UInt8.ofNat n &&& 0x07 := by
    decide +kernel
  have spec := all v.toNat v.toNat_lt
  rwa [UInt8.ofNat_toNat] at spec

def getRt (ax : Axis) : Program Io Drv2605lRtInfo := do
  let rtp ← read ax rtpInput
  let period ← getHz ax
  return { rtp := UInt8.ofInt rtp.toInt, lraPeriod := period }

end Drv2605l

end Lra
