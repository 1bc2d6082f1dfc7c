import Lra.Effect.Execution
import Lra.Host.Interface
import Lra.Memory.Registers

/-!
# The ADXL355 accelerometer

The driver keeps two fields next to the chip's registers: `standby_` and `range_`. Its
functions take and return them and act on the chip through SPI transfers. The conversion
of an acceleration to the units of the offset registers is left open.
-/

namespace Lra

open Effect

/-- An SPI transfer exchanges a buffer and returns its length. -/
@[reducible] def Spi : Signature where
  Op := List UInt8
  Res _ := Int × List UInt8

/-- `wiringPiSPIDataRW`. -/
def spiDataRW (data : List UInt8) : Program Spi (Int × List UInt8) :=
  .op data .ret

structure Adxl355 where
  standby : Bool := false
  range : UInt8 := 0b10
  deriving DecidableEq

namespace Adxl355

/-! ### Registers -/

def xdata3 : RegisterT := .register8 0x08 0x00
def devidAd : RegisterT := .register8 0x00 0xAD
def offsetXH : RegisterT := .register8 0x1E 0x00
def filter : RegisterT := .register8 0x28 0x00
def intMap : RegisterT := .register8 0x2A 0x00
def rangeReg : RegisterT := .register8 0x2C 0x81
def powerCtl : RegisterT := .register8 0x2D 0x01
def reset : RegisterT := .register8 0x2F 0x00

/-- The register pool. -/
def regs : List RegisterT :=
  [devidAd, .register8 0x01 0x1D, .register8 0x02 0xED, .register8 0x03 0x01,
    .register8 0x04 0x00, .register8 0x05 0x00, .register8 0x06 0x00, .register8 0x07 0x00,
    xdata3, .register8 0x09 0x00, .register8 0x0A 0x00, .register8 0x0B 0x00,
    .register8 0x0C 0x00, .register8 0x0D 0x00, .register8 0x0E 0x00, .register8 0x0F 0x00,
    .register8 0x10 0x00, .register8 0x11 0x00, offsetXH, .register8 0x1F 0x00,
    .register8 0x20 0x00, .register8 0x21 0x00, .register8 0x22 0x00, .register8 0x23 0x00,
    .register8 0x24 0x00, .register8 0x25 0x00, .register8 0x26 0x00, .register8 0x27 0x01,
    filter, .register8 0x29 0x60, intMap, .register8 0x2B 0x00, rangeReg, powerCtl,
    .register8 0x2E 0x00, reset]

/-! ### Transfers -/

/-- `Write`: what it returns is the length it was asked to write, if all went well. -/
def write (addr : UInt8) (val : List UInt8) : Program Spi Int := do
  let (num, _) ← spiDataRW ((addr <<< 1 ||| 0x00) :: val)
  return num - 1

/-- `Read`: nothing, if the length of the answer is not the one asked for. -/
def read (addr : UInt8) (len : UInt16) : Program Spi (List UInt8) := do
  let (num, v) ← spiDataRW ((addr <<< 1 ||| 0x01) :: List.replicate len.toNat 0)
  return if num - 1 ≠ len.toNat then [] else v.tail

/-! ### Functions -/

def setToDefault : Program Spi Unit := do
  let _ ← write reset.visitAddr.toUInt8 [0x52]
  let _ ← write rangeReg.visitAddr.toUInt8 [(0x01 : UInt8) <<< 6 ||| 0b10]
  let _ ← write intMap.visitAddr.toUInt8 [(0x01 : UInt8) <<< 4]
  let _ ← write filter.visitAddr.toUInt8 [(0b100 : UInt8) <<< 4 ||| 0x00]

/-- `Init`, with the file descriptor `wiringPiSPIGetFd` returns. -/
def init (fd : Int) (s : Adxl355) : Program Spi Adxl355 := do
  if fd > 0 then
    setToDefault
    return { s with standby := true }
  else
    return s

def setStandBy (standby : Bool) (s : Adxl355) : Program Spi Adxl355 := do
  if s.standby ≠ standby then
    let val ← read powerCtl.visitAddr.toUInt8 1
    let v := (val.headD 0 &&& 0x0) ||| standby.toUInt8
    let rtn ← write powerCtl.visitAddr.toUInt8 [v]
    return if rtn = 1 then { s with standby } else s
  else
    return s

/-- The read-only registers up to the FIFO, and the writable ones with the reset register. -/
def getAllReg : Program Spi (List UInt8 × List UInt8) := do
  let v1 ← read devidAd.visitAddr.toUInt8 (0x10 + 1)
  let v2 ← read offsetXH.visitAddr.toUInt8 18
  return (v1, v2)

def rangeIdx : Nat := 14

def rwRegNum : Nat := 18

/-- The range taken from a bulk write; it is never zero. -/
def cachedRange (v : List UInt8) : UInt8 :=
  let tmpRange := v.getD rangeIdx 0 &&& ((1 : UInt8) <<< 2 - 1)
  if tmpRange = 0x00 then 0b10 else tmpRange

def updateAllReg (v : List UInt8) (s : Adxl355) : Program Spi Adxl355 := do
  let tmp := s.standby
  let s ← setStandBy true s
  if v.length = rwRegNum then
    let s := { s with range := cachedRange v }
    let _ ← write offsetXH.visitAddr.toUInt8 v
    setStandBy tmp s
  else
    setStandBy tmp s

/-- `dRange_2g`, `dRange_4g` and `dRange_8g` by the cached range. -/
def getCacheRange (s : Adxl355) : Float32 :=
  if s.range = 0b01 then (2.048 * 2 : Float).toFloat32
  else if s.range = 0b10 then (4.096 * 2 : Float).toFloat32
  else if s.range = 0b11 then (8.192 * 2 : Float).toFloat32
  else (4.096 * 2 : Float).toFloat32

/-- `static_cast<uint8_t>(n >> 8), static_cast<uint8_t>(n)`. -/
def offsetBytes (n : Int16) : List UInt8 := [(n >>> 8).toUInt16.toUInt8, n.toUInt16.toUInt8]

/-- `SetOffSet`; `adc` is the conversion of one component at a given range. -/
def setOffSet (adc : Float32 → Float32 → Int16) (acc : Acc3) (s : Adxl355) :
    Program Spi Adxl355 := do
  let tmp := s.standby
  let s ← setStandBy true s
  let dAccRange := s.getCacheRange
  let intX := adc acc.x dAccRange
  let intY := adc acc.y dAccRange
  let intZ := adc acc.z dAccRange
  if intX.toInt.natAbs > 65536 >>> 1 ∨ intY.toInt.natAbs > 65536 >>> 1 ∨
      intZ.toInt.natAbs > 65536 >>> 1 then
    return s
  else
    let _ ← write offsetXH.visitAddr.toUInt8
      (offsetBytes intX ++ offsetBytes intY ++ offsetBytes intZ)
    setStandBy tmp s

/-- `v[i] << 8 | v[i + 1]`. -/
def offsetOf (v : List UInt8) (i : Nat) : Int16 :=
  ((v.getD i 0).toUInt16 <<< 8 ||| (v.getD (i + 1) 0).toUInt16).toInt16

/-- `GetOffSet`: the offsets in their registers' units, with the range that scales them. -/
def getOffSet (s : Adxl355) : Program Spi (Int16 × Int16 × Int16 × Float32) := do
  let v ← read offsetXH.visitAddr.toUInt8 6
  return (offsetOf v 0, offsetOf v 2, offsetOf v 4, s.getCacheRange)

end Adxl355

end Lra
