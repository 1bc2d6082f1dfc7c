import Lra.Device.Register
import Lra.Effect.Program

/-!
# The I2C adapter

The adapter checks a device's settings, serialises values and internal addresses
and calls the bus. It is written over any interface that offers bus calls; the
delay after a transfer is not modelled.
-/

namespace Lra

open Effect

/-! ### Helpers of `BusAdapter` -/

/-- The loop of `MakeIntegralMask`: shift in one byte of ones per round. -/
def integralMaskLoop : Nat → UInt64 → UInt64
  | 0, mask => mask
  | n + 1, mask => integralMaskLoop n (mask <<< 8 ||| 0x0ff)

def makeIntegralMask (nbytes : UInt8) : UInt64 :=
  if nbytes ≥ 8 then ~~~0 else integralMaskLoop nbytes.toNat 0

/-- The value as `nbytes` bytes, most significant first. The shift is arithmetic,
so a negative value is extended by its sign. -/
def integral2ArrayBE : Nat → Int → List UInt8
  | 0, _ => []
  | n + 1, val => integral2ArrayBE n (val >>> (8 : Nat)) ++ [UInt8.ofInt val]

/-- Shift the bytes of `buf` into a variable of `width` bytes that held `val`. -/
def array2IntegralBE (width val : Nat) (buf : List UInt8) : Nat :=
  (buf.take width).foldl (fun v b => (v <<< 8 ||| b.toNat) % 2 ^ (8 * width)) val

@[simp] theorem integral2ArrayBE_length (n : Nat) (val : Int) :
    (integral2ArrayBE n val).length = n := by
  induction n generalizing val with
  | zero => rfl
  | succ n ih => simp [integral2ArrayBE, ih]

/-- Narrowing the value of a byte to eight bits gives the byte back. -/
@[simp] theorem ofInt_toNat (b : UInt8) : UInt8.ofInt (b.toNat : Int) = b := by
  have small : ((b.toNat : Int) % 2 ^ 8).toNat = b.toNat := by
    have := b.toNat_lt
    omega
  rw [UInt8.ofInt, small, UInt8.ofNat_toNat]

theorem integral2ArrayBE_one (val : Int) : integral2ArrayBE 1 val = [UInt8.ofInt val] := rfl

theorem array2IntegralBE_one (b : UInt8) : array2IntegralBE 1 0 [b] = b.toNat := by
  simp [array2IntegralBE]

/-! ### The adapter -/

inductive I2cMethod where
  | plain
  | smbus
  deriving DecidableEq, Repr

/-- `I2cAdapter_S`; `busFunc` is the functionality word of the attached bus. -/
structure I2cAdapter where
  method : I2cMethod := .smbus
  devInfo : I2cDeviceInfo
  busFunc : UInt64 := 0

namespace I2cAdapter

/-- `I2C_FUNC_I2C`. -/
def funcI2c : UInt64 := 0x00000001

/-- Is the valid part of `iaddr` expressible in `nbytes` bytes? -/
def i2cInternalAddrCheck (nbytes : UInt8) (iaddr : UInt64) : Bool :=
  makeIntegralMask nbytes &&& iaddr == iaddr

def i2cSmbusCheckFail (a : I2cAdapter) : Bool :=
  a.devInfo.tenbit || a.devInfo.iaddrBytes > 1

def i2cPlainCheckFail (a : I2cAdapter) : Bool :=
  !(a.busFunc &&& funcI2c != 0)

/-- `htonl` followed by the byte view of the union. -/
def networkBytes (iaddr : UInt32) : List UInt8 :=
  [(iaddr >>> 24).toUInt8, (iaddr >>> 16).toUInt8, (iaddr >>> 8).toUInt8, iaddr.toUInt8]

/-- `to_buf[i--] = caddr[j--]` while both indices are valid; the arguments count `i + 1`
and `j + 1`. -/
def addrConvertLoop (caddr : List UInt8) : Nat → Nat → List UInt8 → List UInt8
  | i + 1, j + 1, toBuf => addrConvertLoop caddr i j (toBuf.set i (caddr.getD j 0))
  | _, _, toBuf => toBuf

def i2cInternalAddrConvert (iaddr : UInt32) (nbyte : UInt8) (toBuf : List UInt8) : List UInt8 :=
  addrConvertLoop (networkBytes iaddr) nbyte.toNat 4 toBuf

/-- The flags of a plain message to this device. -/
def msgFlags (a : I2cAdapter) : UInt16 :=
  if a.devInfo.tenbit then a.devInfo.flags ||| I2cMsg.ten else a.devInfo.flags

/-- What is found in the memory of an array after the block that declared it has been left: as
many bytes, but no certain ones. -/
structure Leftover where
  bytes : List UInt8 → List UInt8
  length_bytes : ∀ buf, (bytes buf).length = buf.length

/-- Nothing has reused the memory. -/
def Leftover.untouched : Leftover := ⟨id, fun _ => rfl⟩

/-- The internal address as the device expects it on the wire. -/
def iaddrBuf (a : I2cAdapter) (iaddr : UInt64) : List UInt8 :=
  i2cInternalAddrConvert iaddr.toUInt32 a.devInfo.iaddrBytes
    (List.replicate a.devInfo.iaddrBytes.toNat 0)

/-- The SMBus request every access builds. -/
def smbusData (a : I2cAdapter) (iaddr : UInt64) (len : UInt8) (value : List UInt8) : SmbusData where
  noInternalReg := if a.devInfo.iaddrBytes != 0 then false else true
  command := iaddr.toUInt8
  len := len
  slaveAddr := a.devInfo.addr.toUInt8
  value := value

section Access

variable {S : Signature} (bus : BusCall → Program S BusReply) (a : I2cAdapter)

/-- `_CallBusI2cPlainWriteMulti`: one message, address bytes then data. Its length
field has sixteen bits. -/
def callBusI2cPlainWriteMulti (iaddr : UInt64) (buf : List UInt8) : Program S BusReply :=
  let tmpBuf := a.iaddrBuf iaddr ++ buf
  bus (.plain [⟨a.devInfo.addr, a.msgFlags, UInt16.ofNat tmpBuf.length, tmpBuf⟩])

/-- `_CallBusI2cPlainReadMulti`: the address is written first, if there is one. The message
points to `converted_iaddr`, an array of the block that is left before the bus is called. -/
def callBusI2cPlainReadMulti (leftover : Leftover) (iaddr : UInt64) (bufLen : UInt16) :
    Program S BusReply :=
  let read : I2cMsg := ⟨a.devInfo.addr, a.msgFlags ||| I2cMsg.rd, bufLen, []⟩
  if a.devInfo.iaddrBytes > 0 then
    let convertedIaddr := leftover.bytes (a.iaddrBuf iaddr)
    bus (.plain
      [⟨a.devInfo.addr, a.msgFlags, a.devInfo.iaddrBytes.toUInt16, convertedIaddr⟩, read])
  else
    bus (.plain [read])

/-- The checks every access makes before it calls the bus; 0 if one of them fails. -/
def checked (iaddr : UInt64) (plain smbus : Program S BusReply) : Program S BusReply :=
  if !i2cInternalAddrCheck a.devInfo.iaddrBytes iaddr then pure ⟨0, []⟩
  else match a.method with
    | .plain => if a.i2cPlainCheckFail then pure ⟨0, []⟩ else plain
    | .smbus => if a.i2cSmbusCheckFail then pure ⟨0, []⟩ else smbus

/-- `WriteImpl(reg, val)`. -/
def writeReg (reg : Register) (val : Int) : Program S Int := do
  let buf := integral2ArrayBE reg.bytelen val
  let reply ← a.checked reg.addr (callBusI2cPlainWriteMulti bus a reg.addr buf)
    (bus (.smbusWrite (a.smbusData reg.addr (UInt8.ofNat reg.bytelen) buf)))
  return reply.ret

/-- `WriteImpl(iaddr, val, len)`. -/
def writeArray (iaddr : UInt64) (val : List UInt8) (len : UInt16) : Program S Int := do
  let reply ← a.checked iaddr (callBusI2cPlainWriteMulti bus a iaddr (val.take len.toNat))
    (bus (.smbusWrite (a.smbusData iaddr len.toUInt8 val)))
  return reply.ret

/-- `WriteImpl(iaddr, val)` of a vector, whose size is narrowed to the length field. -/
def writeVector (iaddr : UInt64) (val : List UInt8) : Program S Int := do
  let reply ← a.checked iaddr
    (callBusI2cPlainWriteMulti bus a iaddr (val.take (UInt16.ofNat val.length).toNat))
    (bus (.smbusWrite (a.smbusData iaddr (UInt8.ofNat val.length) val)))
  return reply.ret

/-- `ReadImpl(reg, val)` on a variable that held `val`: the returned size and the variable. -/
def readReg (leftover : Leftover) (reg : Register) (val : Nat) : Program S (Int × Nat) := do
  let smbus := a.smbusData reg.addr (UInt8.ofNat reg.bytelen) (List.replicate reg.bytelen 0)
  let reply ← a.checked reg.addr
    (callBusI2cPlainReadMulti bus a leftover reg.addr (UInt16.ofNat reg.bytelen))
    (bus (.smbusRead smbus))
  let tmpBuf := reply.value ++ List.replicate (reg.bytelen - reply.value.length) 0
  if reply.ret == reg.bytelen then
    return (reply.ret, array2IntegralBE reg.bytelen val tmpBuf)
  else
    return (reply.ret, val)

/-- `ReadImpl(iaddr, val, len)` into the zeroed buffer of a fresh vector. -/
def readArray (leftover : Leftover) (iaddr : UInt64) (len : UInt16) :
    Program S (Int × List UInt8) := do
  let reply ← a.checked iaddr (callBusI2cPlainReadMulti bus a leftover iaddr len)
    (bus (.smbusRead (a.smbusData iaddr len.toUInt8 (List.replicate len.toNat 0))))
  return (reply.ret, reply.value ++ List.replicate (len.toNat - reply.value.length) 0)

end Access

end I2cAdapter

end Lra
