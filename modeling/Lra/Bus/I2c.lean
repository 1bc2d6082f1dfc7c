import Mathlib.Algebra.Order.Ring.Nat
import Mathlib.Algebra.Ring.Int.Defs
import Mathlib.Data.Fin.Basic

/-!
# Calls into the I2C bus object

The adapter hands the bus either an SMBus block request or a list of plain
`I2C_RDWR` messages. Both put some bytes on the wire after the slave address and
then read some bytes back, which is all a slave sees of them.
-/

namespace Lra

/-- What a device declares about its own I2C addressing. The adapter asserts that
internal addresses have at most four bytes. -/
structure I2cDeviceInfo where
  tenbit : Bool := false
  iaddrBytes : UInt8 := 1
  addr : UInt16 := 0x0
  pageBytes : UInt16 := 16
  flags : UInt16 := 0
  iaddrBytes_le : iaddrBytes ≤ 4 := by decide

/-- Every slave here has a register address of one byte. -/
theorem I2cDeviceInfo.oneByte_le : (1 : UInt8) ≤ 4 := by decide

/-- `i2c_rdwr_smbus_data`; for a read, `value` is the buffer to be filled. -/
structure SmbusData where
  noInternalReg : Bool := false
  command : UInt8 := 0x0
  len : UInt8 := 0
  slaveAddr : UInt8 := 0
  value : List UInt8 := []
  deriving DecidableEq, Repr

/-- `i2c_msg`. -/
structure I2cMsg where
  addr : UInt16
  flags : UInt16
  len : UInt16
  buf : List UInt8
  deriving DecidableEq, Repr

namespace I2cMsg

/-- The flag bits `I2C_M_RD` and `I2C_M_TEN` of the kernel interface. -/
def rd : UInt16 := 0x0001
def ten : UInt16 := 0x0010

def isRead (m : I2cMsg) : Bool := m.flags &&& rd != 0

end I2cMsg

/-- `I2C_SMBUS_BLOCK_MAX`: libi2c silently shortens longer block requests. -/
def smbusBlockMax : Nat := 32

/-- One call of `WriteMulti` or `ReadMulti` on the bus. -/
inductive BusCall where
  | smbusWrite (data : SmbusData)
  | smbusRead (data : SmbusData)
  | plain (msgs : List I2cMsg)
  deriving DecidableEq, Repr

/-- The returned `ssize_t` and the bytes a read delivered. -/
structure BusReply where
  ret : Int
  value : List UInt8 := []
  deriving DecidableEq, Repr

namespace BusCall

/-- The addressed slave. -/
def slave : BusCall → UInt16
  | .smbusWrite data | .smbusRead data => data.slaveAddr.toUInt16
  | .plain msgs => (msgs.head?.map I2cMsg.addr).getD 0

/-- The bytes sent to the slave after its address. -/
def out : BusCall → List UInt8
  | .smbusWrite data =>
    if data.noInternalReg then data.value.take 1
    else data.command :: data.value.take (min data.len.toNat smbusBlockMax)
  | .smbusRead data => if data.noInternalReg then [] else [data.command]
  | .plain msgs => (msgs.filter fun m => !m.isRead).flatMap fun m => m.buf.take m.len.toNat

/-- How many bytes are read back from the slave. -/
def want : BusCall → Nat
  | .smbusWrite _ => 0
  | .smbusRead data => if data.noInternalReg then 1 else min data.len.toNat smbusBlockMax
  | .plain msgs => ((msgs.filter I2cMsg.isRead).map fun m => m.len.toNat).sum

/-- What a successful call returns. A written SMBus block yields 0, a read block
its length, a plain transfer the length of its last message. -/
def succeed (data : List UInt8) : BusCall → BusReply
  | .smbusWrite req => ⟨if req.noInternalReg then 1 else 0, []⟩
  | .smbusRead _ => ⟨data.length, data⟩
  | .plain msgs => ⟨(msgs.getLast?.map fun m => (m.len.toNat : Int)).getD 0, data⟩

end BusCall

end Lra
