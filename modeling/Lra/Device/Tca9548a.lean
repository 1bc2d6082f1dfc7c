import Lra.Bus.I2cAdapter
import Lra.Host.Interface

/-!
# The TCA9548A multiplexer

All three drives answer to one slave address. The control register of the
multiplexer decides which of them are on the bus.
-/

namespace Lra

open Effect

namespace Errors

/-- `Errors::kWrite` and `Errors::kRead`. -/
def kWrite : Int32 := -1
def kRead : Int32 := -2

end Errors

namespace Tca9548a

def control : Register := register8 0x0 0x0

/-- The settings `Controller::Init` gives the multiplexer's adapter. -/
def adapter : I2cAdapter where
  method := .smbus
  devInfo := {
    addr := 0x70, flags := 0, iaddrBytes := 1, pageBytes := 16, tenbit := false
    iaddrBytes_le := I2cDeviceInfo.oneByte_le }

/-- `Write(reg, val)`. -/
def write (reg : Register) (val : Int) : Program Io Int :=
  if val < 0 then pure Errors.kWrite.toInt
  else adapter.writeReg (transfer .tca) reg val

/-- The call that writes `val` to the control register. -/
def selectCall (val : UInt8) : BusCall :=
  .smbusWrite { command := 0, len := 1, slaveAddr := 0x70, value := [val] }

theorem write_control (val : UInt8) :
    write control val.toNat = (transfer .tca (selectCall val) >>= fun r => pure r.ret) := by
  have nonneg : ¬ ((val.toNat : Int) < 0) := by omega
  rw [write, if_neg nonneg]
  simp [I2cAdapter.writeReg, I2cAdapter.checked, control, register8, integral2ArrayBE_one,
    adapter, transfer, selectCall, I2cAdapter.smbusData, I2cAdapter.i2cSmbusCheckFail,
    show I2cAdapter.i2cInternalAddrCheck 1 0 = true from by decide]

@[simp] theorem selectCall_slave (val : UInt8) : (selectCall val).slave = 0x70 := rfl

@[simp] theorem selectCall_out (val : UInt8) : (selectCall val).out = [0, val] := rfl

end Tca9548a

end Lra
