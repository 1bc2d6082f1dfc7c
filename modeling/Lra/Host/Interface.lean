import Lra.Bus.I2c
import Lra.Effect.Program

/-!
# What the host program does to the outside

The controller and the server act through two kinds of operations: I2C
transactions, and everything else. The latter reads and writes the variables the
threads share, calls the accelerometer on its own SPI bus, or sends a message to
a client. The accelerometer's answers are left open.
-/

namespace Lra

open Effect

/-- The three drives. -/
inductive Axis where
  | x | y | z
  deriving DecidableEq, Repr, Inhabited

/-- The objects that issue I2C transactions: `tca_`, `drv_x_`, `drv_y_` and `drv_z_`. -/
inductive Device where
  | tca
  | drv (ax : Axis)
  deriving DecidableEq, Repr

/-- The shared boolean variables: the globals of the server and each drive's `run_`. -/
inductive Flag where
  | controlLoopExpired
  | onCalibration
  | onModify
  | onUpdateCmd
  | onRun
  | needSendRt
  | run (ax : Axis)
  deriving DecidableEq, Repr

/-- `Adxl355::Acc3`. -/
structure Acc3 where
  x : Float32
  y : Float32
  z : Float32
  time : Float32

/-- The calls on the accelerometer. `biasCorrection` is the second half of a
calibration: measuring, averaging and storing the new offset, all on the SPI bus. -/
inductive AccCall where
  | init
  | cancelMeasureTask
  | startMeasureTask
  | standby
  | setStandBy (standby : Bool)
  | getAllReg
  | updateAllReg (v : List UInt8)
  | accPopAll
  | biasCorrection (originStandby : Bool)

@[reducible] def AccCall.Res : AccCall → Type
  | .standby => Bool
  | .getAllReg => List UInt8 × List UInt8
  | .accPopAll => List Acc3
  | .biasCorrection _ => Acc3
  | _ => Unit

/-- `Drv2605lInfo`, with the register value in place of each scaled quantity; `none`
where the register could not be read and the default stays. -/
structure Drv2605lInfo where
  diagResult : Bool := true
  overCurrentDetect : Bool := true
  overTempDetect : Bool := true
  vbat : Option UInt8 := none
  lraPeriod : Int32 := 0
  compensationCoeff : Option UInt8 := none
  /-- The back-EMF result together with the feedback control register that scales it. -/
  backEmfResult : Option (UInt8 × UInt8) := none
  deviceId : String := ""

/-- `Drv2605lRtInfo`, with the LRA period the frequency is computed from. -/
structure Drv2605lRtInfo where
  rtp : UInt8 := 0
  lraPeriod : Int32 := 0

/-- The messages sent to clients, with the data they carry. -/
inductive Message where
  | moduleInfoRequireResponse (activated : Bool)
  | drvDriveUpdateRecv (run : Bool)
  | drvCmdUpdateRecv
  | regAllUpdateRecv
  | calibrationRequireResponse (x y z : Drv2605lInfo) (acc : Acc3)
  | regAllRequireResponse (x y z accRo accRw : List UInt8)
  | dataRTKeepRequireResponse (x y z : Drv2605lRtInfo) (acc : List Acc3)

/-- The triple `(x, y, z)` of RTP bytes. -/
abbrev RtpCmd := UInt8 × UInt8 × UInt8

/-- `ws_rtp_cmd` has elements, so its constant indices are meaningful. -/
instance wsRtpCmd_neZero : NeZero 3 := ⟨by decide⟩

/-- Every operation that is not an I2C transaction. -/
inductive HostOp where
  | load (f : Flag)
  | store (f : Flag) (b : Bool)
  /-- `ws_rtp_cmd[i] = b`. -/
  | setCmd (i : Fin 3) (b : UInt8)
  /-- `VecToTuple<3, uint8_t>(ws_rtp_cmd)`. -/
  | vecToTuple
  /-- The control loop's own counter `i`. -/
  | tickCount
  | setTickCount (n : Nat)
  | acc (call : AccCall)
  | send (m : Message)

@[reducible] def HostOp.Res : HostOp → Type
  | .load _ => Bool
  | .vecToTuple => RtpCmd
  | .tickCount => Nat
  | .acc call => call.Res
  | _ => Unit

/-- The operations of the controller's code; `tca_ch_` is its own variable. -/
inductive IoOp where
  | host (o : HostOp)
  | setTcaCh (c : Char)
  | bus (dev : Device) (call : BusCall)

@[reducible] def Io : Signature where
  Op := IoOp
  Res
    | .host o => o.Res
    | .setTcaCh _ => Unit
    | .bus _ _ => BusReply

/-- An operation that is not an I2C transaction, in the controller's interface. -/
def host (o : HostOp) : Program Io o.Res := .op (.host o) .ret

def setTcaCh (c : Char) : Program Io Unit := .op (.setTcaCh c) .ret

/-- One I2C transaction issued by `dev`. -/
def transfer (dev : Device) (call : BusCall) : Program Io BusReply := .op (.bus dev call) .ret

end Lra
