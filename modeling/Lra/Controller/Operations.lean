import Lra.Host.World

/-!
# The controller's operations

The program of every public operation, in terms of transfers and shared
variables. Log lines, the interrupt pin and the measuring thread's own loop are
left out; the accelerometer appears through the calls made on it.
-/

namespace Lra

open Effect

namespace Controller

def changeDrvCh (axis : Char) : Program Io Unit :=
  match axisOf axis with
  | some ax => do
    let _ ← Tca9548a.write Tca9548a.control (drvCh ax).toNat
    setTcaCh ax.char
  | none => pure ()

def updateAllRtp (val : RtpCmd) : Program Io Unit := do
  let (valX, valY, valZ) := val
  changeDrvCh 'x'
  Drv2605l.updateRTP .x valX
  changeDrvCh 'y'
  Drv2605l.updateRTP .y valY
  changeDrvCh 'z'
  Drv2605l.updateRTP .z valZ

def updateRtp (val : UInt8) (axis : Char) : Program Io Unit :=
  match axisOf axis with
  | some ax => do
    changeDrvCh axis
    Drv2605l.updateRTP ax val
  | none => pure ()

/-- One axis of `RunDrv` and `PauseDrv`: act only if `GetRun()` differs from the wish. -/
def driveAxis (toRun : Bool) (ax : Axis) : Program Io Unit := do
  let cached ← Drv2605l.getRun ax
  if cached != toRun then
    changeDrvCh ax.char
    Drv2605l.run ax toRun

def runDrv : Program Io Unit := do
  driveAxis true .x
  driveAxis true .y
  driveAxis true .z

def pauseDrv : Program Io Unit := do
  driveAxis false .x
  driveAxis false .y
  driveAxis false .z

def runCalibration : Program Io (Drv2605lInfo × Drv2605lInfo × Drv2605lInfo × Acc3) := do
  let originStandby ← host (.acc .standby)
  changeDrvCh 'x'
  let infoX ← Drv2605l.runAutoCalibration .x
  changeDrvCh 'y'
  let infoY ← Drv2605l.runAutoCalibration .y
  changeDrvCh 'z'
  let infoZ ← Drv2605l.runAutoCalibration .z
  let accAvg ← host (.acc (.biasCorrection originStandby))
  return (infoX, infoY, infoZ, accAvg)

/-- Fresh drive objects have never run. -/
def createDrives : Program Io Unit := do
  host (.store (.run .x) false)
  host (.store (.run .y) false)
  host (.store (.run .z) false)

def init : Program Io Unit := do
  host (.acc .cancelMeasureTask)
  createDrives
  host (.acc .init)
  changeDrvCh 'x'
  Drv2605l.setToLraDefault .x
  changeDrvCh 'y'
  Drv2605l.setToLraDefault .y
  changeDrvCh 'z'
  Drv2605l.setToLraDefault .z
  let _ ← runCalibration
  host (.acc .startMeasureTask)

def getAllRegisters :
    Program Io (List UInt8 × List UInt8 × List UInt8 × List UInt8 × List UInt8) := do
  changeDrvCh 'x'
  let x ← Drv2605l.getAllReg .x
  changeDrvCh 'y'
  let y ← Drv2605l.getAllReg .y
  changeDrvCh 'z'
  let z ← Drv2605l.getAllReg .z
  let (accRo, accRw) ← host (.acc .getAllReg)
  return (x, y, z, accRo, accRw)

def getRt : Program Io (Drv2605lRtInfo × Drv2605lRtInfo × Drv2605lRtInfo) := do
  changeDrvCh 'x'
  let x ← Drv2605l.getRt .x
  changeDrvCh 'y'
  let y ← Drv2605l.getRt .y
  changeDrvCh 'z'
  let z ← Drv2605l.getRt .z
  return (x, y, z)

def updateAllRegisters (x y z accRw : List UInt8) : Program Io Unit := do
  changeDrvCh 'x'
  Drv2605l.updateAllReg .x x
  changeDrvCh 'y'
  Drv2605l.updateAllReg .y y
  changeDrvCh 'z'
  Drv2605l.updateAllReg .z z
  host (.acc (.updateAllReg accRw))

def updateRegisters (target : String) (val : List UInt8) : Program Io Unit :=
  if target = "drv_x" then do
    changeDrvCh 'x'
    Drv2605l.updateAllReg .x val
  else if target = "drv_y" then do
    changeDrvCh 'y'
    Drv2605l.updateAllReg .y val
  else if target = "drv_z" then do
    changeDrvCh 'z'
    Drv2605l.updateAllReg .z val
  else if target = "adxl" then
    host (.acc (.updateAllReg val))
  else
    pure ()

/-! ### Calls -/

/-- A call of a public operation. -/
inductive Call where
  | init
  | updateAllRtp (val : RtpCmd)
  | updateRtp (val : UInt8) (axis : Char)
  | changeDrvCh (axis : Char)
  | runDrv
  | pauseDrv
  | runCalibration
  | getAllRegisters
  | getRt
  | updateAllRegisters (x y z accRw : List UInt8)
  | updateRegisters (target : String) (val : List UInt8)

@[reducible] def Call.Res : Call → Type
  | .runCalibration => Drv2605lInfo × Drv2605lInfo × Drv2605lInfo × Acc3
  | .getAllRegisters => List UInt8 × List UInt8 × List UInt8 × List UInt8 × List UInt8
  | .getRt => Drv2605lRtInfo × Drv2605lRtInfo × Drv2605lRtInfo
  | _ => Unit

def Call.code : (c : Call) → Program Io c.Res
  | .init => Controller.init
  | .updateAllRtp val => Controller.updateAllRtp val
  | .updateRtp val axis => Controller.updateRtp val axis
  | .changeDrvCh axis => Controller.changeDrvCh axis
  | .runDrv => Controller.runDrv
  | .pauseDrv => Controller.pauseDrv
  | .runCalibration => Controller.runCalibration
  | .getAllRegisters => Controller.getAllRegisters
  | .getRt => Controller.getRt
  | .updateAllRegisters x y z accRw => Controller.updateAllRegisters x y z accRw
  | .updateRegisters target val => Controller.updateRegisters target val

end Controller

end Lra
