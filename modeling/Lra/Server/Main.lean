import Lra.Controller.Drives
import Lra.Effect.Pool

/-!
# The server

Handlers run on the event loop, ticks on the control loop, and the timer only
raises a flag. They are written over an interface in which a call of the
controller is one operation; `MainOp.impl` expands it to the controller's program.
What is logged and the uuid and time stamp of a message are left out.
-/

namespace Lra

open Effect

/-- What the server's threads do: use shared variables and call the controller. -/
inductive MainOp where
  | host (o : HostOp)
  | call (c : Controller.Call)

@[reducible] def Main : Signature where
  Op := MainOp
  Res
    | .host o => o.Res
    | .call c => c.Res

/-- An operation of the server in terms of transfers and shared variables. -/
def MainOp.impl : (o : MainOp) → Program Io (Main.Res o)
  | .host o => Lra.host o
  | .call c => c.code

namespace Server

def load (f : Flag) : Program Main Bool := .op (.host (.load f)) .ret

def store (f : Flag) (b : Bool) : Program Main Unit := .op (.host (.store f b)) .ret

def send (m : Message) : Program Main Unit := .op (.host (.send m)) .ret

def acc (c : AccCall) : Program Main c.Res := .op (.host (.acc c)) .ret

def call (c : Controller.Call) : Program Main c.Res := .op (.call c) .ret

/-! ### Handlers -/

/-- `connections` is what `numConnections()` answers. -/
def disconnect (connections : Nat) : Program Main Unit :=
  if connections = 0 then do
    store .needSendRt false
    call .pauseDrv
  else
    pure ()

def moduleInfoRequire : Program Main Unit := do
  let activated ← load (.run .x)
  send (.moduleInfoRequireResponse activated)

/-- Start or pause, if the drive on `x` is not yet as wished. -/
def setToRun (toRun : Bool) : Program Main Unit := do
  let running ← load (.run .x)
  if toRun != running then
    if toRun then call .runDrv else call .pauseDrv

def drvDriveUpdate (toRun : Bool) : Program Main Unit := do
  setToRun toRun
  let running ← load (.run .x)
  send (.drvDriveUpdateRecv running)
  store .onRun toRun

def drvCmdUpdate (rtp : RtpCmd) : Program Main Unit := do
  let (rtpX, rtpY, rtpZ) := rtp
  .op (.host (.setCmd 0 rtpX)) .ret
  .op (.host (.setCmd 1 rtpY)) .ret
  .op (.host (.setCmd 2 rtpZ)) .ret
  store .onUpdateCmd true
  send .drvCmdUpdateRecv

/-- The accelerometer measures again, unless a calibration is going on. -/
def resumeAcc : Program Main Unit := do
  let calibrating ← load .onCalibration
  if !calibrating then acc (.setStandBy false)

def regAllUpdate (x y z accArr : List UInt8) : Program Main Unit := do
  store .onModify true
  acc (.setStandBy true)
  call (.updateAllRegisters x y z accArr)
  resumeAcc
  store .onModify false
  send .regAllUpdateRecv

def calibrationRequire : Program Main Unit := do
  let origin ← acc .standby
  store .onCalibration true
  acc (.setStandBy true)
  let (x, y, z, accAvg) ← call .runCalibration
  acc (.setStandBy origin)
  store .onCalibration false
  send (.calibrationRequireResponse x y z accAvg)

def regAllRequire : Program Main Unit := do
  let (x, y, z, accRo, accRw) ← call .getAllRegisters
  send (.regAllRequireResponse x y z accRo accRw)

def dataRTKeepRequire : Program Main Unit := store .needSendRt true

def dataRTStopRequire : Program Main Unit := store .needSendRt false

/-! ### The control loop -/

def keepRunning : Program Main Unit := do
  let onRun ← load .onRun
  if onRun then
    call .runDrv
    acc (.setStandBy false)

def applyCmd : Program Main Unit := do
  let onUpdateCmd ← load .onUpdateCmd
  if onUpdateCmd then
    let cmd ← .op (.host .vecToTuple) .ret
    call (.updateAllRtp cmd)
    store .onUpdateCmd false

def sendRt : Program Main Unit := do
  let needSendRt ← load .needSendRt
  if needSendRt then
    let (x, y, z) ← call .getRt
    let v ← acc .accPopAll
    send (.dataRTKeepRequireResponse x y z v)

/-- The body of an iteration that has work to do. -/
def work : Program Main Unit := do
  let onModify ← load .onModify
  if !onModify then
    keepRunning
    applyCmd
    sendRt
  else
    call .pauseDrv

/-- The alive message of every 500th iteration, which selects the channel of `x`. -/
def alive : Program Main Unit := do
  let i ← .op (.host .tickCount) .ret
  .op (.host (.setTickCount (i + 1))) .ret
  if i + 1 ≥ 500 then
    .op (.host (.setTickCount 0)) .ret
    call (.changeDrvCh 'x')

/-- One iteration of the control loop. -/
def tick : Program Main Unit := do
  let expired ← load .controlLoopExpired
  if expired then
    let calibrating ← load .onCalibration
    if !calibrating then
      store .controlLoopExpired false
      work
      alive

/-- The timer's callback. -/
def trigLoopExpired : Program Main Unit := store .controlLoopExpired true

/-! ### Jobs and threads -/

inductive Event where
  | disconnect (connections : Nat)
  | moduleInfoRequire
  | drvDriveUpdate (toRun : Bool)
  | drvCmdUpdate (rtp : RtpCmd)
  | regAllUpdate (x y z accArr : List UInt8)
  | calibrationRequire
  | regAllRequire
  | dataRTKeepRequire
  | dataRTStopRequire
  deriving DecidableEq

def Event.code : Event → Program Main Unit
  | .disconnect n => Server.disconnect n
  | .moduleInfoRequire => Server.moduleInfoRequire
  | .drvDriveUpdate toRun => Server.drvDriveUpdate toRun
  | .drvCmdUpdate rtp => Server.drvCmdUpdate rtp
  | .regAllUpdate x y z accArr => Server.regAllUpdate x y z accArr
  | .calibrationRequire => Server.calibrationRequire
  | .regAllRequire => Server.regAllRequire
  | .dataRTKeepRequire => Server.dataRTKeepRequire
  | .dataRTStopRequire => Server.dataRTStopRequire

inductive Job where
  | event (e : Event)
  | tick
  | trigLoopExpired
  deriving DecidableEq

def Job.code : Job → Program Main Unit
  | .event e => e.code
  | .tick => Server.tick
  | .trigLoopExpired => Server.trigLoopExpired

inductive Thread where
  | eventLoop
  | controlLoop
  | timer
  deriving DecidableEq, Repr

/-- Which jobs a thread runs. -/
def Thread.runs : Thread → Job → Prop
  | .eventLoop, .event _ => True
  | .controlLoop, .tick => True
  | .timer, .trigLoopExpired => True
  | _, _ => False

instance (i : Thread) (j : Job) : Decidable (i.runs j) := by
  cases i <;> cases j <;> first | exact isTrue trivial | exact isFalse id

/-- The state in which the threads are started: the controller is initialised. -/
def Started (w : World) : Prop :=
  ∃ board, ∃ tr, Exec ideal Controller.init { World.initial with board := board } tr () w

end Server

end Lra
