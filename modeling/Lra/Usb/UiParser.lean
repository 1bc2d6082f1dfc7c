import Lra.Effect.Stateful
import Lra.Number.Binary32
import Lra.Usb.DataFiles
import Lra.Usb.FileNames
import Lra.Usb.PwmCommand

/-!
# The commands of the user

`UIParser::Parse` with an instance of `Rcws` registered. The answers to its prompts are a
list; a command that needs more of them waits. What it finds outside (the ports, the files,
the thread) is given, and what it does there is recorded, without the texts it prints.
-/

namespace Lra

open Effect Numeral

/-- The members of `RcwsInfo` that are read. -/
structure RcwsInfo where
  path : String := ""
  serialnum : String := ""
  deriving DecidableEq

/-- What `fork` returns to. -/
inductive Fork where
  | child
  | parent
  | failed
  deriving DecidableEq

/-- What the parser finds. -/
structure UiWorld where
  /-- `FindAllRcws`. -/
  rcwsLi : List RcwsInfo := []
  /-- `Open` does not throw. -/
  openOk : Bool := true
  /-- `data_path_`. -/
  dataPath : String := "data"
  /-- The directory exists or could be created. -/
  dataPathReady : Bool := true
  /-- The names in the directory. -/
  entries : List String := []
  fopen : DataFile → Option FileHandle := fun _ => none
  isRunningInWSL : Bool := false
  createPipe : Bool := false
  fork : Fork := .parent
  pwmCmdThreadRunning : Bool := false
  /-- The directory of the command files exists or could be created. -/
  pwmCmdPathReady : Bool := true
  pwmCmdFiles : List String := []

/-- What the parser does outside. -/
inductive UiCall where
  | clear
  | chooseRcws (index : Nat)
  | open
  | close
  | devReset (index : UInt8)
  | devInit
  | devSwitchMode (mode : UInt8)
  | devPwmCmd (info : RcwsPwmInfo)
  | devSend (cmdType : UsbCmd) (data : List UInt8)
  /-- Look for the data path, and create it. -/
  | dataPath
  | fopen (path : String)
  | fclose (file : FileHandle)
  | createPipe (path : String)
  | fork
  | writePipe (path msg : String)
  | pwmCmdThreadRunning
  | pwmCmdThreadClose
  | cleanPwmCmdQueue
  /-- Look for the directory of the command files, and create it. -/
  | pwmCmdPath
  | pwmCmdSetRecursive (enable : Bool)
  | startPwmCmdThread (path : String)
  deriving DecidableEq

structure UiState where
  /-- What the user has still to type. -/
  answers : List String := []
  calls : List UiCall := []
  files : DataFiles := {}
  fileName : DataFile → String := fun _ => ""
  pipeName : String := ""
  rcwsInfo : RcwsInfo := {}

/-- Why a command does not return. -/
inductive UiStop where
  | thrown (e : StdException)
  /-- For an answer of the user. -/
  | waiting
  deriving DecidableEq

abbrev Ui := EStateM UiStop UiState

namespace UiParser

/-! ### Prompts -/

def call (c : UiCall) : Ui Unit := modify fun s => { s with calls := s.calls ++ [c] }

def nextInput : Ui String := fun s =>
  match s.answers with
  | [] => .error .waiting s
  | answer :: answers => .ok answer { s with answers }

/-- Empty answers are not taken. -/
def nextNonEmpty : Ui String := fun s =>
  match s.answers.dropWhile String.isEmpty with
  | [] => .error .waiting { s with answers := [] }
  | answer :: answers => .ok answer { s with answers }

def convert {α : Type} : Except StdException α → Ui α
  | .ok a => pure a
  | .error e => throw (.thrown e)

/-- The part of a command in a `try` whose `catch` is for `std::exception`. -/
def tryAll {α : Type} (x : Ui α) : Ui (Option α) :=
  attempt (fun stop => match stop with | .thrown _ => true | .waiting => false) x

/-- The same for `std::invalid_argument`. -/
def tryInvalidArgument {α : Type} (x : Ui α) : Ui (Option α) :=
  attempt (· = .thrown .invalidArgument) x

/-! ### Commands -/

section Commands

variable (w : UiWorld)

def chooseRcws (index : Nat) : Ui Unit := do
  call (.chooseRcws index)
  modify fun s => { s with rcwsInfo := (w.rcwsLi[index]?).getD {} }

def openRcws : Ui Unit := do
  let _ ← tryAll do
    call .open
    if w.openOk then pure () else throw (.thrown .runtimeError)

/-- A negative index is large as a `size_t`. -/
def caseO : Ui Unit := do
  match w.rcwsLi with
  | [] => pure ()
  | [_] =>
    chooseRcws w 0
    openRcws w
  | rcwsLi =>
    let sRcwsIndex ← nextInput
    let _ ← tryAll do
      let rcwsIndex := UInt64.ofInt (← convert (stoi sRcwsIndex 10))
      if rcwsIndex.toNat < rcwsLi.length then chooseRcws w rcwsIndex.toNat else pure ()
    openRcws w

/-- `LRA_DEVICE_INVALID`. -/
def lraDeviceInvalid : UInt8 := 7

def caseR : Ui Unit := do
  let sDevIndex ← nextInput
  let _ ← tryAll do
    let index := UInt8.ofInt (← convert (stoi sDevIndex 10))
    if index < lraDeviceInvalid then call (.devReset index) else pure ()

/-- Nothing is done with a file that could not be opened. -/
def keepDataFile (k : DataFile) (path : String) : Option FileHandle → Ui Unit
  | some file => modify fun s => { s with
      files := s.files.setHandle k (some file)
      fileName := Function.update s.fileName k path }
  | none => pure ()

def openDataFile (k : DataFile) (path : String) : Ui (Option FileHandle) := do
  call (.fopen path)
  match w.fopen k with
  | some file =>
    modify fun s => { s with files := s.files.openFile file }
    return some file
  | none => return none

/-- The pipe for the plot: without it the files are recorded all the same. -/
def startPlot (accPath pwmPath : String) : Ui Unit := do
  let info := (← get).rcwsInfo
  if w.isRunningInWSL && info.path ≠ "" then
    let pipePath := w.dataPath ++ "/pipe/" ++ info.serialnum
    call (.createPipe pipePath)
    if w.createPipe then
      call .fork
      if w.fork = .parent then
        call (.writePipe pipePath (pwmPath ++ "," ++ accPath))
        modify fun s => { s with pipeName := pipePath }

/-- Whether there is a directory for the files. Both names are made before a file is opened. -/
def startData : Ui Bool := do
  call .dataPath
  if w.dataPathReady then
    let accName ← convert (Rcws.getNextFileName w.entries .acc)
    let pwmName ← convert (Rcws.getNextFileName w.entries .pwm)
    let accPath := w.dataPath ++ "/" ++ accName
    let pwmPath := w.dataPath ++ "/" ++ pwmName
    let accTmp ← openDataFile w .acc accPath
    let pwmTmp ← openDataFile w .pwm pwmPath
    keepDataFile .acc accPath accTmp
    keepDataFile .pwm pwmPath pwmTmp
    startPlot w accPath pwmPath
    return true
  else return false

def closeDataFile (k : DataFile) : Option FileHandle → Ui Unit
  | some file => do
    call (.fclose file)
    modify fun s => { s with
      files := (s.files.closeFile file).setHandle k none
      fileName := Function.update s.fileName k "" }
  | none => pure ()

def stopData : Ui Unit := do
  let accFile := (← get).files.handle .acc
  let pwmFile := (← get).files.handle .pwm
  closeDataFile .acc accFile
  closeDataFile .pwm pwmFile

def stopPlot : Ui Unit := do
  let pipeName := (← get).pipeName
  if pipeName ≠ "" then
    call (.writePipe pipeName "eof")
    modify fun s => { s with pipeName := "" }

/-- The command `s` for a known mode. -/
def setMode (mode : UInt8) : Ui Unit :=
  if mode = lraUsbDataMode then do
    let ready ← startData w
    if ready then call (.devSwitchMode mode) else pure ()
  else do
    stopData
    call (.devSwitchMode mode)
    stopPlot

def caseS : Ui Unit := do
  let sMode ← nextInput
  let _ ← tryInvalidArgument do
    let mode := UInt8.ofInt (← convert (stoi sMode 10))
    if mode ≠ lraUsbCrtlMode ∧ mode ≠ lraUsbDataMode then pure () else setMode w mode

variable (stof : String → Except StdException UInt32)

def rcwsPwmManualMode : UInt8 := 0

def rcwsPwmFileMode : UInt8 := 1

/-- `sizeof(RcwsPwmInfo) / sizeof(float)`. -/
def floatNum : Nat := 6

def ampRange : Range := ⟨0, 1000⟩

def freqRange : Range := ⟨1.0, 10.0⟩

/-- The two validators take turns. -/
def floatIsOk (validFloat : Nat) (floatCandidate : UInt32) : Bool :=
  if validFloat % 2 ≠ 0 then freqRange.isWithinRange (.ofBits floatCandidate)
  else ampRange.isWithinRange (.ofBits floatCandidate)

/-- The loop over the answers still to come, with the floats accepted so far. It needs more
answers where nothing is returned. -/
def readFloats : List String → List UInt32 → Option (List UInt32 × List String)
  | [], fdata => if fdata.length < floatNum then none else some (fdata, [])
  | answer :: answers, fdata =>
    if fdata.length < floatNum then
      match stof answer with
      | .ok floatCandidate =>
        if floatIsOk fdata.length floatCandidate then
          readFloats answers (fdata ++ [floatCandidate])
        else readFloats answers fdata
      | .error _ => readFloats answers fdata
    else some (fdata, answer :: answers)

def getFloats : Ui (List UInt32) := fun s =>
  match readFloats stof s.answers [] with
  | some (fdata, answers) => .ok fdata { s with answers }
  | none => .error .waiting { s with answers := [] }

/-- `memcpy(&info, fdata, sizeof(RcwsPwmInfo))`. -/
def infoOf (fdata : List UInt32) : RcwsPwmInfo where
  x := ⟨fdata.getD 0 0, fdata.getD 1 0⟩
  y := ⟨fdata.getD 2 0, fdata.getD 3 0⟩
  z := ⟨fdata.getD 4 0, fdata.getD 5 0⟩

def pwmManual : Ui Unit := do
  let fdata ← getFloats stof
  call (.devPwmCmd (infoOf fdata))

/-- A float as an `int`, and what the hardware gives for one that is none. -/
def toInt (bits : UInt32) : Int :=
  match Binary32.value (Float32.ofBits bits).toModel.unpack with
  | some v =>
    let n := v.num.tdiv v.den
    if -intMax - 1 ≤ n ∧ n ≤ intMax then n else -intMax - 1
  | none => -intMax - 1

def getInt : Ui Int := do
  let sFloat ← nextInput
  let value ← convert (stof sFloat)
  return toInt value

/-- `extension() == ".csv"`. -/
def isCsv (name : String) : Bool := name.endsWith ".csv" && name ≠ ".csv"

def isYes (answer : String) : Bool := answer = "y" || answer = "yes"

/-- The files are listed under the numbers from 0 on. -/
def chooseCsv : Ui Unit := do
  let csvFiles := w.pwmCmdFiles.filter isCsv
  if csvFiles = [] then pure ()
  else
    let csvIndex ← getInt stof
    if csvIndex < 0 then pure ()
    else
      match csvFiles[csvIndex.toNat]? with
      | some name =>
        let recursiveY ← nextInput
        call (.pwmCmdSetRecursive (isYes recursiveY))
        call (.startPwmCmdThread (w.dataPath ++ "/pwm_cmd_file/" ++ name))
      | none => pure ()

def pwmFile : Ui Unit := do
  call .pwmCmdThreadRunning
  if w.pwmCmdThreadRunning then
    let sCancel ← nextInput
    if isYes sCancel then
      call .pwmCmdThreadClose
      call .cleanPwmCmdQueue
    else pure ()
  else
    call .pwmCmdPath
    if w.pwmCmdPathReady then chooseCsv w stof else pure ()

/-- The command `p` for a known mode. -/
def runPwm (mode : UInt8) : Ui Unit :=
  if mode = rcwsPwmManualMode then pwmManual stof else pwmFile w stof

def caseP : Ui Unit := do
  let sMode ← nextInput
  let _ ← tryAll do
    let mode := UInt8.ofInt (← convert (stoi sMode 10))
    if mode ≠ rcwsPwmManualMode ∧ mode ≠ rcwsPwmFileMode then pure () else runPwm w stof mode

/-- Both addresses are asked for in the same words. -/
def getIaddr : Ui (Option UInt8) := do
  let iaddr ← nextNonEmpty
  tryAll do return UInt8.ofInt (← convert (stoi iaddr 0))

def caseG : Ui Unit := do
  let sDevIndex ← nextNonEmpty
  let devIndex ← tryAll do
    let devIndex := UInt8.ofInt (← convert (stoi sDevIndex 10))
    if devIndex ≥ lraDeviceInvalid then throw (.thrown .runtimeError) else return devIndex
  match devIndex with
  | none => pure ()
  | some devIndex =>
    match ← getIaddr with
    | none => pure ()
    | some iaddrBegin =>
      match ← getIaddr with
      | none => pure ()
      | some iaddrEnd => call (.devSend .getReg [devIndex, iaddrBegin, iaddrEnd])

/-- A command is told by its first letter. -/
def command : Option Char → Ui Unit
  | some 'o' => caseO w
  | some 'c' => call .close
  | some 'r' => caseR
  | some 'i' => call .devInit
  | some 's' => caseS w
  | some 'p' => caseP w stof
  | some 'g' => caseG
  | _ => pure ()

def parse (input : String) : Ui Unit :=
  if input = "exit" then call .close
  else if input = "clear" then call .clear
  else command w stof input.toList.head?

end Commands

end UiParser

end Lra
