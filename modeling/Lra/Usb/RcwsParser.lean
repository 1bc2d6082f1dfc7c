import Lra.Buffer.Access
import Lra.Usb.Reader

/-!
# Parsing a message

`RcwsParser::Parse` with every access to the message checked. Floats stay the four
bytes they are received as, and the colours of the log are left out.
-/

namespace Lra

open Effect Buffer

/-! ### Names -/

/-- A `std::map` whose missing keys read as the empty string. -/
abbrev NameMap (κ : Type) := List (κ × String)

def NameMap.name {κ : Type} [BEq κ] (m : NameMap κ) (k : κ) : String := (m.lookup k).getD ""

def rcwsMsgInit : String := "MFIL-RCWS-USB init\r\n"

def modifyRcwsDeviceIndexMap : NameMap UInt8 :=
  [(1, "LRA_DEVICE_MPU6500"), (2, "LRA_DEVICE_ADXL355"), (3, "LRA_DEVICE_DRV2605L_X"),
    (4, "LRA_DEVICE_DRV2605L_Y"), (5, "LRA_DEVICE_DRV2605L_Z")]

def resetRcwsDeviceIndexMap : NameMap UInt8 :=
  [(0, "LRA_DEVICE_STM32"), (1, "LRA_DEVICE_MPU6500"), (2, "LRA_DEVICE_ADXL355"),
    (3, "LRA_DEVICE_DRV2605L_X"), (4, "LRA_DEVICE_DRV2605L_Y"), (5, "LRA_DEVICE_DRV2605L_Z"),
    (6, "LRA_DEVICE_ALL")]

def usbModeMap : NameMap UInt8 :=
  [(0, "LRA_USB_NONE_MODE"), (1, "LRA_USB_WAIT_FOR_INIT_MODE"), (2, "LRA_USB_CRTL_MODE"),
    (3, "LRA_USB_DATA_MODE")]

def usbInCmdTypeMap : NameMap UsbCmd :=
  [(.init, "USB_IN_CMD_INIT"), (.sysInfo, "USB_IN_CMD_SYS_INFO"),
    (.parseErr, "USB_IN_CMD_PARSE_ERR"), (.getReg, "USB_IN_CMD_GET_REG"),
    (.resetDevice, "USB_IN_CMD_RESET_DEVICE"), (.switchMode, "USB_IN_CMD_SWITCH_MODE")]

/-- By the basic command type, the low five bits of a code. -/
def usbBasicCmdTypeMap : NameMap UInt8 :=
  [(1, "CMD_SYS_INFO"), (2, "CMD_PARSE_ERR"), (3, "CMD_SWITCH_MODE"), (5, "CMD_UPDATE_REG"),
    (6, "CMD_GET_REG"), (7, "CMD_RESET_DEVICE"), (8, "CMD_RUN_AUTOCALIBRATE"),
    (9, "CMD_UPDATE_PWM"), (10, "CMD_UPDATE_ACC")]

def rcwsErrorStateMap : NameMap UInt16 :=
  [(0x0800, "PR_PRECHECK_FAIL"), (0x1000, "PR_CURRENT_MODE_FORBIDDEN_FAIL"),
    (0x2000, "PR_RETURN_MSG_TX_UNSET_FAIL"), (0x4000, "PR_DATA_PARSE_CONTENT_FAIL"),
    (0x8000, "PR_INTERNAL_OPERATION_FAIL")]

/-- The command a received type byte stands for. -/
def UsbCmd.ofInCode? (code : UInt8) : Option UsbCmd :=
  [sysInfo, parseErr, switchMode, init, updateReg, getReg, resetDevice, runAutocalibrate,
    updatePwm, updateAcc].find? (·.inCode == code)

theorem UsbCmd.ofInCode?_inCode (cmd : UsbCmd) : ofInCode? cmd.inCode = some cmd := by
  cases cmd <;> decide

/-! ### Texts -/

/-- `{:^width}`. -/
def center (width : Nat) (s : String) : String :=
  let pad := width - s.length
  String.ofList (List.replicate (pad / 2) ' ') ++ s ++
    String.ofList (List.replicate (pad - pad / 2) ' ')

/-- `0x{:02X}`. -/
def hex (n : Nat) : String :=
  "0x" ++ String.ofList (((Nat.toDigits 16 n).map Char.toUpper).leftpad 2 '0')

/-- `{:04b}`. -/
def binary4 (n : Nat) : String := String.ofList ((Nat.toDigits 2 n).leftpad 4 '0')

/-- The bytes as the characters of a `std::string`. -/
def text (bytes : List UInt8) : String :=
  String.ofList (bytes.map fun b => Char.ofNat b.toNat)

def tableRow (index hexColumn binaryColumn : String) : String :=
  center 11 index ++ " | " ++ center 10 hexColumn ++ " | " ++ center 10 binaryColumn ++ "\n"

/-! ### Data -/

structure PwmInfo where
  amp : UInt32
  freq : UInt32
  deriving DecidableEq

structure RcwsPwmInfo where
  x : PwmInfo
  y : PwmInfo
  z : PwmInfo
  deriving DecidableEq

/-- `ADXL355_DataSet_t`. -/
structure AccDataSet where
  t : UInt32
  x : UInt32
  y : UInt32
  z : UInt32
  deriving DecidableEq

namespace RcwsParser

/-- Which log files the device object has open. -/
structure Files where
  pwm : Bool
  acc : Bool

/-- What a message says: a text to log and data for the files. -/
structure Parsed where
  logMsg : String := ""
  pwm : Option (UInt32 × RcwsPwmInfo) := none
  acc : Option (List AccDataSet) := none

/-- What one call prints and writes to the files. -/
structure Output where
  printed : Option String := none
  pwmFile : Option (UInt32 × RcwsPwmInfo) := none
  accFile : Option (List AccDataSet) := none

/-- `msg[1] << 8 | msg[2]`. -/
def dataLenOf (msg : List UInt8) : Checked UInt16 := do
  let high ← get msg 1
  let low ← get msg 2
  return high.toUInt16 <<< 8 ||| low.toUInt16

/-- `memcpy` of a little-endian float. -/
def readFloat (msg : List UInt8) (pos : Nat) : Checked UInt32 := do
  let bytes ← block msg pos 4
  return bytes.foldr (fun b acc => acc <<< 8 ||| b.toUInt32) 0

def byteCountPerAxis : Nat := 10

def offsetFreq : Nat := 5

def readAxis (msg : List UInt8) (pPwm i : Nat) : Checked PwmInfo := do
  let ampBytes := pPwm + i * byteCountPerAxis
  let amp ← readFloat msg ampBytes
  let freq ← readFloat msg (ampBytes + offsetFreq)
  return ⟨amp, freq⟩

/-- The time and the parameters of the three axes, from the byte at `pdata` on. -/
def parsePwmInData (msg : List UInt8) (pdata : Nat) : Checked (UInt32 × RcwsPwmInfo) := do
  let sysTime ← readFloat msg pdata
  let pPwm := pdata + 4
  let x ← readAxis msg pPwm 0
  let y ← readAxis msg pPwm 1
  let z ← readAxis msg pPwm 2
  return (sysTime, ⟨x, y, z⟩)

def parseErr (msg : List UInt8) : Checked String := do
  let high ← get msg 3
  let low ← get msg 4
  let errInfo := high.toUInt16 <<< 8 ||| low.toUInt16
  let errType := ((rcwsErrorStateMap.find? fun e => e.1 &&& errInfo != 0).map (·.2)).getD ""
  let cmdMsg := usbBasicCmdTypeMap.name (errInfo &&& 0b11111).toUInt8
  return "\nCmd type: " ++ cmdMsg ++ "\nError type: " ++ errType ++ "\n"

def initMsg (msg : List UInt8) : Checked String := do
  let rxInitString ← between msg 3 msg.length
  return if text rxInitString != rcwsMsgInit then "Init string incorrect"
    else "Init string correct, start to init"

def updatePwm (msg : List UInt8) : Checked (UInt32 × RcwsPwmInfo) := do
  let _ ← dataLenOf msg
  let _ ← get msg 3
  parsePwmInData msg 3

def readDataSet (msg : List UInt8) (i : Nat) : Checked AccDataSet := do
  let t ← readFloat msg (3 + i * 16)
  let x ← readFloat msg (3 + i * 16 + 4)
  let y ← readFloat msg (3 + i * 16 + 8)
  let z ← readFloat msg (3 + i * 16 + 12)
  return ⟨t, x, y, z⟩

/-- `msg[data_len + 1] != '\r' || msg[data_len + 2] != '\n'`. -/
def misplacedEop (msg : List UInt8) (dataLen : UInt16) : Checked Bool := do
  let cr ← get msg (dataLen.toNat + 1)
  if cr != 0x0D then
    return true
  else
    let lf ← get msg (dataLen.toNat + 2)
    return lf != 0x0A

/-- The data sets, unless the length is wrong. `data_len - 2` wraps around before it is
divided by the size of a data set. -/
def updateAcc (msg : List UInt8) : Checked (String × Option (List AccDataSet)) := do
  let dataLen ← dataLenOf msg
  let size := dataLen.toUInt64 - 2
  if size % 16 != 0 then
    return ("Acc data len mismatch!!", none)
  else
    let misplaced ← misplacedEop msg dataLen
    let _ ← get msg 3
    let sets ← (List.range (size / 16).toUInt16.toNat).mapM (readDataSet msg)
    return (if misplaced then "Acc data \r\n wrong place!!" else "", some sets)

def getReg (msg : List UInt8) : Checked String := do
  let _ ← dataLenOf msg
  let device ← get msg 3
  let start ← get msg 4
  let last ← get msg 5
  let total : Int := last.toNat - start.toNat + 1
  let regs ← between msg 6 (msg.length - 2)
  let rows := regs.zipIdx start.toNat |>.map fun (value, index) =>
    tableRow (hex index) (hex value.toNat)
      (binary4 (value.toNat / 16) ++ " " ++ binary4 (value.toNat % 16))
  return "\nRead from device: " ++ modifyRcwsDeviceIndexMap.name device ++
    "\nStart address: " ++ hex start.toNat ++ "\nEnd address: " ++ hex last.toNat ++
    "\nTotal length: " ++ toString total ++ "\n\n" ++ tableRow "Iaddr" "Hex" "Binary" ++ "\n" ++
    String.join rows

/-- What is printed for a message, if there is anything to print: the line and the prompt
of the user's input again. -/
def printed (cmd : Option UsbCmd) (logMsg : String) : Option String :=
  if logMsg.isEmpty then none
  else some ("\r[" ++ (cmd.map usbInCmdTypeMap.name).getD "" ++ "]: " ++ logMsg ++ "\n-> ")

/-- The branches of `Parse`: the text to log and the data for the files. -/
def parseAs (type : UInt8) (msg : List UInt8) : Checked Parsed :=
  match UsbCmd.ofInCode? type with
  | some .parseErr => do
    let logMsg ← parseErr msg
    return { logMsg }
  | some .init => do
    let logMsg ← initMsg msg
    return { logMsg }
  | some .resetDevice => do
    let device ← get msg 3
    return { logMsg := "Successfully reset device: " ++ resetRcwsDeviceIndexMap.name device }
  | some .updatePwm => do
    let data ← updatePwm msg
    return { pwm := some data }
  | some .updateAcc => do
    let (logMsg, acc) ← updateAcc msg
    return { logMsg, acc }
  | some .switchMode => do
    let mode ← get msg 3
    return { logMsg := usbModeMap.name mode }
  | some .sysInfo => do
    let info ← between msg 3 msg.length
    return { logMsg := text info }
  | some .getReg => do
    let logMsg ← getReg msg
    return { logMsg }
  | _ => return { logMsg := "Wrong Cmd type: " ++ toString type.toNat }

def parse (files : Files) (msg : List UInt8) : Checked Output :=
  match msg with
  | [] => return {}
  | type :: _ => do
    let out ← parseAs type msg
    return {
      printed := printed (UsbCmd.ofInCode? type) out.logMsg
      pwmFile := if files.pwm then out.pwm else none
      accFile := if files.acc then out.acc else none }

example : ((parse ⟨true, true⟩ [0x22, 0x00, 0x02, 0x10, 0x09]).toOption.bind (·.printed)) =
    some ("\r[USB_IN_CMD_PARSE_ERR]: \nCmd type: CMD_UPDATE_PWM\n" ++
      "Error type: PR_CURRENT_MODE_FORBIDDEN_FAIL\n\n-> ") := by
  decide +kernel

/-! ### The messages that can come from the reader -/

/-- Nothing, or a type, a length and as many bytes as it says. -/
inductive Received : List UInt8 → Prop where
  | none : Received []
  | message {type high low : UInt8} {body : List UInt8}
      (len : body.length = (dataLen [type, high, low]).toNat) :
      Received (type :: high :: low :: body)

theorem exists_exec_of_received {msg : List UInt8} (received : Received msg) :
    ∃ s tr t, Exec onLine Rcws.readRcwsMsg s tr msg t := by
  cases received with
  | none => exact ⟨{ opened := false }, _, _, .op ⟨rfl, rfl⟩ (.ret [] _)⟩
  | @message type high low body len =>
      let s : Line := { arrived := type :: high :: low :: body }
      have isOpen : onLine .isOpen s true s := ⟨rfl, rfl⟩
      have header : onLine (.read 3) s [type, high, low] (s.consume 3 .blocking) :=
        ⟨by simp [s], rfl, rfl⟩
      let u := s.consume 3 .blocking
      have rest : onLine (.readWithin (dataLen [type, high, low]).toNat 25) u (some body)
          (u.consume (dataLen [type, high, low]).toNat .timed) := by
        simp [onLine, u, s, Line.consume, ← len]
      exact ⟨s, _, _, .op isOpen (.op header (.op rest (.ret _ _)))⟩

theorem readRcwsMsg_received (s : Line) :
    Rcws.readRcwsMsg.wp onLine (fun msg _ => Received msg) s := by
  rintro isOpen s ⟨rfl, rfl⟩
  cases s.opened with
  | false => exact .none
  | true =>
      rintro header u ⟨enough, rfl, rfl⟩ body v answer
      match taken : s.arrived.take 3, List.length_take_of_le enough with
      | [type, high, low], _ =>
          rw [taken] at answer
          rcases answer with ⟨inside, rfl, _⟩ | ⟨_, rfl, _⟩
          · exact .message (List.length_take_of_le inside)
          · exact .none

/-- These are exactly the messages `ReadRcwsMsg` can return. -/
theorem received_iff {msg : List UInt8} :
    Received msg ↔ ∃ s tr t, Exec onLine Rcws.readRcwsMsg s tr msg t := by
  constructor
  · exact exists_exec_of_received
  · rintro ⟨s, tr, t, run⟩
    exact (readRcwsMsg_received s).of_exec run

/-! ### Which accesses stay inside -/

section Bounds

variable {β : Type} {msg : List UInt8} {pos : Nat}

/-- The float at `pos`. -/
def floatAt (msg : List UInt8) (pos : Nat) : UInt32 :=
  ((msg.drop pos).take 4).foldr (fun b acc => acc <<< 8 ||| b.toUInt32) 0

theorem readFloat_eq (h : pos + 4 ≤ msg.length) : readFloat msg pos = .ok (floatAt msg pos) := by
  rw [readFloat, block_eq h]
  rfl

@[simp] theorem inBounds_readFloat_bind {f : UInt32 → Checked β} :
    InBounds (readFloat msg pos >>= f) ↔ pos + 4 ≤ msg.length ∧ InBounds (f (floatAt msg pos)) := by
  refine inBounds_bind_of readFloat_eq fun h => ?_
  obtain ⟨_, block, _⟩ := inBounds_bind.mp h
  exact inBounds_block.mp ⟨_, block⟩

/-- The last byte that is read is the last one of the frequency of `z`. -/
theorem inBounds_parsePwmInData : InBounds (parsePwmInData msg pos) ↔ pos + 33 ≤ msg.length := by
  simp only [parsePwmInData, readAxis, byteCountPerAxis, offsetFreq, bind_assoc, pure_bind,
    inBounds_readFloat_bind, inBounds_pure, and_true]
  omega

theorem inBounds_readDataSet {i : Nat} :
    InBounds (readDataSet msg i) ↔ 3 + i * 16 + 16 ≤ msg.length := by
  simp only [readDataSet, inBounds_readFloat_bind, inBounds_pure, and_true]
  omega

section Branches

variable {type high low : UInt8} {body : List UInt8}

theorem dataLenOf_eq : dataLenOf (type :: high :: low :: body) = .ok (dataLen [type, high, low]) :=
  rfl

theorem inBounds_parseErr :
    InBounds (parseErr (type :: high :: low :: body)) ↔ 2 ≤ body.length := by
  simp only [parseErr, inBounds_get_bind, inBounds_pure, exists_prop, and_true, List.length_cons]
  omega

theorem inBounds_updatePwm :
    InBounds (updatePwm (type :: high :: low :: body)) ↔ 33 ≤ body.length := by
  rw [updatePwm, dataLenOf_eq, ok_bind, inBounds_get_bind]
  simp only [inBounds_parsePwmInData, List.length_cons]
  constructor
  · rintro ⟨_, h⟩
    omega
  · intro h
    exact ⟨by omega, by omega⟩

theorem inBounds_getReg : InBounds (getReg (type :: high :: low :: body)) ↔ 5 ≤ body.length := by
  have regs : InBounds (between (type :: high :: low :: body) 6
      ((type :: high :: low :: body).length - 2)) ↔ 5 ≤ body.length := by
    rw [inBounds_between (Nat.sub_le _ _)]
    simp only [List.length_cons]
    omega
  rw [getReg, dataLenOf_eq, ok_bind]
  constructor
  · intro h
    simp only [inBounds_get_bind] at h
    obtain ⟨_, _, _, rest⟩ := h
    obtain ⟨bs, hbs, _⟩ := inBounds_bind.mp rest
    exact regs.mp ⟨bs, hbs⟩
  · intro h
    simp only [inBounds_get_bind, List.length_cons]
    refine ⟨by omega, by omega, by omega, ?_⟩
    exact (regs.mpr h).bind fun _ => inBounds_pure _

/-- The length wraps around at `2`, and then it is no whole number of data sets. -/
theorem dataSets_whole_iff {n : UInt16} :
    (n.toUInt64 - 2) % 16 = 0 ↔ 2 ≤ n.toNat ∧ 16 ∣ n.toNat - 2 := by
  have bound := n.toNat_lt
  have size : (n.toUInt64 - 2).toNat = (2 ^ 64 - 2 + n.toNat) % 2 ^ 64 := by
    rw [UInt64.toNat_sub, UInt16.toNat_toUInt64]
    rfl
  rw [← UInt64.toNat_inj, UInt64.toNat_mod, size]
  change (2 ^ 64 - 2 + n.toNat) % 2 ^ 64 % 16 = 0 ↔ _
  omega

theorem dataSets_count {n : UInt16} (two : 2 ≤ n.toNat) :
    ((n.toUInt64 - 2) / 16).toUInt16.toNat = (n.toNat - 2) / 16 := by
  have bound := n.toNat_lt
  have size : (n.toUInt64 - 2).toNat = (2 ^ 64 - 2 + n.toNat) % 2 ^ 64 := by
    rw [UInt64.toNat_sub, UInt16.toNat_toUInt64]
    rfl
  rw [UInt64.toNat_toUInt16, UInt64.toNat_div, size]
  change (2 ^ 64 - 2 + n.toNat) % 2 ^ 64 / 16 % 2 ^ 16 = _
  omega

/-- A length whose data is a whole number of data sets counts the terminator in. -/
theorem dataSets_fit {n : UInt16} (whole : (n.toUInt64 - 2) % 16 = 0) :
    2 ≤ n.toNat ∧ 16 * ((n.toUInt64 - 2) / 16).toUInt16.toNat + 2 ≤ n.toNat := by
  have two := (dataSets_whole_iff.mp whole).1
  rw [dataSets_count two]
  omega

theorem inBounds_misplacedEop {n : UInt16} (len : body.length = n.toNat) :
    InBounds (misplacedEop (type :: high :: low :: body) n) := by
  rw [misplacedEop, inBounds_get_bind]
  constructor
  · split
    · exact inBounds_pure _
    · rw [inBounds_bind_pure, inBounds_get]
      simp only [List.length_cons]
      omega
  · simp only [List.length_cons]
    omega

/-- The length is verified before anything else is read. -/
theorem inBounds_updateAcc (len : body.length = (dataLen [type, high, low]).toNat) :
    InBounds (updateAcc (type :: high :: low :: body)) := by
  rw [updateAcc, dataLenOf_eq, ok_bind]
  generalize dataLen [type, high, low] = n at len
  by_cases whole : (n.toUInt64 - 2) % 16 = 0
  · obtain ⟨two, fits⟩ := dataSets_fit whole
    have sets : InBounds ((List.range ((n.toUInt64 - 2) / 16).toUInt16.toNat).mapM
        (readDataSet (type :: high :: low :: body))) := by
      apply inBounds_mapM
      intro i hi
      have := List.mem_range.mp hi
      rw [inBounds_readDataSet]
      simp only [List.length_cons]
      omega
    simp only [whole, bne_self_eq_false, Bool.false_eq_true, if_false]
    refine (inBounds_misplacedEop len).bind fun _ => ?_
    rw [inBounds_get_bind, inBounds_bind_pure]
    constructor
    · exact sets
    · simp only [List.length_cons]
      omega
  · simp [whole]

/-- The bytes the body must have for its type. -/
def bodyNeeded : Option UsbCmd → Nat
  | some .parseErr => 2
  | some .resetDevice => 1
  | some .switchMode => 1
  | some .updatePwm => 33
  | some .getReg => 5
  | _ => 0

theorem inBounds_parseAs (len : body.length = (dataLen [type, high, low]).toNat) :
    InBounds (parseAs type (type :: high :: low :: body)) ↔
      bodyNeeded (UsbCmd.ofInCode? type) ≤ body.length := by
  have whole : InBounds (between (type :: high :: low :: body) 3
      (type :: high :: low :: body).length) := (inBounds_between (Nat.le_refl _)).mpr (by simp)
  unfold parseAs
  cases UsbCmd.ofInCode? type with
  | none => simp [bodyNeeded]
  | some cmd =>
      cases cmd with
      | parseErr =>
          rw [inBounds_bind_pure]
          exact inBounds_parseErr
      | updatePwm =>
          rw [inBounds_bind_pure]
          exact inBounds_updatePwm
      | getReg =>
          rw [inBounds_bind_pure]
          exact inBounds_getReg
      | updateAcc =>
          rw [inBounds_bind_pure]
          exact iff_of_true (inBounds_updateAcc len) (Nat.zero_le _)
      | init =>
          refine iff_of_true ?_ (Nat.zero_le _)
          exact (whole.bind fun _ => inBounds_pure _).bind fun _ => inBounds_pure _
      | sysInfo => exact iff_of_true (whole.bind fun _ => inBounds_pure _) (Nat.zero_le _)
      | resetDevice | switchMode =>
          rw [inBounds_bind_pure, inBounds_get]
          simp only [bodyNeeded, List.length_cons]
          omega
      | updateReg | runAutocalibrate => simp [bodyNeeded]

end Branches

end Bounds

/-- On a message from the reader every access is inside the message exactly if the body
has the bytes its type needs. -/
theorem inBounds_parse_iff {files : Files} {msg : List UInt8} (received : Received msg) :
    InBounds (parse files msg) ↔
      ∀ type ∈ msg.head?, 3 + bodyNeeded (UsbCmd.ofInCode? type) ≤ msg.length := by
  cases received with
  | none => simp [parse]
  | @message type high low body len =>
      rw [parse, inBounds_bind_pure, inBounds_parseAs len]
      simp only [List.head?_cons, Option.mem_def, Option.some.injEq, forall_eq', List.length_cons]
      omega

theorem inBounds_parse_iff_parseErr :
    Received [0x22, 0x00, 0x02, 0x10, 0x09] ∧
      (InBounds (parse ⟨true, true⟩ [0x22, 0x00, 0x02, 0x10, 0x09]) ↔
        ∀ type ∈ [0x22, 0x00, 0x02, 0x10, 0x09].head?,
          3 + bodyNeeded (UsbCmd.ofInCode? type) ≤ [0x22, 0x00, 0x02, 0x10, 0x09].length) :=
  ⟨.message rfl, inBounds_parse_iff (.message rfl)⟩

/-- A `PARSE_ERR` message with one byte is indexed behind its end. -/
theorem indexed_behind_end :
    ∃ msg, Received msg ∧ parse ⟨true, true⟩ msg = .error ⟨4⟩ ∧ msg.length = 4 :=
  ⟨[0x22, 0x00, 0x01, 0x10], .message rfl, rfl, rfl⟩

end RcwsParser

end Lra
