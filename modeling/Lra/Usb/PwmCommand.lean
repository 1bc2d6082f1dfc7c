import Lra.Number.LittleEndian
import Lra.Usb.RcwsParser

/-!
# PWM commands

`RcwsPwmInfoToVec` lays out the six parameters of a command in the order in which
`ParsePwmInData` reads them back. For a command out of range it returns no bytes, and
`DevPwmCmd` sends what it returns.
-/

namespace Lra

open Effect Buffer

/-- `lra::util::Range`, both bounds excluded. -/
structure Range where
  min : Float32
  max : Float32

def Range.isWithinRange (r : Range) (value : Float32) : Bool := value > r.min && value < r.max

/-- The calls of the serial port that write, and what is logged. -/
inductive SerialOp where
  | isOpen
  | drainWriteBuffer
  | write (msg : List UInt8)
  | log (text : String)

@[reducible] def Serial : Signature where
  Op := SerialOp
  Res
    | .isOpen => Bool
    | .drainWriteBuffer => Unit
    | .write _ => Unit
    | .log _ => Unit

namespace Rcws

/-! ### Functions -/

def ampRange : Range := ⟨0, 1000⟩

def freqRange : Range := ⟨1.0, 10.0⟩

def rangeCheck (info : RcwsPwmInfo) : Bool :=
  let ampInRange := ampRange.isWithinRange (.ofBits info.x.amp) &&
    ampRange.isWithinRange (.ofBits info.y.amp) && ampRange.isWithinRange (.ofBits info.z.amp)
  let freqInRange := freqRange.isWithinRange (.ofBits info.x.freq) &&
    freqRange.isWithinRange (.ofBits info.y.freq) && freqRange.isWithinRange (.ofBits info.z.freq)
  ampInRange && freqInRange

/-- The memory of a float. -/
def floatBytes (value : UInt32) : List UInt8 := LittleEndian.bytes 4 value.toNat

/-- `memcpy(data, &info, sizeof(RcwsPwmInfo))`. -/
def floatArray (info : RcwsPwmInfo) : List UInt32 :=
  [info.x.amp, info.x.freq, info.y.amp, info.y.freq, info.z.amp, info.z.freq]

def paraNumPerAxis : Nat := 2

def isEndOfAxis (index : Nat) : Bool := (index + 1) % paraNumPerAxis == 0

def rcwsPwmInfoToVec (info : RcwsPwmInfo) : List UInt8 :=
  let rangeOk := rangeCheck info
  if rangeOk ≠ true then []
  else (floatArray info).zipIdx.flatMap fun (value, i) =>
    floatBytes value ++ [if isEndOfAxis i then 0x3B else 0x2C]

def writeRcwsMsg (msgType : UsbCmd) (data : List UInt8) : Program Serial Unit := do
  let msg := RcwsMsgGenerator.generate msgType data
  let isOpen ← .op .isOpen .ret
  if isOpen then
    .op .drainWriteBuffer .ret
    .op (.write msg) .ret
  else
    .op (.log "Serial port is not open yet\n") .ret

def devPwmCmd (info : RcwsPwmInfo) : Program Serial Unit :=
  writeRcwsMsg .updatePwm (rcwsPwmInfoToVec info)

/-! ### Range -/

/-- All six values are strictly within their bounds. -/
def InRange (info : RcwsPwmInfo) : Prop :=
  ∀ axis ∈ [info.x, info.y, info.z],
    (0 < Float32.ofBits axis.amp ∧ Float32.ofBits axis.amp < 1000) ∧
      1.0 < Float32.ofBits axis.freq ∧ Float32.ofBits axis.freq < 10.0

theorem isWithinRange_iff {r : Range} {value : Float32} :
    r.isWithinRange value = true ↔ r.min < value ∧ value < r.max := by
  simp [Range.isWithinRange]

theorem rangeCheck_iff {info : RcwsPwmInfo} : rangeCheck info = true ↔ InRange info := by
  simp only [rangeCheck, InRange, Bool.and_eq_true, isWithinRange_iff, ampRange, freqRange,
    List.forall_mem_cons, List.not_mem_nil, false_imp_iff, implies_true, and_true]
  constructor
  · rintro ⟨⟨⟨xa, ya⟩, za⟩, ⟨xf, yf⟩, zf⟩
    exact ⟨⟨xa, xf⟩, ⟨ya, yf⟩, za, zf⟩
  · rintro ⟨⟨xa, xf⟩, ⟨ya, yf⟩, za, zf⟩
    exact ⟨⟨⟨xa, ya⟩, za⟩, ⟨xf, yf⟩, zf⟩

/-! ### Layout -/

@[simp] theorem floatBytes_length (value : UInt32) : (floatBytes value).length = 4 :=
  LittleEndian.length_bytes 4 _

/-- An axis as it is sent. -/
def axisBytes (axis : PwmInfo) : List UInt8 :=
  floatBytes axis.amp ++ 0x2C :: (floatBytes axis.freq ++ [0x3B])

@[simp] theorem axisBytes_length (axis : PwmInfo) :
    (axisBytes axis).length = RcwsParser.byteCountPerAxis := by
  simp [axisBytes, RcwsParser.byteCountPerAxis]

theorem rcwsPwmInfoToVec_eq {info : RcwsPwmInfo} (inRange : rangeCheck info = true) :
    rcwsPwmInfoToVec info = axisBytes info.x ++ (axisBytes info.y ++ axisBytes info.z) := by
  simp [rcwsPwmInfoToVec, inRange, floatArray, isEndOfAxis, paraNumPerAxis, axisBytes]

theorem rcwsPwmInfoToVec_eq_nil {info : RcwsPwmInfo} (outside : ¬ InRange info) :
    rcwsPwmInfoToVec info = [] :=
  if_pos fun inRange => outside (rangeCheck_iff.mp inRange)

/-! ### Reading back -/

/-- Four bytes are the memory of the float they are read as. -/
theorem exists_floatBytes {bytes : List UInt8} (len : bytes.length = 4) :
    ∃ value, floatBytes value = bytes := by
  have small : LittleEndian.value bytes < 2 ^ 32 := by
    have bound := LittleEndian.value_lt bytes
    rw [len] at bound
    exact bound
  refine ⟨UInt32.ofNat (LittleEndian.value bytes), ?_⟩
  rw [floatBytes, UInt32.toNat_ofNat_of_lt' small, ← len]
  exact LittleEndian.bytes_value bytes

theorem readFloat_floatBytes (before after : List UInt8) (value : UInt32) :
    RcwsParser.readFloat (before ++ (floatBytes value ++ after)) before.length = .ok value := by
  have inside : before.length + 4 ≤ (before ++ (floatBytes value ++ after)).length := by
    simp only [List.length_append, floatBytes_length]
    omega
  have taken : ((before ++ (floatBytes value ++ after)).drop before.length).take 4 =
      floatBytes value := by
    rw [List.drop_left]
    exact List.take_left' (floatBytes_length value)
  rw [RcwsParser.readFloat_eq inside, RcwsParser.floatAt, taken]
  congr 1
  apply UInt32.toNat_inj.mp
  rw [LittleEndian.toNat_foldr (Nat.le_of_eq (floatBytes_length value))]
  exact LittleEndian.value_bytes value.toNat_lt

theorem readAxis_axisBytes (before after : List UInt8) (axis : PwmInfo) {pPwm i : Nat}
    (start : pPwm + i * RcwsParser.byteCountPerAxis = before.length) :
    RcwsParser.readAxis (before ++ (axisBytes axis ++ after)) pPwm i = .ok axis := by
  have amp := readFloat_floatBytes before (0x2C :: (floatBytes axis.freq ++ 0x3B :: after)) axis.amp
  have freq := readFloat_floatBytes (before ++ (floatBytes axis.amp ++ [0x2C])) (0x3B :: after)
    axis.freq
  have offset : (before ++ (floatBytes axis.amp ++ [0x2C])).length =
      before.length + RcwsParser.offsetFreq := by
    simp [RcwsParser.offsetFreq]
  have whole : before ++ (axisBytes axis ++ after) =
      before ++ (floatBytes axis.amp ++ 0x2C :: (floatBytes axis.freq ++ 0x3B :: after)) := by
    simp [axisBytes]
  have split : before ++ (axisBytes axis ++ after) =
      (before ++ (floatBytes axis.amp ++ [0x2C])) ++ (floatBytes axis.freq ++ 0x3B :: after) := by
    simp [axisBytes]
  rw [← whole] at amp
  rw [← split, offset] at freq
  rw [RcwsParser.readAxis, start, amp, ok_bind, freq]
  rfl

/-- A payload is read back as `info`, whatever time stamp stands before it, and no byte
behind it is read. -/
def Carries (payload : List UInt8) (info : RcwsPwmInfo) : Prop :=
  ∀ time : List UInt8, time.length = 4 → ∃ sysTime, floatBytes sysTime = time ∧
    RcwsParser.parsePwmInData (time ++ payload) 0 = .ok (sysTime, info)

theorem carries_axes (info : RcwsPwmInfo) :
    Carries (axisBytes info.x ++ (axisBytes info.y ++ axisBytes info.z)) info := by
  intro time len
  obtain ⟨sysTime, rfl⟩ := exists_floatBytes len
  refine ⟨sysTime, rfl, ?_⟩
  have stamp := readFloat_floatBytes [] (axisBytes info.x ++ (axisBytes info.y ++ axisBytes info.z))
    sysTime
  have x := @readAxis_axisBytes (floatBytes sysTime) (axisBytes info.y ++ axisBytes info.z) info.x
    4 0 (by simp)
  have y := @readAxis_axisBytes (floatBytes sysTime ++ axisBytes info.x) (axisBytes info.z) info.y
    4 1 (by simp)
  have z := @readAxis_axisBytes (floatBytes sysTime ++ (axisBytes info.x ++ axisBytes info.y)) []
    info.z 4 2 (by simp [RcwsParser.byteCountPerAxis])
  rw [List.append_assoc] at y
  rw [List.append_nil, List.append_assoc, List.append_assoc] at z
  rw [List.nil_append] at stamp
  rw [RcwsParser.parsePwmInData]
  change (RcwsParser.readFloat _ ([] : List UInt8).length >>= _) = _
  rw [stamp, ok_bind]
  simp only [Nat.zero_add, x, y, z, ok_bind]
  rfl

/-- A command in range is sent in thirty bytes, from which it is read back bit by bit. -/
theorem parsePwmInData_rcwsPwmInfoToVec {info : RcwsPwmInfo} (inRange : rangeCheck info = true)
    {time : List UInt8} (len : time.length = 4) :
    (rcwsPwmInfoToVec info).length = 30 ∧ (time ++ rcwsPwmInfoToVec info).length = 34 ∧
      ∃ sysTime, floatBytes sysTime = time ∧
        RcwsParser.parsePwmInData (time ++ rcwsPwmInfoToVec info) 0 = .ok (sysTime, info) := by
  have length : (rcwsPwmInfoToVec info).length = 30 := by
    rw [rcwsPwmInfoToVec_eq inRange]
    simp [RcwsParser.byteCountPerAxis]
  refine ⟨length, ?_, ?_⟩
  · rw [List.length_append, length, len]
  · rw [rcwsPwmInfoToVec_eq inRange]
    exact carries_axes info time len

/-- Parameters made of delimiters. -/
theorem parsePwmInData_delimiters :
    ∃ info : RcwsPwmInfo, floatBytes info.x.amp = [0x2C, 0x3B, 0x2C, 0x43] ∧
      rangeCheck info = true ∧ (rcwsPwmInfoToVec info).length = 30 ∧
      ([0x3B, 0x2C, 0x3B, 0x2C] ++ rcwsPwmInfoToVec info).length = 34 ∧
      ∃ sysTime, floatBytes sysTime = [0x3B, 0x2C, 0x3B, 0x2C] ∧
        RcwsParser.parsePwmInData ([0x3B, 0x2C, 0x3B, 0x2C] ++ rcwsPwmInfoToVec info) 0 =
          .ok (sysTime, info) := by
  let axis : PwmInfo := ⟨0x432C3B2C, 0x402C3B2C⟩
  have inRange : rangeCheck ⟨axis, axis, axis⟩ = true := by decide +kernel
  exact ⟨⟨axis, axis, axis⟩, by decide, inRange, parsePwmInData_rcwsPwmInfoToVec inRange rfl⟩

/-! ### Sending -/

/-- An open port, with the frames written to it. -/
def openPort : Handler Serial (List (List UInt8))
  | .isOpen, frames => (true, frames)
  | .drainWriteBuffer, frames => ((), frames)
  | .write msg, frames => ((), frames ++ [msg])
  | .log _, frames => ((), frames)

/-- The frames `DevPwmCmd` writes to an open port. -/
def written (info : RcwsPwmInfo) : List (List UInt8) := ((devPwmCmd info).run openPort []).2

theorem written_eq (info : RcwsPwmInfo) :
    written info = [RcwsMsgGenerator.generate .updatePwm (rcwsPwmInfoToVec info)] := rfl

/-- One frame with the thirty bytes of a command in range, no frame for any other. -/
def Proper (info : RcwsPwmInfo) (frames : List (List UInt8)) : Prop :=
  (InRange info ∧ ∃ payload : List UInt8, payload.length = 30 ∧ Carries payload info ∧
    frames = [RcwsMsgGenerator.generate .updatePwm payload]) ∨
  (¬ InRange info ∧ frames = [])

/-- `DevPwmCmd` does what it should exactly on the commands in range. -/
theorem proper_written_iff (info : RcwsPwmInfo) : Proper info (written info) ↔ InRange info := by
  rw [written_eq]
  constructor
  · intro proper
    cases proper with
    | inl sent => exact sent.1
    | inr silent => cases silent.2
  · intro inRange
    have vec := rcwsPwmInfoToVec_eq (rangeCheck_iff.mpr inRange)
    refine .inl ⟨inRange, _, ?_, carries_axes info, by rw [vec]⟩
    simp [RcwsParser.byteCountPerAxis]

/-- An amplitude of 1000 is out of range, and a frame without any parameters is written. -/
theorem empty_frame_written :
    ∃ info : RcwsPwmInfo, Float32.ofBits info.x.amp = 1000 ∧ ¬ InRange info ∧
      written info = [[0x89, 0x00, 0x02, 0x0D, 0x0A]] ∧ ¬ Proper info (written info) := by
  let info : RcwsPwmInfo := ⟨⟨0x447A0000, 0x40A00000⟩, ⟨0x43FA0000, 0x40A00000⟩,
    ⟨0x43FA0000, 0x40A00000⟩⟩
  have outside : ¬ InRange info := by
    rw [← rangeCheck_iff]
    decide +kernel
  have frame : written info = [[0x89, 0x00, 0x02, 0x0D, 0x0A]] := by
    rw [written_eq, rcwsPwmInfoToVec_eq_nil outside]
    decide
  refine ⟨info, by decide +kernel, outside, frame, ?_⟩
  intro proper
  rw [frame] at proper
  cases proper with
  | inl sent => exact outside sent.1
  | inr silent => cases silent.2

end Rcws

end Lra
