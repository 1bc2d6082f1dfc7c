import Mathlib.Data.List.Basic

/-!
# USB frames

A frame is a type byte, the length of the body in two bytes, and the body. The
generator of outgoing messages appends `\r\n` to its data and counts it in.
-/

namespace Lra

/-- The commands of `LRA_USB_IN_Cmd_t` and `LRA_USB_OUT_Cmd_t`. -/
inductive UsbCmd where
  | sysInfo
  | parseErr
  | switchMode
  | init
  | updateReg
  | getReg
  | resetDevice
  | runAutocalibrate
  | updatePwm
  | updateAcc
  deriving DecidableEq, Repr

namespace UsbCmd

/-- `LRA_USB_IN_Cmd_t`. -/
def inCode : UsbCmd → UInt8
  | sysInfo => 0x21
  | parseErr => 0x22
  | switchMode => 0x43
  | init => 0x44
  | updateReg => 0x05
  | getReg => 0x06
  | resetDevice => 0x47
  | runAutocalibrate => 0x08
  | updatePwm => 0x09
  | updateAcc => 0x2A

/-- `LRA_USB_OUT_Cmd_t`: the code with the `CMD_IS_OUT` bit. -/
def outCode (cmd : UsbCmd) : UInt8 := cmd.inCode ||| 0x80

end UsbCmd

namespace RcwsMsgGenerator

/-- `Generate(type, data)`. -/
def generate (type : UsbCmd) (data : List UInt8) : List UInt8 :=
  let len := UInt16.ofNat (data.length + 2)
  [type.outCode, (len >>> 8).toUInt8, len.toUInt8] ++ data ++ [0x0D, 0x0A]

end RcwsMsgGenerator

theorem high_byte {n : Nat} (h : n < 65536) :
    (UInt16.ofNat n >>> 8).toUInt8 = UInt8.ofNat (n / 256) := by
  apply UInt8.toNat_inj.mp
  have fits := Nat.mod_eq_of_lt h
  simp [Nat.shiftRight_eq_div_pow, fits]

theorem low_byte (n : Nat) : (UInt16.ofNat n).toUInt8 = UInt8.ofNat n := by
  apply UInt8.toNat_inj.mp
  simp

/-- `header[1] << 8 | header[2]`, kept in sixteen bits. -/
def dataLen (header : List UInt8) : UInt16 :=
  (header.getD 1 0).toUInt16 <<< 8 ||| (header.getD 2 0).toUInt16

/-- A well-formed frame: the length of its body fits the length field and is not zero. -/
structure Frame where
  type : UInt8
  body : List UInt8
  body_pos : 0 < body.length
  body_lt : body.length < 65536

namespace Frame

def header (f : Frame) : List UInt8 :=
  [f.type, UInt8.ofNat (f.body.length / 256), UInt8.ofNat f.body.length]

def bytes (f : Frame) : List UInt8 := f.header ++ f.body

@[simp] theorem header_length (f : Frame) : f.header.length = 3 := rfl

@[simp] theorem bytes_length (f : Frame) : f.bytes.length = 3 + f.body.length := by
  simp [bytes]

theorem bytes_ne_nil (f : Frame) : f.bytes ≠ [] := by
  simp [bytes, header]

theorem dataLen_toNat (type high low : UInt8) :
    (dataLen [type, high, low]).toNat = high.toNat * 256 + low.toNat := by
  have bound := high.toNat_lt
  have shifted : (high.toUInt16 <<< 8).toNat = high.toNat <<< 8 := by
    rw [UInt16.toNat_shiftLeft, UInt8.toNat_toUInt16]
    change high.toNat <<< 8 % 2 ^ 16 = high.toNat <<< 8
    apply Nat.mod_eq_of_lt
    rw [Nat.shiftLeft_eq]
    omega
  change (high.toUInt16 <<< 8 ||| low.toUInt16).toNat = _
  rw [UInt16.toNat_or, shifted, UInt8.toNat_toUInt16,
    ← Nat.shiftLeft_add_eq_or_of_lt low.toNat_lt, Nat.shiftLeft_eq]

/-- The length field holds the length of the body. -/
theorem dataLen_header (f : Frame) : (dataLen f.header).toNat = f.body.length := by
  have bound := f.body_lt
  rw [header, dataLen_toNat, UInt8.toNat_ofNat', UInt8.toNat_ofNat']
  omega

end Frame

/-- Data for one outgoing message: at most as much as the length field can count. -/
structure Packet where
  type : UsbCmd
  payload : List UInt8
  payload_le : payload.length ≤ 65533

namespace Packet

/-- The generated message. -/
def message (p : Packet) : List UInt8 := RcwsMsgGenerator.generate p.type p.payload

/-- The message as a frame, the terminator being part of its body. -/
def frame (p : Packet) : Frame where
  type := p.type.outCode
  body := p.payload ++ [0x0D, 0x0A]
  body_pos := by simp
  body_lt := by
    have := p.payload_le
    simp only [List.length_append, List.length_cons, List.length_nil]
    omega

theorem message_eq (p : Packet) : p.message = p.frame.bytes := by
  have bound := p.payload_le
  have high := high_byte (n := p.payload.length + 2) (by omega)
  have low := low_byte (p.payload.length + 2)
  simp only [message, RcwsMsgGenerator.generate, high, low]
  simp [Frame.bytes, Frame.header, frame]

end Packet

end Lra
