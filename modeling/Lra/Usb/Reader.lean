import Lra.Effect.Execution
import Lra.Usb.Frame

/-!
# Reading messages from the serial port

`ReadRcwsMsg` takes three bytes and then as many as their length field says. The
port is kept as the bytes still travelling, those that have arrived and those that
were taken, with a record of where every read began.
-/

namespace Lra

open Effect

/-- The port's calls, the hand-over to the parser, and the arrival of `n` more bytes. -/
inductive LinkOp where
  | isOpen
  | isDataAvailable
  /-- `Read(buffer, n, 0)`. -/
  | read (n : Nat)
  /-- `Read(buffer, n, ms)`; no answer is the timeout exception. -/
  | readWithin (n ms : Nat)
  | parse (msg : List UInt8)
  | deliver (n : Nat)

@[reducible] def Link : Signature where
  Op := LinkOp
  Res
    | .isOpen => Bool
    | .isDataAvailable => Bool
    | .read _ => List UInt8
    | .readWithin _ _ => Option (List UInt8)
    | .parse _ => Unit
    | .deliver _ => Unit

namespace Rcws

/-- An empty message where the port is closed or the body is late. -/
def readRcwsMsg : Program Link (List UInt8) := do
  let isOpen ← .op .isOpen .ret
  if isOpen then
    let header ← .op (.read 3) .ret
    let body ← .op (.readWithin (dataLen header).toNat 25) .ret
    match body with
    | some body => return header ++ body
    | none => return []
  else
    return []

/-- `n` calls of `ReadRcwsMsg`. -/
def readMsgs : Nat → Program Link (List (List UInt8))
  | 0 => return []
  | n + 1 => do
    let msg ← readRcwsMsg
    let msgs ← readMsgs n
    return msg :: msgs

end Rcws

/-! ### The port -/

/-- How a read went, with the number of bytes taken before it. -/
inductive Access where
  /-- A read that blocks until it has its bytes. -/
  | blocking (start : Nat)
  /-- A read that had its bytes in time. -/
  | timed (start : Nat)
  | timedOut (start : Nat)
  deriving DecidableEq

structure Line where
  opened : Bool := true
  wire : List UInt8 := []
  arrived : List UInt8 := []
  taken : List UInt8 := []
  /-- The reads, newest first. -/
  reads : List Access := []
  /-- The messages given to the parser, newest first. -/
  handed : List (List UInt8) := []

namespace Line

/-- A port at which `bytes` have arrived. -/
def holding (bytes : List UInt8) : Line := { arrived := bytes }

/-- Take `n` of the bytes that have arrived. -/
def consume (s : Line) (n : Nat) (access : Nat → Access) : Line :=
  { s with
    arrived := s.arrived.drop n
    taken := s.taken ++ s.arrived.take n
    reads := access s.taken.length :: s.reads }

def hand (s : Line) (msg : List UInt8) : Line := { s with handed := msg :: s.handed }

def arrive (s : Line) (n : Nat) : Line :=
  { s with wire := s.wire.drop n, arrived := s.arrived ++ s.wire.take n }

end Line

/-- A read with a timeout has its bytes, or gives up once it has taken what had arrived.
Asked for nothing, it may do either. -/
def onLine : Semantics Link Line
  | .isOpen, s, r, t => r = s.opened ∧ t = s
  | .isDataAvailable, s, r, t => r = !s.arrived.isEmpty ∧ t = s
  | .read n, s, r, t =>
    n ≤ s.arrived.length ∧ r = s.arrived.take n ∧ t = s.consume n .blocking
  | .readWithin n _, s, r, t =>
    n ≤ s.arrived.length ∧ r = some (s.arrived.take n) ∧ t = s.consume n .timed ∨
    (s.arrived.length < n ∨ n = 0) ∧ r = none ∧ t = s.consume s.arrived.length .timedOut
  | .parse msg, s, _, t => t = s.hand msg
  | .deliver n, s, _, t => t = s.arrive n

section Reads

variable {s : Line} {bytes rest : List UInt8}

theorem onLine_read (arrived : s.arrived = bytes ++ rest) (r : List UInt8) (t : Line) :
    onLine (.read bytes.length) s r t ↔
      r = bytes ∧ t = s.consume bytes.length .blocking := by
  simp [onLine, arrived]

/-- Bytes that are there are read in time. -/
theorem onLine_readWithin (arrived : s.arrived = bytes ++ rest) (some_byte : 0 < bytes.length)
    (ms : Nat) (r : Option (List UInt8)) (t : Line) :
    onLine (.readWithin bytes.length ms) s r t ↔
      r = some bytes ∧ t = s.consume bytes.length .timed := by
  have no_timeout : ¬ (s.arrived.length < bytes.length ∨ bytes.length = 0) := by
    rw [arrived, List.length_append]
    omega
  simp only [onLine, no_timeout, false_and, or_false]
  simp [arrived]

end Reads

namespace Rcws

/-- A frame that has arrived is read whole, and no byte behind it. -/
theorem readRcwsMsg_frame {f : Frame} {rest : List UInt8} {s : Line} (opened : s.opened = true)
    (arrived : s.arrived = f.bytes ++ rest) :
    readRcwsMsg.twp onLine
      (fun msg t => msg = f.bytes ∧ t.opened = true ∧ t.arrived = rest ∧ t.wire = s.wire) s := by
  have header : s.arrived = f.header ++ (f.body ++ rest) := by
    rw [arrived, Frame.bytes, List.append_assoc]
  have body : (s.consume 3 .blocking).arrived = f.body ++ rest := by
    simp [Line.consume, header, Frame.header]
  apply Program.twp_op_of (r := true) (t := s)
  · intro r t
    rw [← opened]
    rfl
  apply Program.twp_op_of (onLine_read header)
  apply Program.twp_op_of (r := some f.body)
    (t := (s.consume 3 .blocking).consume f.body.length .timed)
  · rw [f.dataLen_header]
    exact onLine_readWithin body f.body_pos 25
  · refine ⟨rfl, opened, ?_, rfl⟩
    rw [Line.consume, body, List.drop_left]

theorem readMsgs_frames (fs : List Frame) {s : Line} (opened : s.opened = true)
    (arrived : s.arrived = fs.flatMap Frame.bytes) :
    (readMsgs fs.length).twp onLine
      (fun msgs t => msgs = fs.map Frame.bytes ∧ t.arrived = [] ∧ t.wire = s.wire) s := by
  induction fs generalizing s with
  | nil => exact ⟨rfl, arrived, rfl⟩
  | cons f fs ih =>
      rw [List.flatMap_cons] at arrived
      rw [List.length_cons, readMsgs, Program.twp_bind]
      apply Program.twp_mono (readRcwsMsg_frame opened arrived)
      rintro msg t ⟨rfl, opened, arrived, wire⟩
      rw [Program.twp_bind]
      apply Program.twp_mono (ih opened arrived)
      rintro msgs u ⟨rfl, empty, wire'⟩
      exact ⟨rfl, empty, wire'.trans wire⟩

/-- Generated messages are read back one by one, each being its type, the two bytes of its
length, its payload and the terminator, until no byte is left. -/
theorem readMsgs_generated (ps : List Packet) :
    (∃ tr msgs t, Exec onLine (readMsgs ps.length)
      (Line.holding (ps.flatMap Packet.message)) tr msgs t) ∧
    (∀ tr msgs t, Exec onLine (readMsgs ps.length)
        (Line.holding (ps.flatMap Packet.message)) tr msgs t →
      msgs = ps.map Packet.message ∧ t.arrived = [] ∧ t.wire = []) ∧
    ∀ p ∈ ps, p.message = [p.type.outCode, UInt8.ofNat ((p.payload.length + 2) / 256),
      UInt8.ofNat (p.payload.length + 2)] ++ p.payload ++ [0x0D, 0x0A] := by
  have messages : Packet.message = Frame.bytes ∘ Packet.frame := funext Packet.message_eq
  have total := readMsgs_frames (ps.map Packet.frame)
    (s := Line.holding (ps.flatMap Packet.message)) rfl (by
      simp [Line.holding, messages, List.flatMap_map, Function.comp_def])
  rw [List.length_map, List.map_map, ← messages] at total
  refine ⟨?_, fun tr msgs t run => total.wp.of_exec run, fun p _ => ?_⟩
  · obtain ⟨tr, msgs, t, run, _⟩ := total.exists_exec
    exact ⟨tr, msgs, t, run⟩
  · rw [p.message_eq]
    simp [Frame.bytes, Frame.header, Packet.frame]

end Rcws

end Lra
