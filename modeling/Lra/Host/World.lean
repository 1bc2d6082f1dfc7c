import Lra.Device.Drv2605l
import Lra.Effect.Execution

/-!
# The machine the host program runs on

The shared variables, the multiplexer and the register files of the three
drives. A transfer reaches exactly the drives whose channel bit the multiplexer
holds. Two semantics are given: `ideal`, in which every transfer succeeds, and
`wired`, in which only the multiplexer is trusted and a transfer to a drive may
answer anything and leave anything in the drives it reaches.
-/

namespace Lra

open Effect

/-- `drv_x_ch_`, `drv_y_ch_` and `drv_z_ch_`. -/
def drvCh : Axis → UInt8
  | .x => 0x80
  | .y => 0x10
  | .z => 0x08

/-- The letter of an axis. -/
def Axis.char : Axis → Char
  | .x => 'x'
  | .y => 'y'
  | .z => 'z'

/-- The axis a letter names. -/
def axisOf : Char → Option Axis
  | 'x' => some .x
  | 'y' => some .y
  | 'z' => some .z
  | _ => none

@[simp] theorem axisOf_char (ax : Axis) : axisOf ax.char = some ax := by
  cases ax <;> rfl

/-! ### The boards on the bus -/

structure Board where
  control : UInt8
  chip : Axis → RegFile

namespace Board

/-- Does a transfer to the drives' common address reach this drive? -/
def selected (b : Board) (ax : Axis) : Bool := b.control &&& drvCh ax != 0

/-- What the selected drives put on the bus: a zero of one of them wins. -/
def readback (b : Board) (a n : Nat) : List UInt8 :=
  (List.range n).map fun i =>
    [Axis.x, .y, .z].foldl
      (fun v ax => if b.selected ax then v &&& b.chip ax (a + i) else v) 0xff

/-- The board after a transfer: the multiplexer keeps the last byte it is sent. -/
def after (b : Board) (call : BusCall) : Board :=
  if call.slave = 0x70 then
    { b with control := call.out.getLastD b.control }
  else if call.slave = 0x5a then
    { b with chip := fun ax =>
        if b.selected ax then RegFile.receive Drv2605l.readOnly call.out (b.chip ax)
        else b.chip ax }
  else b

/-- The reply of a transfer that succeeds. -/
def reply (b : Board) (call : BusCall) : BusReply :=
  if call.slave = 0x70 then call.succeed (List.replicate call.want b.control)
  else if call.slave = 0x5a then
    call.succeed (b.readback (RegFile.startOf call.out) call.want)
  else call.succeed (List.replicate call.want 0xff)

/-- With the multiplexer on one drive's channel, that drive alone is reached. -/
theorem selected_eq {b : Board} {ax : Axis} (on : b.control = drvCh ax) (ax' : Axis) :
    b.selected ax' = decide (ax' = ax) := by
  rw [selected, on]
  cases ax <;> cases ax' <;> decide

theorem readback_eq {b : Board} {ax : Axis} (on : b.control = drvCh ax) (a n : Nat) :
    b.readback a n = RegFile.load a n (b.chip ax) := by
  have ones : ∀ v : UInt8, 0xff &&& v = v := fun v => UInt8.neg_one_and
  refine List.map_congr_left fun i _ => ?_
  cases ax <;> simp [selected_eq on, ones]

end Board

/-! ### The state of the program and its boards -/

structure World where
  flag : Flag → Bool
  /-- `ws_rtp_cmd`. -/
  cmd : Fin 3 → UInt8
  tcaCh : Char
  tickCount : Nat
  sent : List Message
  board : Board

namespace World

/-- The state before the program has done anything, on boards whose registers are zero. -/
def initial : World where
  flag := fun _ => false
  cmd := fun _ => 0
  tcaCh := 'x'
  tickCount := 0
  sent := []
  board := ⟨0, fun _ _ => 0⟩

def setFlag (w : World) (f : Flag) (b : Bool) : World :=
  { w with flag := Function.update w.flag f b }

/-- The register at address `a` of the drive on axis `ax`. -/
def reg (w : World) (ax : Axis) (a : Nat) : UInt8 := w.board.chip ax a

/-- Is the multiplexer on the channel of `ax`? -/
def On (w : World) (ax : Axis) : Prop := w.board.control = drvCh ax

instance (w : World) (ax : Axis) : Decidable (w.On ax) := inferInstanceAs (Decidable (_ = _))

end World

/-! ### Transfers on a selected channel -/

section Transfer

variable {ax ax' : Axis} {w : World} {reg : Register}

/-- A transfer reaches the selected drive and no other. -/
theorem after_chip (on : w.On ax) {call : BusCall} (slave : call.slave = 0x5a) :
    w.board.after call = { w.board with
      chip := Function.update w.board.chip ax
        (RegFile.receive Drv2605l.readOnly call.out (w.board.chip ax)) } := by
  have notMux : ¬ call.slave = 0x70 := by
    rw [slave]
    decide
  rw [Board.after, if_neg notMux, if_pos slave]
  congr 1
  funext ax'
  by_cases same : ax' = ax
  · subst same
    simp [Board.selected_eq on]
  · simp [Board.selected_eq on, same]

theorem chip_after (on : w.On ax) {call : BusCall} (slave : call.slave = 0x5a) :
    (w.board.after call).chip ax =
      RegFile.receive Drv2605l.readOnly call.out (w.board.chip ax) := by
  simp [after_chip on slave]

theorem chip_after_other (on : w.On ax) {call : BusCall} (slave : call.slave = 0x5a)
    (other : ax' ≠ ax) : (w.board.after call).chip ax' = w.board.chip ax' := by
  simp [after_chip on slave, other]

/-- A successful read delivers the register of the selected drive. -/
theorem readValue_reply (on : w.On ax) (reg : Register) :
    Drv2605l.readValue (w.board.reply (Drv2605l.readCall reg)) =
      Int32.ofNat (w.reg ax reg.index).toNat := by
  have reply : w.board.reply (Drv2605l.readCall reg) = ⟨1, [w.reg ax reg.index]⟩ := by
    change (Drv2605l.readCall reg).succeed (w.board.readback reg.index 1) = _
    rw [Board.readback_eq on]
    simp [BusCall.succeed, Drv2605l.readCall, World.reg]
  rw [reply]
  simp [Drv2605l.readValue, array2IntegralBE_one]

end Transfer

/-! ### Semantics -/

/-- What an operation other than a transfer answers and leaves. The accelerometer
may answer anything. -/
def HostOp.Does : (o : HostOp) → World → o.Res → World → Prop
  | .load f, w, r, w' => r = w.flag f ∧ w' = w
  | .store f b, w, _, w' => w' = w.setFlag f b
  | .setCmd i b, w, _, w' => w' = { w with cmd := Function.update w.cmd i b }
  | .vecToTuple, w, r, w' => r = (w.cmd 0, w.cmd 1, w.cmd 2) ∧ w' = w
  | .tickCount, w, r, w' => r = w.tickCount ∧ w' = w
  | .setTickCount n, w, _, w' => w' = { w with tickCount := n }
  | .acc _, w, _, w' => w' = w
  | .send m, w, _, w' => w' = { w with sent := m :: w.sent }

/-- Every transfer succeeds. -/
def ideal : Semantics Io World
  | .host o, w, r, w' => o.Does w r w'
  | .setTcaCh c, w, _, w' => w' = { w with tcaCh := c }
  | .bus _ call, w, r, w' =>
    r = w.board.reply call ∧ w' = { w with board := w.board.after call }

/-- Writes to the multiplexer succeed. Any other transfer may fail or be disturbed,
but changes no drive it does not reach. -/
def wired : Semantics Io World
  | .host o, w, r, w' => o.Does w r w'
  | .setTcaCh c, w, _, w' => w' = { w with tcaCh := c }
  | .bus _ call, w, r, w' =>
    if call.slave = 0x70 then
      r = w.board.reply call ∧ w' = { w with board := w.board.after call }
    else
      ∃ chip : Axis → RegFile, w' = { w with board := { w.board with chip := chip } } ∧
        ∀ ax, w.board.selected ax = false → chip ax = w.board.chip ax

/-- An answer for every call on the accelerometer. -/
def AccCall.answer : (c : AccCall) → c.Res
  | .standby => false
  | .getAllReg => ([], [])
  | .accPopAll => []
  | .biasCorrection _ => ⟨0, 0, 0, 0⟩
  | .init | .cancelMeasureTask | .startMeasureTask | .setStandBy _ | .updateAllReg _ => ()

def HostOp.handle : (o : HostOp) → World → o.Res × World
  | .load f, w => (w.flag f, w)
  | .store f b, w => ((), w.setFlag f b)
  | .setCmd i b, w => ((), { w with cmd := Function.update w.cmd i b })
  | .vecToTuple, w => ((w.cmd 0, w.cmd 1, w.cmd 2), w)
  | .tickCount, w => (w.tickCount, w)
  | .setTickCount n, w => ((), { w with tickCount := n })
  | .acc c, w => (c.answer, w)
  | .send m, w => ((), { w with sent := m :: w.sent })

/-- A machine on which programs can be run: `ideal` with fixed accelerometer answers. -/
def bench : Handler Io World
  | .host o, w => o.handle w
  | .setTcaCh c, w => ((), { w with tcaCh := c })
  | .bus _ call, w => (w.board.reply call, { w with board := w.board.after call })

theorem HostOp.handle_does (o : HostOp) (w : World) : o.Does w (o.handle w).1 (o.handle w).2 := by
  cases o <;> simp [HostOp.handle, HostOp.Does]

theorem bench_within_ideal : bench.Within ideal := by
  intro o w
  cases o with
  | host o => exact o.handle_does w
  | setTcaCh c => rfl
  | bus dev call => exact ⟨rfl, rfl⟩

/-- A successful transfer is one of those the weaker semantics allows. -/
theorem wired_of_ideal {o : IoOp} {w w' : World} {r : Io.Res o} (h : ideal o w r w') :
    wired o w r w' := by
  cases o with
  | host o => exact h
  | setTcaCh c => exact h
  | bus dev call =>
      obtain ⟨rfl, rfl⟩ := h
      simp only [wired]
      split
      · trivial
      · next notMux =>
          refine ⟨(w.board.after call).chip, ?_, ?_⟩
          · simp only [Board.after, if_neg notMux]
            split <;> rfl
          · intro ax unselected
            simp only [Board.after, if_neg notMux]
            split
            · simp [unselected]
            · rfl

theorem bench_within_wired : bench.Within wired :=
  fun o w => wired_of_ideal (bench_within_ideal o w)

end Lra
