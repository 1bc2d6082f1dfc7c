import Lra.Controller.Operations
import Mathlib.Tactic.SplitIfs

/-!
# What an operation does to the drives

A drive is described by its cached state, its standby bit, its GO register and its
RTP value. Every operation of the controller acts on each drive separately, by
`Call.effect`; the theorem `Call.takes` says that its program, run on boards
where every transfer succeeds, does exactly that and nothing else.
-/

namespace Lra

open Effect

/-- What matters of one drive: the cached `run_` and three facts of its registers. -/
structure Drive where
  run : Bool
  standby : Bool
  go : UInt8
  rtp : UInt8
  deriving DecidableEq, Repr

/-- The drive whose cached state and register file are given. -/
def Drive.ofRegs (run : Bool) (m : RegFile) : Drive := ⟨run, standbyBit (m 0x01), m 0x0C, m 0x02⟩

namespace World

def drive (w : World) (ax : Axis) : Drive := .ofRegs (w.flag (.run ax)) (w.board.chip ax)

/-- Nothing but the drives and the multiplexer differs. -/
structure Frame (w w' : World) : Prop where
  flag : ∀ f, (∀ ax, f ≠ .run ax) → w'.flag f = w.flag f
  cmd : w'.cmd = w.cmd
  tickCount : w'.tickCount = w.tickCount
  sent : w'.sent = w.sent

namespace Frame

variable {w w' w'' : World}

theorem refl (w : World) : Frame w w := ⟨fun _ _ => rfl, rfl, rfl, rfl⟩

theorem trans (h : Frame w w') (h' : Frame w' w'') : Frame w w'' where
  flag f notRun := (h'.flag f notRun).trans (h.flag f notRun)
  cmd := h'.cmd.trans h.cmd
  tickCount := h'.tickCount.trans h.tickCount
  sent := h'.sent.trans h.sent

end Frame

end World

/-! ### Actions on one drive -/

namespace Drive

/-- Write one register. -/
def poke (addr : Nat) (v : UInt8) (d : Drive) : Drive :=
  if addr = 0x01 then { d with standby := standbyBit v }
  else if addr = 0x02 then { d with rtp := v }
  else if addr = 0x0C then { d with go := v }
  else d

/-- Registers 0x01, 0x02 and 0x0C are writable, so a poke shows in the register file. -/
theorem ofRegs_store (addr : Nat) (v : UInt8) (run : Bool) (m : RegFile) :
    ofRegs run (RegFile.store Drv2605l.readOnly addr [v] m) = (ofRegs run m).poke addr v := by
  by_cases mode : addr = 0x01
  · subst mode
    simp [ofRegs, poke, RegFile.store_one_self, RegFile.store_one_ne, Drv2605l.readOnly]
  by_cases rtp : addr = 0x02
  · subst rtp
    simp [ofRegs, poke, RegFile.store_one_self, RegFile.store_one_ne, Drv2605l.readOnly]
  by_cases go : addr = 0x0C
  · subst go
    simp [ofRegs, poke, RegFile.store_one_self, RegFile.store_one_ne, Drv2605l.readOnly]
  simp [ofRegs, poke, mode, rtp, go, RegFile.store_one_ne (Ne.symm mode),
    RegFile.store_one_ne (Ne.symm rtp), RegFile.store_one_ne (Ne.symm go)]

/-- `Run(b)`: a change is carried out, a repetition is not. -/
def setRun (b : Bool) (d : Drive) : Drive :=
  if d.run = b then d else { d with run := b, standby := !b, go := b.toUInt8 }

/-- A calibration run ends stopped, whatever was cached before. -/
def calibrate (d : Drive) : Drive := { d with run := false, standby := true, go := 0 }

def reset (d : Drive) : Drive := { d with standby := true, rtp := 0 }

/-- A bulk write of registers 0x01 to 0x20; other lengths are refused. -/
def load (v : List UInt8) (d : Drive) : Drive :=
  if v.length = Drv2605l.wRegLen then
    { d with standby := standbyBit (v.getD 0 0), rtp := v.getD 1 0, go := v.getD 11 0 }
  else d

/-- Stopped in the cache and on the chip. -/
def Stopped (d : Drive) : Prop := d.run = false ∧ d.standby = true ∧ d.go = 0

instance (d : Drive) : Decidable d.Stopped := inferInstanceAs (Decidable (_ ∧ _))

end Drive

namespace Controller

/-- The component of a triple that belongs to an axis. -/
def pick {α : Type} (x y z : α) : Axis → α
  | .x => x
  | .y => y
  | .z => z

/-- What a call does to the drive on each axis. -/
def Call.effect : Call → Axis → Drive → Drive
  | .init, _, d => { d with run := false }.reset.calibrate
  | .updateAllRtp (x, y, z), ax, d => { d with rtp := pick x y z ax }
  | .updateRtp val c, ax, d => if axisOf c = some ax then { d with rtp := val } else d
  | .runDrv, _, d => d.setRun true
  | .pauseDrv, _, d => d.setRun false
  | .runCalibration, _, d => d.calibrate
  | .updateAllRegisters x y z _, ax, d => d.load (pick x y z ax)
  | .updateRegisters target val, ax, d =>
    if target = pick "drv_x" "drv_y" "drv_z" ax then d.load val else d
  | .changeDrvCh _, _, d => d
  | .getAllRegisters, _, d => d
  | .getRt, _, d => d

end Controller

/-! ### Programs on a selected channel -/

/-- On its channel, `p` takes the drive from `d` to `e` and touches nothing else. -/
def Moves (ax : Axis) {α : Type} (p : Program Io α) (d e : Drive) : Prop :=
  ∀ w : World, w.On ax → w.drive ax = d → p.wp ideal (fun _ w' =>
    w'.On ax ∧ w'.drive ax = e ∧ (∀ ax', ax' ≠ ax → w'.drive ax' = w.drive ax') ∧
      w.Frame w') w

namespace Moves

variable {ax : Axis} {α β : Type} {p : Program Io α} {f : α → Program Io β} {d e k : Drive}

theorem ret (a : α) : Moves ax (.ret a) d d :=
  fun w on start => ⟨on, start, fun _ _ => rfl, .refl w⟩

theorem bind (first : Moves ax p d e) (rest : ∀ a, Moves ax (f a) e k) :
    Moves ax (p >>= f) d k := by
  intro w on start
  rw [Program.wp_bind]
  refine Program.wp_mono (first w on start) ?_
  rintro a w' ⟨on', middle, others, frame⟩
  refine Program.wp_mono (rest a w' on' middle) ?_
  rintro b w'' ⟨on'', final, others', frame'⟩
  exact ⟨on'', final, fun ax' h => (others' ax' h).trans (others ax' h), frame.trans frame'⟩

theorem of_eq (h : Moves ax p d e) (eq : e = k) : Moves ax p d k := eq ▸ h

/-- The cached state is read as it is. -/
theorem getRun {g : Bool → Program Io β} (rest : Moves ax (g d.run) d e) :
    Moves ax (Drv2605l.getRun ax >>= g) d e := by
  intro w on start
  rintro r w' ⟨rfl, rfl⟩
  have cached : w'.flag (.run ax) = d.run := congrArg Drive.run start
  rw [cached]
  exact rest w' on start

theorem storeRun (b : Bool) : Moves ax (host (.store (.run ax) b)) d { d with run := b } := by
  intro w on start
  rintro r w' rfl
  refine ⟨on, ?_, fun ax' other => ?_, ⟨fun f notRun => ?_, rfl, rfl, rfl⟩⟩
  · subst start
    simp [World.drive, World.setFlag, Drive.ofRegs]
  · simp [World.drive, World.setFlag, other]
  · simp [World.setFlag, notRun ax]

/-- A transfer that names an address and sends no data only reads. -/
theorem transferRead {call : BusCall} {a : UInt8} {g : BusReply → Program Io β}
    (slave : call.slave = 0x5a) (out : call.out = [a])
    (rest : ∀ w : World, w.On ax → Moves ax (g (w.board.reply call)) d e) :
    Moves ax (transfer (.drv ax) call >>= g) d e := by
  intro w on start
  rintro r w' ⟨rfl, rfl⟩
  have unchanged : w.board.after call = w.board := by
    rw [after_chip on slave, out]
    simp [RegFile.receive]
  rw [unchanged]
  exact rest w on w on start

/-- A read delivers some byte and changes nothing. -/
theorem read {g : Int32 → Program Io β} {reg : Register} (direct : Drv2605l.Direct reg = true)
    (rest : ∀ v : UInt8, Moves ax (g (Int32.ofNat v.toNat)) d e) :
    Moves ax (Drv2605l.read ax reg >>= g) d e := by
  rw [Drv2605l.read_eq direct, bind_assoc]
  refine transferRead (a := reg.addr.toUInt8) rfl rfl fun w on => ?_
  rw [readValue_reply on reg]
  exact rest _

/-- A transfer leaves the drive its register file shows. -/
theorem transferWrite {call : BusCall} (slave : call.slave = 0x5a)
    (effect : ∀ w : World, w.drive ax = d →
      Drive.ofRegs d.run (RegFile.receive Drv2605l.readOnly call.out (w.board.chip ax)) = e) :
    Moves ax (transfer (.drv ax) call) d e := by
  intro w on start
  rintro r w' ⟨rfl, rfl⟩
  refine ⟨?_, ?_, fun ax' other => ?_, ⟨fun _ _ => rfl, rfl, rfl, rfl⟩⟩
  · rw [World.On, after_chip on slave]
    exact on
  · rw [← effect w start, ← start, World.drive, chip_after on slave]
    rfl
  · simp only [World.drive, chip_after_other on slave other]

/-- A write of one register. -/
theorem write {reg : Register} {val : Int} (direct : Drv2605l.Direct reg = true)
    (nonneg : 0 ≤ val) :
    Moves ax (Drv2605l.write ax reg val) d (d.poke reg.index (UInt8.ofInt val)) := by
  rw [Drv2605l.write_eq direct nonneg]
  refine bind (transferWrite rfl fun w start => ?_) fun r => ret _
  subst start
  exact Drive.ofRegs_store reg.index (UInt8.ofInt val) (w.flag (.run ax)) (w.board.chip ax)

theorem updateAllReg (v : List UInt8) : Moves ax (Drv2605l.updateAllReg ax v) d (d.load v) := by
  by_cases len : v.length = Drv2605l.wRegLen
  · rw [Drv2605l.updateAllReg_eq len]
    refine bind (transferWrite rfl fun w start => ?_) fun r => ret _
    subst start
    have taken : (v.take 32).length = 32 := by
      rw [List.length_take, len]
      rfl
    have stored : ∀ k < 32, Drv2605l.readOnly (1 + k) = false →
        RegFile.store Drv2605l.readOnly 1 (v.take 32) (w.board.chip ax) (1 + k) = v.getD k 0 := by
      intro k hk writable
      rw [RegFile.store_add (by omega) writable]
      simp [List.getD_eq_getElem?_getD, hk]
    change Drive.ofRegs _ (RegFile.store Drv2605l.readOnly 1 (v.take 32) _) = _
    simp only [Drive.load, if_pos len, Drive.ofRegs]
    rw [stored 0 (by omega) rfl, stored 1 (by omega) rfl, stored 11 (by omega) rfl]
  · rw [Drv2605l.updateAllReg_mismatch len, Drive.load, if_neg len]
    exact ret _

theorem getAllReg : Moves ax (Drv2605l.getAllReg ax) d d := by
  rw [Drv2605l.getAllReg_eq]
  exact transferRead rfl rfl fun _ _ => ret _

theorem setToLraDefault : Moves ax (Drv2605l.setToLraDefault ax) d d.reset := by
  have put : ∀ {d : Drive} {reg : Register} {val : Int}, Drv2605l.Direct reg = true → 0 ≤ val →
      Moves ax (Drv2605l.write ax reg val) d (d.poke reg.index (UInt8.ofInt val)) :=
    fun direct nonneg => write direct nonneg
  refine of_eq (bind (put rfl ?_) fun _ => bind (put rfl ?_) fun _ => bind (put rfl ?_) fun _ =>
    bind (put rfl ?_) fun _ => bind (put rfl ?_) fun _ => bind (put rfl ?_) fun _ =>
    bind (put rfl ?_) fun _ => bind (put rfl ?_) fun _ => bind (put rfl ?_) fun _ =>
    bind (put rfl ?_) fun _ => bind (put rfl ?_) fun _ => bind (put rfl ?_) fun _ => ret _) ?_
  all_goals first | decide | rfl

theorem ready (b : Bool) : Moves ax (Drv2605l.ready ax b) d { d with standby := !b } := by
  refine read rfl fun v => ?_
  obtain ⟨nonneg, byte, bit, _⟩ := Drv2605l.readyByte_spec v b
  rw [if_neg nonneg]
  refine bind (of_eq (write rfl byte) ?_) fun _ => ret _
  rw [show Drv2605l.mode.index = 1 from rfl, Drive.poke, if_pos rfl, bit]

theorem run (b : Bool) : Moves ax (Drv2605l.run ax b) d (d.setRun b) := by
  refine getRun ?_
  by_cases same : d.run = b
  · rw [Drive.setRun, if_pos same, if_neg (by simp [same])]
    exact ret _
  · rw [Drive.setRun, if_neg same, if_pos (by simpa using same)]
    have byte : 0 ≤ b.toInt ∧ UInt8.ofInt b.toInt = b.toUInt8 := by
      cases b <;> decide
    refine bind (ready b) fun _ => bind (write rfl byte.1) fun _ => of_eq (storeRun b) ?_
    rw [byte.2]
    rfl

theorem updateRTP (cmd : UInt8) : Moves ax (Drv2605l.updateRTP ax cmd) d { d with rtp := cmd } := by
  refine bind (of_eq (write rfl (Int.natCast_nonneg _)) ?_) fun _ => ret _
  rw [ofInt_toNat]
  rfl

/-- Reading a report changes nothing. -/
theorem getCalibrationInfo : Moves ax (Drv2605l.getCalibrationInfo ax) d d := by
  refine read rfl fun _ => read rfl fun _ => ?_
  refine bind (e := d) ?_ fun _ => read rfl fun _ => read rfl fun _ => ret _
  refine read rfl fun v => ?_
  split
  · exact ret _
  · exact read rfl fun _ => ret _

theorem runAutoCalibration : Moves ax (Drv2605l.runAutoCalibration ax) d d.calibrate := by
  refine read rfl fun v => ?_
  obtain ⟨byte, bit, _⟩ := Drv2605l.resumeByte_spec v
  refine bind (write rfl (by decide)) fun _ => bind (run true) fun _ => bind (run false) fun _ => ?_
  refine bind (of_eq (write rfl byte) ?_) fun _ => getCalibrationInfo
  rw [show Drv2605l.mode.index = 1 from rfl, Drive.poke, if_pos rfl, bit]
  cases d with
  | mk run standby go rtp =>
      cases run
      · rfl
      · rfl

theorem getRt : Moves ax (Drv2605l.getRt ax) d d :=
  read rfl fun _ => read rfl fun _ => ret _

end Moves

/-! ### Operations of the controller -/

/-- `p` takes the drives from `ds` to `es` and changes nothing else but the multiplexer. -/
def Takes {α : Type} (p : Program Io α) (ds es : Axis → Drive) : Prop :=
  ∀ w : World, w.drive = ds → p.wp ideal (fun _ w' => w'.drive = es ∧ w.Frame w') w

namespace Takes

variable {α β : Type} {p : Program Io α} {f : α → Program Io β} {ds es ks : Axis → Drive}

theorem ret (a : α) : Takes (.ret a) ds ds := fun w start => ⟨start, .refl w⟩

theorem bind (first : Takes p ds es) (rest : ∀ a, Takes (f a) es ks) : Takes (p >>= f) ds ks := by
  intro w start
  rw [Program.wp_bind]
  refine Program.wp_mono (first w start) ?_
  rintro a w' ⟨middle, frame⟩
  refine Program.wp_mono (rest a w' middle) ?_
  rintro b w'' ⟨final, frame'⟩
  exact ⟨final, frame.trans frame'⟩

theorem of_eq (h : Takes p ds es) (eq : ∀ ax, es ax = ks ax) : Takes p ds ks :=
  funext eq ▸ h

/-- The accelerometer is not a drive. -/
theorem acc (c : AccCall) : Takes (host (.acc c)) ds ds := by
  intro w start r w' h
  obtain rfl : w' = w := h
  exact ⟨start, .refl w'⟩

theorem getRun {ax : Axis} {g : Bool → Program Io β} (rest : Takes (g (ds ax).run) ds es) :
    Takes (Drv2605l.getRun ax >>= g) ds es := by
  intro w start
  rintro r w' ⟨rfl, rfl⟩
  subst start
  exact rest w' rfl

theorem select {ax : Axis} (c : Char) (axis : axisOf c = some ax) {g : Unit → Program Io α}
    {Q : α → World → Prop} (w : World)
    (rest : ∀ w' : World, w'.On ax → w'.drive = w.drive → w.Frame w' → (g ()).wp ideal Q w') :
    (Controller.changeDrvCh c >>= g).wp ideal Q w := by
  simp only [Controller.changeDrvCh, axis, Tca9548a.write_control]
  rintro r w' ⟨rfl, rfl⟩ u w'' rfl
  exact rest _ rfl rfl ⟨fun _ _ => rfl, rfl, rfl, rfl⟩

/-- Select a channel, act on its drive, go on. -/
theorem visit {ax : Axis} {body : Program Io α} {e : Drive} (c : Char)
    (axis : axisOf c = some ax) (work : Moves ax body (ds ax) e)
    (rest : ∀ a, Takes (f a) (Function.update ds ax e) es) :
    Takes (Controller.changeDrvCh c >>= fun _ => body >>= f) ds es := by
  intro w start
  refine select c axis w fun w₁ on same frame => ?_
  rw [Program.wp_bind]
  refine Program.wp_mono (work w₁ on (by rw [same, start])) ?_
  rintro a w₂ ⟨_, moved, others, frame'⟩
  have drives : w₂.drive = Function.update ds ax e := by
    funext ax'
    by_cases h : ax' = ax
    · subst h
      rw [moved, Function.update_self]
    · rw [others ax' h, same, start, Function.update_of_ne h]
  refine Program.wp_mono (rest a w₂ drives) ?_
  rintro b w₃ ⟨final, frame''⟩
  exact ⟨final, (frame.trans frame').trans frame''⟩

theorem visit_last {ax : Axis} {body : Program Io α} {e : Drive} (c : Char)
    (axis : axisOf c = some ax) (work : Moves ax body (ds ax) e) :
    Takes (Controller.changeDrvCh c >>= fun _ => body) ds (Function.update ds ax e) := by
  rw [← bind_pure body]
  exact visit c axis work fun a => ret a

/-- Visit the three drives in turn and go on with what they answered. -/
theorem round {γ δ : Type} {bodyX : Program Io α} {bodyY : Program Io β} {bodyZ : Program Io γ}
    {g : α → β → γ → Program Io δ} {ds' : Axis → Drive} (x : Moves .x bodyX (ds .x) (ds' .x))
    (y : Moves .y bodyY (ds .y) (ds' .y)) (z : Moves .z bodyZ (ds .z) (ds' .z))
    (rest : ∀ a b c, Takes (g a b c) ds' es) :
    Takes (do
      Controller.changeDrvCh 'x'
      let a ← bodyX
      Controller.changeDrvCh 'y'
      let b ← bodyY
      Controller.changeDrvCh 'z'
      let c ← bodyZ
      g a b c) ds es := by
  have visited : Function.update (Function.update (Function.update ds .x (ds' .x)) .y (ds' .y))
      .z (ds' .z) = ds' := by
    funext ax
    cases ax <;> rfl
  refine visit 'x' rfl x fun a => visit 'y' rfl y fun b => visit 'z' rfl z fun c => ?_
  rw [visited]
  exact rest a b c

end Takes

namespace Controller

variable {ds : Axis → Drive}

theorem driveAxis_takes (toRun : Bool) (ax : Axis) :
    Takes (driveAxis toRun ax) ds (Function.update ds ax ((ds ax).setRun toRun)) := by
  refine Takes.getRun ?_
  by_cases same : (ds ax).run = toRun
  · rw [if_neg (by simp [same]), Drive.setRun, if_pos same, Function.update_eq_self]
    exact Takes.ret _
  · rw [if_pos (by simpa using same)]
    exact Takes.visit_last ax.char (axisOf_char ax) (Moves.run toRun)

theorem driveAxes_takes (toRun : Bool) :
    Takes (do driveAxis toRun .x; driveAxis toRun .y; driveAxis toRun .z) ds
      fun ax => (ds ax).setRun toRun := by
  refine Takes.of_eq ((driveAxis_takes toRun .x).bind fun _ =>
    (driveAxis_takes toRun .y).bind fun _ => driveAxis_takes toRun .z) ?_
  intro ax
  cases ax <;> rfl

theorem runCalibration_takes : Takes runCalibration ds fun ax => (ds ax).calibrate := by
  refine (Takes.acc _).bind fun _ => ?_
  exact Takes.round Moves.runAutoCalibration Moves.runAutoCalibration Moves.runAutoCalibration
    fun _ _ _ => (Takes.acc _).bind fun _ => Takes.ret _

theorem createDrives_takes : Takes createDrives ds fun ax => { ds ax with run := false } := by
  intro w start
  rintro r w' rfl r w' rfl r w' rfl
  subst start
  refine ⟨?_, ⟨fun f notRun => ?_, rfl, rfl, rfl⟩⟩
  · funext ax
    cases ax <;> rfl
  · simp [World.setFlag, notRun]

theorem init_takes : Takes init ds fun ax => Call.init.effect ax (ds ax) := by
  refine (Takes.acc _).bind fun _ => createDrives_takes.bind fun _ => (Takes.acc _).bind fun _ => ?_
  exact Takes.round Moves.setToLraDefault Moves.setToLraDefault Moves.setToLraDefault
    fun _ _ _ => runCalibration_takes.bind fun _ => Takes.acc _

/-- The program of every call does to the drives what its effect says. -/
theorem Call.takes (c : Call) : Takes c.code ds fun ax => c.effect ax (ds ax) := by
  cases c with
  | init => exact init_takes
  | updateAllRtp val =>
      obtain ⟨x, y, z⟩ := val
      refine Takes.of_eq (Takes.visit 'x' rfl (Moves.updateRTP x) fun _ =>
        Takes.visit 'y' rfl (Moves.updateRTP y) fun _ =>
        Takes.visit_last 'z' rfl (Moves.updateRTP z)) ?_
      intro ax
      cases ax <;> rfl
  | updateRtp val c =>
      cases axis : axisOf c with
      | none =>
          simp only [Call.code, Controller.updateRtp, Call.effect, axis]
          exact Takes.ret _
      | some ax =>
          simp only [Call.code, Controller.updateRtp, Call.effect, axis]
          refine Takes.of_eq (Takes.visit_last c axis (Moves.updateRTP val)) ?_
          intro ax'
          by_cases h : ax' = ax
          · subst h
            simp
          · simp [h, Ne.symm h]
  | changeDrvCh c =>
      cases axis : axisOf c with
      | none =>
          simp only [Call.code, Controller.changeDrvCh, axis]
          exact Takes.ret _
      | some ax =>
          rw [← Program.bind_ret (Call.code _)]
          intro w start
          refine Takes.select c axis w fun w' _ same frame => ?_
          exact ⟨same.trans start, frame⟩
  | runDrv => exact driveAxes_takes true
  | pauseDrv => exact driveAxes_takes false
  | runCalibration => exact runCalibration_takes
  | getAllRegisters =>
      exact Takes.round Moves.getAllReg Moves.getAllReg Moves.getAllReg
        fun _ _ _ => (Takes.acc _).bind fun _ => Takes.ret _
  | getRt =>
      exact Takes.round Moves.getRt Moves.getRt Moves.getRt fun _ _ _ => Takes.ret _
  | updateAllRegisters x y z accRw =>
      exact Takes.round (Moves.updateAllReg x) (Moves.updateAllReg y) (Moves.updateAllReg z)
        fun _ _ _ => Takes.acc _
  | updateRegisters target val =>
      simp only [Call.code, Controller.updateRegisters, Call.effect]
      split_ifs with x y z acc
      · refine Takes.of_eq (Takes.visit_last 'x' rfl (Moves.updateAllReg val)) ?_
        intro ax
        subst x
        cases ax <;> rfl
      · refine Takes.of_eq (Takes.visit_last 'y' rfl (Moves.updateAllReg val)) ?_
        intro ax
        subst y
        cases ax <;> rfl
      · refine Takes.of_eq (Takes.visit_last 'z' rfl (Moves.updateAllReg val)) ?_
        intro ax
        subst z
        cases ax <;> rfl
      · refine Takes.of_eq (Takes.acc _) ?_
        intro ax
        cases ax <;> simp [pick, x, y, z]
      · refine Takes.of_eq (Takes.ret _) ?_
        intro ax
        cases ax <;> simp [pick, x, y, z]

end Controller

end Lra
