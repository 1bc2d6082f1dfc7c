import Lra.Controller.Operations
import Lra.Effect.Protocol
import Mathlib.Tactic.SplitIfs

/-!
# One channel after the other

Every operation of the controller selects a channel, records it in `tca_ch_` and then
transfers on that channel's drive alone, until it selects the next. `Admits` lists what a
protocol has to permit for that; every sequence of operations follows every such protocol.
-/

namespace Lra

open Effect

variable {τ : Type} {P : Protocol Io τ} {t : τ} {ax : Axis}

/-- In `t` everything but a selection is permitted, and transfers on the drive of `ax`. -/
structure Attends (P : Protocol Io τ) (ax : Axis) (t : τ) : Prop where
  host : ∀ o r, P t (.host o) r t
  transfer : ∀ {call : BusCall} (r : BusReply), call.slave = 0x5a → P t (.bus (.drv ax) call) r t

/-- A protocol that permits to select a channel while none is in use, to record it, and to
stay there. -/
structure Admits (P : Protocol Io τ) (there : Axis → τ) (Idle : τ → Prop) : Prop where
  host : ∀ {t}, Idle t → ∀ o r, P t (.host o) r t
  select : ∀ {t}, Idle t → ∀ ax r, ∃ u, P t (.bus .tca (Tca9548a.selectCall (drvCh ax))) r u ∧
    ∀ r', P u (.setTcaCh ax.char) r' (there ax)
  transfer : ∀ {ax} {call : BusCall} (r : BusReply), call.slave = 0x5a →
    P (there ax) (.bus (.drv ax) call) r (there ax)
  idle : ∀ ax, Idle (there ax)

/-! ### The drives' functions stay on their channel -/

theorem host_keeps {o : HostOp} (permitted : ∀ r, P t (.host o) r t) : (host o).Keeps P t :=
  Program.keeps_op permitted fun r => Program.keeps_ret r

section Drv

theorem transfer_keeps (h : Attends P ax t) {call : BusCall} (slave : call.slave = 0x5a) :
    (transfer (.drv ax) call).Keeps P t :=
  Program.keeps_op (fun r => h.transfer r slave) fun r => Program.keeps_ret r

/-- The checks of an access add no transfer of their own. -/
theorem checked_keeps (iaddr : UInt64) (plain : Program Io BusReply) {smbus : Program Io BusReply}
    (smbusKeeps : smbus.Keeps P t) : (Drv2605l.adapter.checked iaddr plain smbus).Keeps P t := by
  unfold I2cAdapter.checked
  split
  · exact Program.keeps_ret _
  · change (if Drv2605l.adapter.i2cSmbusCheckFail then pure ⟨0, []⟩ else smbus).Keeps P t
    split
    · exact Program.keeps_ret _
    · exact smbusKeeps

namespace Drv2605l

theorem write_keeps (h : Attends P ax t) (reg : Register) (val : Int) :
    (write ax reg val).Keeps P t := by
  unfold write
  split
  · exact Program.keeps_ret _
  · refine (checked_keeps _ _ (transfer_keeps h ?_)).bind fun r => Program.keeps_ret _
    rfl

theorem read_keeps (h : Attends P ax t) (reg : Register) : (read ax reg).Keeps P t := by
  refine Program.Keeps.bind ?_ fun r => Program.keeps_ret _
  refine (checked_keeps _ _ (transfer_keeps h ?_)).bind fun r => ?_
  · rfl
  · dsimp only
    split <;> exact Program.keeps_ret _

theorem getAllReg_keeps (h : Attends P ax t) : (getAllReg ax).Keeps P t := by
  rw [getAllReg_eq]
  exact (transfer_keeps h rfl).bind fun r => Program.keeps_ret _

theorem updateAllReg_keeps (h : Attends P ax t) (v : List UInt8) :
    (updateAllReg ax v).Keeps P t := by
  by_cases len : v.length = wRegLen
  · rw [updateAllReg_eq len]
    exact (transfer_keeps h rfl).bind fun r => Program.keeps_ret _
  · rw [updateAllReg_mismatch len]
    exact Program.keeps_ret _

theorem setToLraDefault_keeps (h : Attends P ax t) :
    (setToLraDefault ax).Keeps P t := by
  have w := write_keeps h
  refine (w _ _).bind fun _ => (w _ _).bind fun _ => (w _ _).bind fun _ => (w _ _).bind fun _ => ?_
  refine (w _ _).bind fun _ => (w _ _).bind fun _ => (w _ _).bind fun _ => (w _ _).bind fun _ => ?_
  refine (w _ _).bind fun _ => (w _ _).bind fun _ => (w _ _).bind fun _ => (w _ _).bind fun _ => ?_
  exact Program.keeps_ret _

theorem ready_keeps (h : Attends P ax t) (b : Bool) : (ready ax b).Keeps P t := by
  refine (read_keeps h mode).bind fun val => ?_
  split
  · exact Program.keeps_ret _
  · exact (write_keeps h _ _).bind fun _ => Program.keeps_ret _

theorem getRun_keeps (permitted : ∀ o r, P t (.host o) r t) : (getRun ax).Keeps P t :=
  host_keeps (permitted _)

theorem run_keeps (h : Attends P ax t) (b : Bool) : (run ax b).Keeps P t := by
  refine (getRun_keeps h.host).bind fun cached => ?_
  split
  · refine (ready_keeps h b).bind fun _ => (write_keeps h _ _).bind fun _ => ?_
    exact host_keeps (h.host _)
  · exact Program.keeps_ret _

theorem updateRTP_keeps (h : Attends P ax t) (cmd : UInt8) :
    (updateRTP ax cmd).Keeps P t :=
  (write_keeps h _ _).bind fun _ => Program.keeps_ret _

theorem backEmf_keeps (h : Attends P ax t) : (backEmf ax).Keeps P t := by
  refine (read_keeps h _).bind fun val => ?_
  split
  · exact Program.keeps_ret _
  · exact (read_keeps h _).bind fun _ => Program.keeps_ret _

theorem getCalibrationInfo_keeps (h : Attends P ax t) :
    (getCalibrationInfo ax).Keeps P t := by
  refine (read_keeps h _).bind fun _ => (read_keeps h _).bind fun _ => ?_
  refine (backEmf_keeps h).bind fun _ => (read_keeps h _).bind fun _ => ?_
  exact (read_keeps h _).bind fun _ => Program.keeps_ret _

theorem runAutoCalibration_keeps (h : Attends P ax t) :
    (runAutoCalibration ax).Keeps P t := by
  refine (read_keeps h _).bind fun _ => (write_keeps h _ _).bind fun _ => ?_
  refine (run_keeps h _).bind fun _ => (run_keeps h _).bind fun _ => ?_
  exact (write_keeps h _ _).bind fun _ => getCalibrationInfo_keeps h

theorem getRt_keeps (h : Attends P ax t) : (getRt ax).Keeps P t :=
  (read_keeps h _).bind fun _ => (read_keeps h _).bind fun _ => Program.keeps_ret _

end Drv2605l

end Drv

/-! ### The controller's operations -/

namespace Controller

/-- The program may start wherever no operation is in progress, and ends so. -/
def Visits (P : Protocol Io τ) (Idle : τ → Prop) {α : Type} (p : Program Io α) : Prop :=
  ∀ t, Idle t → p.Follows P (fun u _ => Idle u) t

/-- The calls of a list, one after the other. -/
def inOrder : List Call → Program Io Unit
  | [] => pure ()
  | c :: rest => do
    let _ ← c.code
    inOrder rest

section Operations

variable {there : Axis → τ} {Idle : τ → Prop} {α : Type}

/-- The last stretch of an operation, on one channel. -/
theorem idle_of_keeps {p : Program Io α} (keeps : p.Keeps P t) (idle : Idle t) :
    p.Follows P (fun u _ => Idle u) t :=
  keeps.mono fun u _ hu => by
    subst hu
    exact idle

theorem createDrives_keeps (permitted : ∀ o r, P t (.host o) r t) : createDrives.Keeps P t := by
  have store : ∀ ax b, (host (.store (.run ax) b)).Keeps P t := fun ax b =>
    host_keeps (permitted _)
  exact (store _ _).bind fun _ => (store _ _).bind fun _ => store _ _

variable (h : Admits P there Idle)
include h

theorem attends (ax : Axis) : Attends P ax (there ax) := ⟨h.host (h.idle ax), h.transfer⟩

theorem changeDrvCh_follows {f : Unit → Program Io α} {Q : τ → α → Prop} (c : Char)
    (axis : axisOf c = some ax) (idle : Idle t) (rest : (f ()).Follows P Q (there ax)) :
    (changeDrvCh c >>= f).Follows P Q t := by
  simp only [changeDrvCh, axis, Tca9548a.write_control]
  intro r
  obtain ⟨u, selected, named⟩ := h.select idle ax r
  exact ⟨u, selected, fun r' => ⟨_, named r', rest⟩⟩

/-- Select a channel, work on it, go on. -/
theorem visit {β γ : Type} {body : Program Io β} {f : β → Program Io γ} {Q : τ → γ → Prop}
    (c : Char) (axis : axisOf c = some ax) (idle : Idle t) (work : body.Keeps P (there ax))
    (rest : ∀ b, (f b).Follows P Q (there ax)) :
    (changeDrvCh c >>= fun _ => body >>= f).Follows P Q t :=
  changeDrvCh_follows h c axis idle (work.follows_bind rest)

theorem visit_last {body : Program Io α} (c : Char) (axis : axisOf c = some ax) (idle : Idle t)
    (work : body.Keeps P (there ax)) :
    (changeDrvCh c >>= fun _ => body).Follows P (fun u _ => Idle u) t :=
  changeDrvCh_follows h c axis idle (idle_of_keeps work (h.idle ax))

/-- Work on the three channels in turn and go on from the last. -/
theorem round {β γ δ ε : Type} {bodyX : Program Io β} {bodyY : Program Io γ}
    {bodyZ : Program Io δ} {g : β → γ → δ → Program Io ε} {Q : τ → ε → Prop} (idle : Idle t)
    (x : bodyX.Keeps P (there .x)) (y : bodyY.Keeps P (there .y)) (z : bodyZ.Keeps P (there .z))
    (rest : ∀ a b c, (g a b c).Follows P Q (there .z)) :
    (do
      changeDrvCh 'x'
      let a ← bodyX
      changeDrvCh 'y'
      let b ← bodyY
      changeDrvCh 'z'
      let c ← bodyZ
      g a b c : Program Io ε).Follows P Q t :=
  visit h 'x' rfl idle x fun a => visit h 'y' rfl (h.idle .x) y fun b =>
    visit h 'z' rfl (h.idle .y) z fun c => rest a b c

theorem changeDrvCh_visits (c : Char) : Visits P Idle (changeDrvCh c) := by
  intro t idle
  cases axis : axisOf c with
  | none =>
      simp only [changeDrvCh, axis]
      exact idle
  | some ax =>
      rw [← Program.bind_ret (changeDrvCh c)]
      exact changeDrvCh_follows h c axis idle (h.idle ax)

theorem updateAllRtp_visits (val : RtpCmd) : Visits P Idle (updateAllRtp val) := by
  intro t idle
  have work := fun ax => Drv2605l.updateRTP_keeps (attends h ax)
  refine visit h 'x' rfl idle (work .x _) fun _ => ?_
  refine visit h 'y' rfl (h.idle .x) (work .y _) fun _ => ?_
  exact visit_last h 'z' rfl (h.idle .y) (work .z _)

theorem updateRtp_visits (val : UInt8) (c : Char) : Visits P Idle (updateRtp val c) := by
  intro t idle
  cases axis : axisOf c with
  | none =>
      simp only [updateRtp, axis]
      exact idle
  | some ax =>
      simp only [updateRtp, axis]
      exact visit_last h c axis idle (Drv2605l.updateRTP_keeps (attends h ax) _)

theorem driveAxis_visits (toRun : Bool) (ax : Axis) : Visits P Idle (driveAxis toRun ax) := by
  intro t idle
  refine (Drv2605l.getRun_keeps (h.host idle)).follows_bind fun cached => ?_
  split
  · exact visit_last h ax.char (axisOf_char ax) idle (Drv2605l.run_keeps (attends h ax) _)
  · exact idle

/-- The three axes of `RunDrv` and `PauseDrv`, one after the other. -/
theorem driveAxes_visits (toRun : Bool) :
    Visits P Idle (do driveAxis toRun .x; driveAxis toRun .y; driveAxis toRun .z) := by
  intro t idle
  refine (driveAxis_visits h toRun .x t idle).bind fun u _ hu => ?_
  exact (driveAxis_visits h toRun .y u hu).bind fun v _ hv => driveAxis_visits h toRun .z v hv

theorem runCalibration_visits : Visits P Idle runCalibration := by
  intro t idle
  have work := fun ax => Drv2605l.runAutoCalibration_keeps (attends h ax)
  refine (host_keeps (h.host idle _)).follows_bind fun _ => ?_
  refine round h idle (work .x) (work .y) (work .z) fun _ _ _ => ?_
  refine (host_keeps (h.host (h.idle .z) _)).follows_bind fun _ => ?_
  exact h.idle .z

theorem init_visits : Visits P Idle init := by
  intro t idle
  have work := fun ax => Drv2605l.setToLraDefault_keeps (attends h ax)
  refine (host_keeps (h.host idle _)).follows_bind fun _ => ?_
  refine (createDrives_keeps (h.host idle)).follows_bind fun _ => ?_
  refine (host_keeps (h.host idle _)).follows_bind fun _ => ?_
  refine round h idle (work .x) (work .y) (work .z) fun _ _ _ => ?_
  refine (runCalibration_visits h _ (h.idle .z)).bind fun u _ hu => ?_
  exact idle_of_keeps (host_keeps (h.host hu _)) hu

theorem getAllRegisters_visits : Visits P Idle getAllRegisters := by
  intro t idle
  have work := fun ax => Drv2605l.getAllReg_keeps (attends h ax)
  refine round h idle (work .x) (work .y) (work .z) fun _ _ _ => ?_
  refine (host_keeps (h.host (h.idle .z) _)).follows_bind fun _ => ?_
  exact h.idle .z

theorem getRt_visits : Visits P Idle getRt := by
  intro t idle
  have work := fun ax => Drv2605l.getRt_keeps (attends h ax)
  exact round h idle (work .x) (work .y) (work .z) fun _ _ _ => h.idle .z

theorem updateAllRegisters_visits (x y z accRw : List UInt8) :
    Visits P Idle (updateAllRegisters x y z accRw) := by
  intro t idle
  have work := fun ax => Drv2605l.updateAllReg_keeps (attends h ax)
  refine round h idle (work .x _) (work .y _) (work .z _) fun _ _ _ => ?_
  exact idle_of_keeps (host_keeps (h.host (h.idle .z) _)) (h.idle .z)

theorem updateRegisters_visits (target : String) (val : List UInt8) :
    Visits P Idle (updateRegisters target val) := by
  intro t idle
  have work := fun ax => Drv2605l.updateAllReg_keeps (attends h ax) val
  unfold updateRegisters
  split_ifs
  · exact visit_last h 'x' rfl idle (work .x)
  · exact visit_last h 'y' rfl idle (work .y)
  · exact visit_last h 'z' rfl idle (work .z)
  · exact idle_of_keeps (host_keeps (h.host idle _)) idle
  · exact idle

theorem Call.visits (c : Call) : Visits P Idle c.code := by
  cases c with
  | init => exact init_visits h
  | updateAllRtp val => exact updateAllRtp_visits h val
  | updateRtp val c => exact updateRtp_visits h val c
  | changeDrvCh c => exact changeDrvCh_visits h c
  | runDrv => exact driveAxes_visits h true
  | pauseDrv => exact driveAxes_visits h false
  | runCalibration => exact runCalibration_visits h
  | getAllRegisters => exact getAllRegisters_visits h
  | getRt => exact getRt_visits h
  | updateAllRegisters x y z accRw => exact updateAllRegisters_visits h x y z accRw
  | updateRegisters target val => exact updateRegisters_visits h target val

theorem inOrder_visits (calls : List Call) : Visits P Idle (inOrder calls) := by
  intro t idle
  induction calls generalizing t with
  | nil => exact idle
  | cons c rest ih => exact (Call.visits h c t idle).bind fun u _ hu => ih u hu

end Operations

end Controller

end Lra
