import Lra.Controller.Operations
import Lra.Host.Flags

/-!
# What an operation does to the cached states

Every operation of the controller changes the flags by a function of these alone,
`Call.flags`, whatever the bus answers: `Run` records the wish even if the drive never
heard of it, and each operation treats the three drives alike.
-/

namespace Lra

open Effect

variable {F : Flags} {ax : Axis}

theorem checked_marks (iaddr : UInt64) (plain : Program Io BusReply) {smbus : Program Io BusReply}
    (h : Marks faulty smbus F F) :
    Marks faulty (Drv2605l.adapter.checked iaddr plain smbus) F F := by
  unfold I2cAdapter.checked
  split
  · exact Marks.ret _
  · change Marks faulty (if Drv2605l.adapter.i2cSmbusCheckFail then pure ⟨0, []⟩ else smbus) F F
    split
    · exact Marks.ret _
    · exact h

namespace Drv2605l

theorem write_marks (reg : Register) (val : Int) : Marks faulty (write ax reg val) F F := by
  unfold write
  split
  · exact Marks.ret _
  · exact (checked_marks _ _ (Marks.transfer _ _)).bind fun _ => Marks.ret _

theorem read_marks (reg : Register) : Marks faulty (read ax reg) F F := by
  refine Marks.bind ?_ fun _ => Marks.ret _
  refine (checked_marks _ _ (Marks.transfer _ _)).bind fun _ => ?_
  dsimp only
  split <;> exact Marks.ret _

theorem getAllReg_marks : Marks faulty (getAllReg ax) F F := by
  rw [getAllReg_eq]
  exact (Marks.transfer _ _).bind fun _ => Marks.ret _

theorem updateAllReg_marks (v : List UInt8) : Marks faulty (updateAllReg ax v) F F := by
  by_cases len : v.length = wRegLen
  · rw [updateAllReg_eq len]
    exact (Marks.transfer _ _).bind fun _ => Marks.ret _
  · rw [updateAllReg_mismatch len]
    exact Marks.ret _

theorem setToLraDefault_marks : Marks faulty (setToLraDefault ax) F F := by
  have w : ∀ reg val, Marks faulty (write ax reg val) F F := write_marks
  refine (w _ _).bind fun _ => (w _ _).bind fun _ => (w _ _).bind fun _ => (w _ _).bind fun _ => ?_
  refine (w _ _).bind fun _ => (w _ _).bind fun _ => (w _ _).bind fun _ => (w _ _).bind fun _ => ?_
  refine (w _ _).bind fun _ => (w _ _).bind fun _ => (w _ _).bind fun _ => (w _ _).bind fun _ => ?_
  exact Marks.ret _

theorem ready_marks (b : Bool) : Marks faulty (ready ax b) F F := by
  refine (read_marks mode).bind fun val => ?_
  split
  · exact Marks.ret _
  · exact (write_marks _ _).bind fun _ => Marks.ret _

/-- The cached state becomes the wish even if neither transfer succeeds. -/
theorem run_marks (b : Bool) : Marks faulty (run ax b) F (Function.update F (.run ax) b) := by
  apply Marks.load
  split
  · exact (ready_marks b).bind fun _ => (write_marks _ _).bind fun _ => Marks.host _
  · next already =>
      have same : F (.run ax) = b := by simpa using already
      apply (Marks.ret _).of_eq
      rw [← same, Function.update_eq_self]

theorem updateRTP_marks (cmd : UInt8) : Marks faulty (updateRTP ax cmd) F F :=
  (write_marks _ _).bind fun _ => Marks.ret _

theorem backEmf_marks : Marks faulty (backEmf ax) F F := by
  refine (read_marks _).bind fun val => ?_
  split
  · exact Marks.ret _
  · exact (read_marks _).bind fun _ => Marks.ret _

theorem getCalibrationInfo_marks : Marks faulty (getCalibrationInfo ax) F F := by
  refine (read_marks _).bind fun _ => (read_marks _).bind fun _ => ?_
  refine backEmf_marks.bind fun _ => (read_marks _).bind fun _ => ?_
  exact (read_marks _).bind fun _ => Marks.ret _

/-- A calibration starts and stops the drive. -/
theorem runAutoCalibration_marks :
    Marks faulty (runAutoCalibration ax) F (Function.update F (.run ax) false) := by
  refine (read_marks _).bind fun _ => (write_marks _ _).bind fun _ => ?_
  refine (run_marks true).bind fun _ => (run_marks false).bind fun _ => ?_
  rw [Function.update_idem]
  exact (write_marks _ _).bind fun _ => getCalibrationInfo_marks

theorem getRt_marks : Marks faulty (getRt ax) F F :=
  (read_marks _).bind fun _ => (read_marks _).bind fun _ => Marks.ret _

end Drv2605l

namespace Controller

/-- What a call does to the cached state of each drive. -/
def Call.runs : Call → Bool → Bool
  | .init, _ => false
  | .runDrv, _ => true
  | .pauseDrv, _ => false
  | .runCalibration, _ => false
  | _, run => run

def Call.flags (c : Call) (F : Flags) : Flags
  | .run ax => c.runs (F (.run ax))
  | f => F f

/-- A call that leaves each cached state leaves the flags. -/
theorem Call.flags_eq_self {c : Call} (keeps : ∀ b, c.runs b = b) (F : Flags) : c.flags F = F := by
  funext f
  cases f <;> first | rfl | exact keeps _

/-- The three cached states set to one value, axis by axis. -/
def setRuns (b : Bool) (F : Flags) : Flags :=
  Function.update (Function.update (Function.update F (.run .x) b) (.run .y) b) (.run .z) b

theorem setRuns_eq {c : Call} {b : Bool} (sets : ∀ run, c.runs run = b) (F : Flags) :
    setRuns b F = c.flags F := by
  funext f
  cases f with
  | run ax => cases ax <;> simp [setRuns, Call.flags, sets]
  | _ => rfl

theorem setRuns_setRuns (a b : Bool) (F : Flags) : setRuns a (setRuns b F) = setRuns a F := by
  funext f
  cases f with
  | run ax => cases ax <;> simp [setRuns]
  | _ => rfl

theorem changeDrvCh_marks (c : Char) : Marks faulty (changeDrvCh c) F F := by
  unfold changeDrvCh
  split
  · rw [Tca9548a.write_control]
    refine ((Marks.transfer _ _).bind fun _ => Marks.ret _).bind fun _ => ?_
    exact Marks.setTcaCh _
  · exact Marks.ret _

/-- Select a channel, work on it, go on. -/
theorem visit_marks {α β : Type} {c : Char} {body : Program Io α} {k : α → Program Io β}
    {F G H : Flags} (work : Marks faulty body F G) (rest : ∀ a, Marks faulty (k a) G H) :
    Marks faulty (changeDrvCh c >>= fun _ => body >>= k) F H :=
  (changeDrvCh_marks c).bind fun _ => work.bind rest

theorem driveAxis_marks (toRun : Bool) (ax : Axis) :
    Marks faulty (driveAxis toRun ax) F (Function.update F (.run ax) toRun) := by
  apply Marks.load
  split
  · exact (changeDrvCh_marks _).bind fun _ => Drv2605l.run_marks toRun
  · next already =>
      have same : F (.run ax) = toRun := by simpa using already
      apply (Marks.ret _).of_eq
      rw [← same, Function.update_eq_self]

/-- The three axes of `RunDrv` and `PauseDrv`, one after the other. -/
theorem driveAxes_marks (toRun : Bool) :
    Marks faulty (do driveAxis toRun .x; driveAxis toRun .y; driveAxis toRun .z) F
      (setRuns toRun F) :=
  (driveAxis_marks toRun .x).bind fun _ => (driveAxis_marks toRun .y).bind fun _ =>
    driveAxis_marks toRun .z

theorem runCalibration_marks : Marks faulty runCalibration F (setRuns false F) := by
  refine (Marks.host _).bind fun _ => ?_
  refine visit_marks Drv2605l.runAutoCalibration_marks fun _ => ?_
  refine visit_marks Drv2605l.runAutoCalibration_marks fun _ => ?_
  refine visit_marks Drv2605l.runAutoCalibration_marks fun _ => ?_
  exact (Marks.host _).bind fun _ => Marks.ret _

theorem createDrives_marks : Marks faulty createDrives F (setRuns false F) :=
  (Marks.host _).bind fun _ => (Marks.host _).bind fun _ => Marks.host _

theorem init_marks : Marks faulty init F (setRuns false F) := by
  refine (Marks.host _).bind fun _ => createDrives_marks.bind fun _ => ?_
  refine (Marks.host _).bind fun _ => ?_
  refine visit_marks Drv2605l.setToLraDefault_marks fun _ => ?_
  refine visit_marks Drv2605l.setToLraDefault_marks fun _ => ?_
  refine visit_marks Drv2605l.setToLraDefault_marks fun _ => ?_
  refine runCalibration_marks.bind fun _ => (Marks.host _).of_eq ?_
  exact setRuns_setRuns _ _ _

theorem updateRtp_marks (val : UInt8) (c : Char) : Marks faulty (updateRtp val c) F F := by
  unfold updateRtp
  split
  · exact (changeDrvCh_marks _).bind fun _ => Drv2605l.updateRTP_marks _
  · exact Marks.ret _

theorem updateRegisters_marks (target : String) (val : List UInt8) :
    Marks faulty (updateRegisters target val) F F := by
  have onDrv : ∀ c ax, Marks faulty (do changeDrvCh c; Drv2605l.updateAllReg ax val) F F :=
    fun c ax => (changeDrvCh_marks c).bind fun _ => Drv2605l.updateAllReg_marks val
  unfold updateRegisters
  split_ifs
  · exact onDrv _ _
  · exact onDrv _ _
  · exact onDrv _ _
  · exact Marks.host _
  · exact Marks.ret _

/-- A call does to the flags what `Call.flags` says, whatever the bus answers. -/
theorem Call.marks (c : Call) (F : Flags) : Marks faulty c.code F (c.flags F) := by
  cases c with
  | init => exact init_marks.of_eq (setRuns_eq (c := .init) (fun _ => rfl) F)
  | runDrv => exact (driveAxes_marks true).of_eq (setRuns_eq (c := .runDrv) (fun _ => rfl) F)
  | pauseDrv => exact (driveAxes_marks false).of_eq (setRuns_eq (c := .pauseDrv) (fun _ => rfl) F)
  | runCalibration =>
      exact runCalibration_marks.of_eq (setRuns_eq (c := .runCalibration) (fun _ => rfl) F)
  | changeDrvCh c =>
      exact (changeDrvCh_marks c).of_eq (Call.flags_eq_self (fun _ => rfl) F).symm
  | updateAllRtp val =>
      refine Marks.of_eq ?_ (Call.flags_eq_self (fun _ => rfl) F).symm
      refine visit_marks (Drv2605l.updateRTP_marks _) fun _ => ?_
      refine visit_marks (Drv2605l.updateRTP_marks _) fun _ => ?_
      exact (changeDrvCh_marks _).bind fun _ => Drv2605l.updateRTP_marks _
  | updateRtp val c =>
      exact (updateRtp_marks val c).of_eq (Call.flags_eq_self (fun _ => rfl) F).symm
  | getAllRegisters =>
      refine Marks.of_eq ?_ (Call.flags_eq_self (fun _ => rfl) F).symm
      refine visit_marks Drv2605l.getAllReg_marks fun _ => ?_
      refine visit_marks Drv2605l.getAllReg_marks fun _ => ?_
      refine visit_marks Drv2605l.getAllReg_marks fun _ => ?_
      exact (Marks.host _).bind fun _ => Marks.ret _
  | getRt =>
      refine Marks.of_eq ?_ (Call.flags_eq_self (fun _ => rfl) F).symm
      refine visit_marks Drv2605l.getRt_marks fun _ => ?_
      refine visit_marks Drv2605l.getRt_marks fun _ => ?_
      exact visit_marks Drv2605l.getRt_marks fun _ => Marks.ret _
  | updateAllRegisters x y z accRw =>
      refine Marks.of_eq ?_ (Call.flags_eq_self (fun _ => rfl) F).symm
      refine visit_marks (Drv2605l.updateAllReg_marks _) fun _ => ?_
      refine visit_marks (Drv2605l.updateAllReg_marks _) fun _ => ?_
      exact visit_marks (Drv2605l.updateAllReg_marks _) fun _ => Marks.host _
  | updateRegisters target val =>
      exact (updateRegisters_marks target val).of_eq (Call.flags_eq_self (fun _ => rfl) F).symm

end Controller

end Lra
