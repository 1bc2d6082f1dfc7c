import Lra.Controller.Cached
import Lra.Controller.Pause
import Lra.Server.Main

/-!
# What a job does to the shared flags

Every job, run to completion, changes the shared flags and the cached states of the
drives by a function of these alone, whether its transfers succeed or not. That
function is `Job.flags`; `Job.marks` connects it to the job's program.
-/

namespace Lra

open Effect

/-- The server's operations, each call of the controller run to completion. -/
def served : Semantics Main World := ideal.along MainOp.impl

/-- The same, whatever becomes of the transfers. -/
def attempted : Semantics Main World := faulty.along MainOp.impl

theorem along_host {sem : Semantics Io World} {o : HostOp} {w w' : World} {r : o.Res} :
    sem.along (S := Main) MainOp.impl (.host o) w r w' ↔ sem (.host o) w r w' := by
  constructor
  · rintro ⟨tr, run⟩
    cases run with
    | op does rest =>
        cases rest
        exact does
  · intro does
    exact ⟨_, .op does (.ret r w')⟩

theorem served_host {o : HostOp} {w w' : World} {r : o.Res} :
    served (.host o) w r w' ↔ o.Does w r w' := along_host

theorem attempted_of_served {o : MainOp} {w w' : World} {r : Main.Res o}
    (h : served o w r w') : attempted o w r w' := by
  obtain ⟨tr, run⟩ := h
  exact ⟨tr, run.mono faulty_of_ideal⟩

theorem served_call {c : Controller.Call} {w w' : World} {r : c.Res}
    (h : served (.call c) w r w') : Completes w c w' := by
  obtain ⟨tr, run⟩ := h
  exact ⟨tr, r, run⟩

/-- The machine on which the server's operations can be run. -/
def server : Handler Main World := bench.along MainOp.impl

theorem server_within_served : server.Within served :=
  bench_within_ideal.along (S := Main) MainOp.impl

theorem server_within_attempted : server.Within attempted :=
  bench_within_faulty.along (S := Main) MainOp.impl

theorem Completes.flags {w w' : World} {c : Controller.Call} (h : Completes w c w') :
    w'.flag = c.flags w.flag := by
  obtain ⟨tr, r, run⟩ := h
  exact (c.marks w.flag).exec rfl (run.mono faulty_of_ideal)

/-! ### Operations of the server -/

/-- What an operation does to the flags. -/
def MainOp.flags : MainOp → Flags → Flags
  | .host (.store f b), F => Function.update F f b
  | .host _, F => F
  | .call c, F => c.flags F

theorem attempted_flags {o : MainOp} {w w' : World} {r : Main.Res o}
    (h : attempted o w r w') : w'.flag = o.flags w.flag := by
  cases o with
  | call c =>
      obtain ⟨tr, run⟩ := h
      exact (c.marks w.flag).exec rfl run
  | host o =>
      have does : o.Does w r w' := along_host.mp h
      rw [does.flags]
      cases o <;> rfl

theorem served_flags {o : MainOp} {w w' : World} {r : Main.Res o} (h : served o w r w') :
    w'.flag = o.flags w.flag := attempted_flags (attempted_of_served h)

/-- Every operation but an assignment to a drive's cached state. -/
def HostOp.LeavesRun : HostOp → Prop
  | .store (.run _) _ => False
  | _ => True

instance (o : HostOp) : Decidable o.LeavesRun := by
  cases o with
  | store f b => cases f <;> first | exact isTrue trivial | exact isFalse id
  | _ => exact isTrue trivial

theorem HostOp.LeavesRun.flags {o : HostOp} (leaves : o.LeavesRun) (F : Flags) (ax : Axis) :
    (MainOp.host o).flags F (.run ax) = F (.run ax) := by
  cases o with
  | store f b => cases f <;> first | exact leaves.elim | rfl
  | _ => rfl

/-! ### Programs of the server -/

/-- Run to completion, `p` takes the flags from `F` to `G`. -/
def Sets {α : Type} (p : Program Main α) (F G : Flags) : Prop :=
  ∀ w : World, w.flag = F → p.wp served (fun _ w' => w'.flag = G) w

namespace Attempt

variable {β : Type} {F G : Flags}

theorem op (o : MainOp) : Marks attempted (.op o .ret : Program Main (Main.Res o)) F (o.flags F) :=
  Marks.op fun {w r w'} answer start => by
    rw [← start]
    exact attempted_flags answer

theorem call (c : Controller.Call) : Marks attempted (Server.call c) F (c.flags F) := op (.call c)

/-- A call that leaves each cached state. -/
theorem quietCall {c : Controller.Call} (keeps : ∀ b, c.runs b = b) :
    Marks attempted (Server.call c) F F :=
  (call c).of_eq (c.flags_eq_self keeps F)

theorem store (f : Flag) (b : Bool) :
    Marks attempted (Server.store f b) F (Function.update F f b) :=
  op (.host (.store f b))

theorem load {f : Flag} {k : Bool → Program Main β} (rest : Marks attempted (k (F f)) F G) :
    Marks attempted (Server.load f >>= k) F G := by
  intro w start r w' done
  obtain ⟨rfl, rfl⟩ : r = w.flag f ∧ w' = w := along_host.mp done
  rw [start]
  exact rest w' start

/-- An operation that is not a store of a flag. -/
theorem host {o : HostOp} (notStore : ∀ f b, o ≠ .store f b) :
    Marks attempted (.op (.host o) .ret : Program Main o.Res) F F := by
  apply (op (.host o)).of_eq
  cases o with
  | store f b => exact absurd rfl (notStore f b)
  | _ => rfl

end Attempt

namespace Server

/-! ### Jobs -/

def Event.flags : Event → Flags → Flags
  | .disconnect n, F =>
    if n = 0 then Controller.Call.pauseDrv.flags (Function.update F .needSendRt false) else F
  | .drvDriveUpdate toRun, F =>
    Function.update (if toRun != F (.run .x) then
      (if toRun then Controller.Call.runDrv else Controller.Call.pauseDrv).flags F else F)
      .onRun toRun
  | .drvCmdUpdate _, F => Function.update F .onUpdateCmd true
  | .regAllUpdate _ _ _ _, F => Function.update F .onModify false
  | .calibrationRequire, F =>
    Function.update (Controller.Call.runCalibration.flags F) .onCalibration false
  | .dataRTKeepRequire, F => Function.update F .needSendRt true
  | .dataRTStopRequire, F => Function.update F .needSendRt false
  | .moduleInfoRequire, F => F
  | .regAllRequire, F => F

/-- The tick that has work to do. -/
def workFlags (F : Flags) : Flags :=
  if F .onModify then Controller.Call.pauseDrv.flags F
  else Function.update (if F .onRun then Controller.Call.runDrv.flags F else F) .onUpdateCmd false

def Job.flags : Job → Flags → Flags
  | .event e, F => e.flags F
  | .tick, F =>
    if F .controlLoopExpired && !F .onCalibration then
      workFlags (Function.update F .controlLoopExpired false)
    else F
  | .trigLoopExpired, F => Function.update F .controlLoopExpired true

theorem setToRun_marks (toRun : Bool) (F : Flags) :
    Marks attempted (setToRun toRun) F (if toRun != F (.run .x) then
      (if toRun then Controller.Call.runDrv else Controller.Call.pauseDrv).flags F else F) := by
  refine Attempt.load (Marks.ite (fun _ => ?_) fun _ => Marks.ret _)
  cases toRun
  · exact Attempt.call .pauseDrv
  · exact Attempt.call .runDrv

theorem resumeAcc_marks (F : Flags) : Marks attempted resumeAcc F F := by
  apply Attempt.load
  split
  · exact Attempt.host (by simp)
  · exact Marks.ret _

theorem Event.marks (e : Event) (F : Flags) : Marks attempted e.code F (e.flags F) := by
  cases e with
  | disconnect n =>
      refine Marks.ite (fun _ => ?_) fun _ => Marks.ret _
      exact (Attempt.store _ _).bind fun _ => Attempt.call _
  | moduleInfoRequire => exact Attempt.load (Attempt.host (by simp))
  | drvDriveUpdate toRun =>
      refine (setToRun_marks toRun F).bind fun _ => Attempt.load ?_
      exact (Attempt.host (by simp)).bind fun _ => Attempt.store _ _
  | drvCmdUpdate rtp =>
      refine (Attempt.host (by simp)).bind fun _ => (Attempt.host (by simp)).bind fun _ => ?_
      refine (Attempt.host (by simp)).bind fun _ => (Attempt.store _ _).bind fun _ => ?_
      exact Attempt.host (by simp)
  | regAllUpdate x y z accArr =>
      refine (Attempt.store _ _).bind fun _ => (Attempt.host (by simp)).bind fun _ => ?_
      refine (Attempt.quietCall fun _ => rfl).bind fun _ => ?_
      refine (resumeAcc_marks _).bind fun _ => (Attempt.store _ _).bind fun _ => ?_
      apply Marks.of_eq (Attempt.host (by simp))
      exact Function.update_idem _ _ _
  | calibrationRequire =>
      refine (Attempt.host (by simp)).bind fun _ => (Attempt.store _ _).bind fun _ => ?_
      refine (Attempt.host (by simp)).bind fun _ => (Attempt.call _).bind fun _ => ?_
      refine (Attempt.host (by simp)).bind fun _ => (Attempt.store _ _).bind fun _ => ?_
      apply Marks.of_eq (Attempt.host (by simp))
      funext f
      cases f <;> simp [Event.flags, Controller.Call.flags]
  | regAllRequire =>
      refine (Attempt.quietCall fun _ => rfl).bind fun _ => ?_
      exact Attempt.host (by simp)
  | dataRTKeepRequire => exact Attempt.store _ _
  | dataRTStopRequire => exact Attempt.store _ _

theorem keepRunning_marks (F : Flags) :
    Marks attempted keepRunning F (if F .onRun then Controller.Call.runDrv.flags F else F) := by
  refine Attempt.load (Marks.ite (fun _ => ?_) fun _ => Marks.ret _)
  exact (Attempt.call _).bind fun _ => Attempt.host (by simp)

theorem applyCmd_marks (F : Flags) :
    Marks attempted applyCmd F (Function.update F .onUpdateCmd false) := by
  apply Attempt.load
  split
  · refine (Attempt.host (by simp)).bind fun _ => ?_
    refine (Attempt.quietCall fun _ => rfl).bind fun _ => ?_
    exact Attempt.store _ _
  · next notSet =>
      apply Marks.of_eq (Marks.ret _)
      rw [eq_comm, Function.update_eq_self_iff]
      simpa using notSet

theorem sendRt_marks (F : Flags) : Marks attempted sendRt F F := by
  apply Attempt.load
  split
  · refine (Attempt.quietCall fun _ => rfl).bind fun _ => ?_
    exact (Attempt.host (by simp)).bind fun _ => Attempt.host (by simp)
  · exact Marks.ret _

theorem alive_marks (F : Flags) : Marks attempted alive F F := by
  refine (Attempt.host (by simp)).bind fun i => (Attempt.host (by simp)).bind fun _ => ?_
  split
  · refine (Attempt.host (by simp)).bind fun _ => ?_
    exact Attempt.quietCall fun _ => rfl
  · exact Marks.ret _

theorem work_marks (F : Flags) : Marks attempted work F (workFlags F) := by
  apply Attempt.load
  unfold workFlags
  cases F .onModify
  · refine (keepRunning_marks F).bind fun _ => (applyCmd_marks _).bind fun _ => ?_
    exact sendRt_marks _
  · exact Attempt.call _

/-- A job's program does to the flags what `Job.flags` says. -/
theorem Job.marks (j : Job) (F : Flags) : Marks attempted j.code F (j.flags F) := by
  cases j with
  | event e => exact e.marks F
  | trigLoopExpired => exact Attempt.store _ _
  | tick =>
      apply Attempt.load
      simp only [Job.flags]
      cases F .controlLoopExpired
      · exact Marks.ret _
      · apply Attempt.load
        cases F .onCalibration
        · refine (Attempt.store _ _).bind fun _ => (work_marks _).bind fun _ => ?_
          exact alive_marks _
        · exact Marks.ret _

/-- In particular where every transfer succeeds. -/
theorem Job.sets (j : Job) (F : Flags) : Sets j.code F (j.flags F) := by
  intro w start
  exact Program.wp_iff_exec.mpr fun tr _ w' run =>
    (j.marks F).exec start (run.mono attempted_of_served)

end Server

end Lra
