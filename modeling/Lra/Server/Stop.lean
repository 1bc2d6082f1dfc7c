import Lra.Effect.Transition
import Lra.Server.Flags

/-!
# Stopping when the last client leaves

Jobs are run to completion, one after the other, in any order. The handler of the
last disconnection pauses the drives but leaves `on_run` as it is, so whether the
drives stay stopped depends on what a later tick reads there.
-/

namespace Lra

open Effect

namespace Server

/-- One job, run to completion with every transfer succeeding. -/
def Handled (w : World) (j : Job) (w' : World) : Prop := ∃ tr, Exec served j.code w tr () w'

theorem Handled.flags {w w' : World} {j : Job} (h : Handled w j w') :
    w'.flag = j.flags w.flag := by
  obtain ⟨tr, run⟩ := h
  exact (j.sets w.flag w rfl).of_exec run

theorem Handled.exists_of (w : World) (j : Job) : ∃ w', Handled w j w' := by
  obtain ⟨tr, run⟩ := server_within_served.exec j.code w
  exact ⟨_, tr, run⟩

/-- The machine after the initialisation of boards whose registers are zero. -/
def initialised : World := (Controller.init.run bench World.initial).2

theorem initialised_started : Started initialised := by
  obtain ⟨tr, run⟩ := bench_within_ideal.exec Controller.init World.initial
  exact ⟨World.initial.board, tr, run⟩

/-- The threads start with every flag lowered and every drive stopped. -/
theorem Started.flag {w : World} (h : Started w) (f : Flag) : w.flag f = false := by
  obtain ⟨board, tr, run⟩ := h
  have init : Completes { World.initial with board := board } .init w := ⟨tr, (), run⟩
  rw [init.flags]
  cases f <;> rfl

/-! ### Moments at which the drives should be stopped -/

/-- The last client has left, and no later request asked the drives to run. The
history is read from its newest entry. -/
def OwesStop : List (Job × World) → Prop
  | [] => False
  | (.event (.disconnect 0), _) :: _ => True
  | (.event (.drvDriveUpdate true), _) :: _ => False
  | _ :: h => OwesStop h

def DrivesStopped (w : World) : Prop := ∀ ax, w.flag (.run ax) = false

/-- No modification and no calibration is in progress. -/
def Undisturbed (F : Flags) : Prop := F .onModify = false ∧ F .onCalibration = false

theorem undisturbed_call {F : Flags} (h : Undisturbed F) (c : Controller.Call) :
    Undisturbed (c.flags F) := h

theorem undisturbed_work {F : Flags} (h : Undisturbed F) : Undisturbed (workFlags F) := by
  unfold workFlags
  split
  · exact undisturbed_call h .pauseDrv
  · split
    · exact undisturbed_call h .runDrv
    · exact h

/-- Handlers that raise these flags lower them before they end. -/
theorem undisturbed_job {F : Flags} (h : Undisturbed F) (j : Job) : Undisturbed (j.flags F) := by
  cases j with
  | trigLoopExpired => exact h
  | tick =>
      simp only [Job.flags]
      split
      · exact undisturbed_work h
      · exact h
  | event e =>
      cases e with
      | disconnect n =>
          simp only [Job.flags, Event.flags]
          split <;> exact h
      | drvDriveUpdate toRun =>
          simp only [Job.flags, Event.flags]
          split <;> exact h
      | regAllUpdate x y z accArr => exact ⟨rfl, h.2⟩
      | calibrationRequire => exact ⟨h.1, rfl⟩
      | _ => exact h

theorem undisturbed_run {w₀ w : World} {h : List (Job × World)} (start : Started w₀)
    (run : Run Handled w₀ h w) : Undisturbed w.flag := by
  refine run.invariant (P := fun w => Undisturbed w.flag) ⟨start.flag _, start.flag _⟩ ?_
  intro s j t undisturbed step
  rw [step.flags]
  exact undisturbed_job undisturbed j

/-- An undisturbed tick starts stopped drives exactly if its timer has expired and
`on_run` is set. -/
theorem tick_keeps_stopped_iff {F : Flags} (undisturbed : Undisturbed F)
    (stopped : ∀ ax, F (.run ax) = false) :
    (∀ ax, Job.tick.flags F (.run ax) = false) ↔
      ¬ (F .controlLoopExpired = true ∧ F .onRun = true) := by
  obtain ⟨noModify, noCalibration⟩ := undisturbed
  cases expired : F .controlLoopExpired <;> cases onRun : F .onRun <;>
    simp [Job.flags, workFlags, Controller.Call.flags, Controller.Call.runs, expired, onRun,
      noModify, noCalibration, stopped]

/-- No event but a request to run starts a stopped drive. -/
theorem event_keeps_stopped {F : Flags} {e : Event} (notRun : e ≠ .drvDriveUpdate true)
    (stopped : ∀ ax, F (.run ax) = false) (ax : Axis) : e.flags F (.run ax) = false := by
  cases e with
  | disconnect n =>
      simp only [Event.flags]
      split
      · rfl
      · exact stopped ax
  | drvDriveUpdate toRun =>
      cases toRun with
      | true => exact absurd rfl notRun
      | false => simp [Event.flags, stopped]
  | calibrationRequire => rfl
  | _ => exact stopped ax

theorem disconnect_stops (F : Flags) (ax : Axis) :
    (Event.disconnect 0).flags F (.run ax) = false := rfl

/-- From a moment at which the debt to stop is honoured, a job leads to another such
moment unless it is a tick that starts the drives. -/
theorem honoured_step_iff {w₀ t u : World} {h : List (Job × World)} {j : Job}
    (start : Started w₀) (earlier : Run Handled w₀ h t)
    (honoured : OwesStop h → DrivesStopped (stateAfter w₀ h)) (step : Handled t j u) :
    (OwesStop ((j, u) :: h) → DrivesStopped (stateAfter w₀ ((j, u) :: h))) ↔
      (j = .tick → OwesStop h → ¬ (t.flag .controlLoopExpired = true ∧ t.flag .onRun = true)) := by
  rw [earlier.stateAfter_eq] at honoured
  rw [stateAfter_cons]
  cases j with
  | trigLoopExpired =>
      refine iff_of_true (fun owes ax => ?_) fun h => (nomatch h)
      rw [step.flags]
      exact honoured owes ax
  | tick =>
      have undisturbed := undisturbed_run start earlier
      refine ⟨fun kept _ owes => ?_, fun quiet owes ax => ?_⟩
      · refine (tick_keeps_stopped_iff undisturbed (honoured owes)).mp fun ax => ?_
        rw [← step.flags]
        exact kept owes ax
      · rw [step.flags]
        exact (tick_keeps_stopped_iff undisturbed (honoured owes)).mpr (quiet rfl owes) ax
  | event e =>
      refine iff_of_true (fun owes ax => ?_) fun h => (nomatch h)
      rw [step.flags]
      by_cases last : e = .disconnect 0
      · subst last
        exact disconnect_stops t.flag ax
      · have older : e ≠ .drvDriveUpdate true ∧ OwesStop h := by
          cases e with
          | disconnect n =>
              cases n with
              | zero => exact absurd rfl last
              | succ n => exact ⟨by simp, owes⟩
          | drvDriveUpdate toRun =>
              cases toRun with
              | true => exact owes.elim
              | false => exact ⟨by simp, owes⟩
          | _ => exact ⟨by simp, owes⟩
        exact event_keeps_stopped older.1 (honoured older.2) ax

/-- Over a run of the server, the drives are stopped at every moment at which they
should be exactly if no tick with an expired timer read a set `on_run` at such a
moment. -/
theorem stopped_after_disconnect_iff {w₀ w : World} {h : List (Job × World)}
    (start : Started w₀) (run : Run Handled w₀ h w) :
    (∀ h', h' <:+ h → OwesStop h' → DrivesStopped (stateAfter w₀ h')) ↔
      ∀ j u h', (j, u) :: h' <:+ h → j = .tick → OwesStop h' →
        ¬ ((stateAfter w₀ h').flag .controlLoopExpired = true ∧
          (stateAfter w₀ h').flag .onRun = true) := by
  refine run.always_iff (fun owes => owes.elim) fun earlier honoured step => ?_
  have exact := honoured_step_iff start earlier honoured step
  rw [earlier.stateAfter_eq]
  exact exact

/-- A client starts the drives and leaves; the next tick starts them again. -/
theorem restarted_after_disconnect :
    ∃ w₀ w₁ w₂ w₃ w₄, Started w₀ ∧ Handled w₀ (.event (.drvDriveUpdate true)) w₁ ∧
      Handled w₁ (.event (.disconnect 0)) w₂ ∧ Handled w₂ .trigLoopExpired w₃ ∧
      Handled w₃ .tick w₄ ∧ DrivesStopped w₂ ∧ ∀ ax, w₄.flag (.run ax) = true := by
  have start := initialised_started
  obtain ⟨w₁, run⟩ := Handled.exists_of initialised (.event (.drvDriveUpdate true))
  obtain ⟨w₂, leave⟩ := Handled.exists_of w₁ (.event (.disconnect 0))
  obtain ⟨w₃, timer⟩ := Handled.exists_of w₂ .trigLoopExpired
  obtain ⟨w₄, tick⟩ := Handled.exists_of w₃ .tick
  have low : initialised.flag = fun _ => false := funext start.flag
  refine ⟨initialised, w₁, w₂, w₃, w₄, start, run, leave, timer, tick, fun ax => ?_, fun ax => ?_⟩
  · rw [leave.flags]
    exact disconnect_stops w₁.flag ax
  · rw [tick.flags, timer.flags, leave.flags, run.flags, low]
    cases ax <;> rfl

/-- The equivalence on a run in which the only client leaves. -/
theorem stopped_after_disconnect_iff_disconnect :
    ∃ w₀ w₁, Started w₀ ∧ Handled w₀ (.event (.disconnect 0)) w₁ ∧
      ((∀ h', h' <:+ [(Job.event (.disconnect 0), w₁)] → OwesStop h' →
          DrivesStopped (stateAfter w₀ h')) ↔
        ∀ j u h', (j, u) :: h' <:+ [(Job.event (.disconnect 0), w₁)] → j = .tick →
          OwesStop h' → ¬ ((stateAfter w₀ h').flag .controlLoopExpired = true ∧
            (stateAfter w₀ h').flag .onRun = true)) := by
  have start := initialised_started
  obtain ⟨w₁, leave⟩ := Handled.exists_of initialised (.event (.disconnect 0))
  exact ⟨initialised, w₁, start, leave, stopped_after_disconnect_iff start (.step .nil leave)⟩

end Server

end Lra
