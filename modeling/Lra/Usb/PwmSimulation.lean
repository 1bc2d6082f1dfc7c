import Lra.Usb.PwmCancel

/-!
# The two models of a task

One step of `PwmThread` tests both conditions of the loop and takes the front of the queue,
or sends a row and pushes it back. As long as no task is left behind by a close that it is
not settled for, the steps of `PwmPlay` come down to these.
-/

namespace Lra

open Effect

namespace PwmPlay

/-- Where the task is; the front is taken with the test of the flag. -/
def task (s : PwmPlay) : Option PwmCmdTask :=
  match s.point with
  | .loading timeBias rows => some (.loading (playList timeBias rows))
  | .sizing | .printing | .testingQueue | .testingExit => some .looping
  | .fetching => s.pwmCmdQ.head?.map .sending
  | .spinning nextPwmCmd | .sending nextPwmCmd => some (.sending nextPwmCmd)
  | .testingRecursive _ | .pushing _ | .computing | .popping => some .popping
  | .stopping => some .stopping
  | .done => none

/-- The queue with the row that is still to be pushed back. -/
def queue (s : PwmPlay) : List RcwsPwmCmd :=
  match s.point with
  | .testingRecursive nextPwmCmd =>
    if s.recursiveFlag then s.pwmCmdQ ++ [nextPwmCmd] else s.pwmCmdQ
  | .pushing nextPwmCmd => s.pwmCmdQ ++ [nextPwmCmd]
  | _ => s.pwmCmdQ

def thread (s : PwmPlay) : PwmThread where
  pwmCmdQ := s.queue
  pwmCmdThreadExit := s.pwmCmdThreadExit
  recursiveFlag := s.recursiveFlag
  tasks := s.task.toList

theorem step_of_advance {s u : PwmThread} {task : PwmCmdTask} {sent : Bool}
    (live : s.tasks = [task]) (moves : s.advance 0 task sent = u) :
    PwmStep s (.step 0 sent) u := by
  subst moves
  apply PwmStep.step sent
  rw [live]
  rfl

/-- A step of the task is one of the coarser model, or none. -/
theorem pwmCmdTask_thread {s t : PwmPlay} {count : Int64} {sent : Bool}
    (filled : s.point = .testingExit → s.pwmCmdThreadExit = false → s.pwmCmdQ ≠ [])
    (step : s.pwmCmdTask count sent = some t) :
    t.thread = s.thread ∨ PwmStep s.thread (.step 0 sent) t.thread := by
  obtain ⟨q, exit, flag, point, total, last, calls⟩ := s
  cases point with
  | loading timeBias rows =>
      cases rows <;> cases step <;> exact .inr (step_of_advance rfl rfl)
  | sizing | printing | pushing | done =>
      cases step
      exact .inl rfl
  | testingQueue =>
      cases q with
      | nil =>
          cases step
          exact .inr (step_of_advance rfl rfl)
      | cons cmd rest =>
          cases step
          exact .inl rfl
  | testingExit =>
      cases exit with
      | true =>
          cases step
          cases q <;> exact .inr (step_of_advance rfl rfl)
      | false =>
          cases q with
          | nil => exact absurd rfl (filled rfl rfl)
          | cons cmd rest =>
              cases step
              exact .inr (step_of_advance rfl rfl)
  | fetching =>
      cases q with
      | nil => cases step
      | cons cmd rest =>
          cases step
          exact .inl rfl
  | spinning cmd =>
      cases spinning_step rfl step with
      | inl sends =>
          subst sends
          exact .inl rfl
      | inr waits =>
          subst waits
          exact .inl rfl
  | sending cmd =>
      cases step
      cases sent <;> cases exit <;> cases flag <;> exact .inr (step_of_advance rfl rfl)
  | testingRecursive cmd =>
      cases step
      cases flag <;> exact .inl rfl
  | computing =>
      obtain ⟨last, rfl⟩ := computing_step rfl step
      exact .inl rfl
  | popping =>
      cases q with
      | nil => cases step
      | cons cmd rest =>
          cases step
          exact .inr (step_of_advance rfl rfl)
  | stopping =>
      cases step
      cases sent <;> cases exit <;> exact .inr (step_of_advance rfl rfl)

end PwmPlay

namespace PwmCancel

open PwmPlay

/-- The thread as it was started. -/
def startThread (rows : List CsvRow) (pwmCmdQ : List RcwsPwmCmd) (recursiveFlag : Bool) :
    PwmThread :=
  PwmThread.startPwmCmdThread { pwmCmdQ, recursiveFlag } (commands rows)

/-- While closes meet settled tasks only, what the user sees is a run of the coarser model. -/
theorem simulated {rows : List CsvRow} {q : List RcwsPwmCmd} {recursiveFlag : Bool}
    {h : List (PwmCancelEvent × PwmCancel)} {s : PwmCancel}
    (run : Run (Restrict PwmCancelStep Settles) (startPwmCmdThread rows q recursiveFlag) h s) :
    ∃ h', Run PwmStep (startThread rows q recursiveFlag) h' s.play.thread := by
  induction run with
  | nil => exact ⟨[], .nil⟩
  | @step h s l t earlier last ih =>
      obtain ⟨h', simulation⟩ := ih
      have kept := keptSettled_of_run earlier
      obtain ⟨_, last⟩ := last
      cases last with
      | task count sent _ _ moves =>
          have filled : s.play.point = .testingExit → s.play.pwmCmdThreadExit = false →
              s.play.pwmCmdQ ≠ [] := by
            intro testing down
            have dirty : s.user ≠ .cleaned := by
              intro cleaned
              have raised := kept.1.raised (cleaned.trans_ne nofun)
              rw [down] at raised
              cases raised
            have ready := kept.1.ready dirty
            rw [Ready, testing] at ready
            exact ready.1
          cases pwmCmdTask_thread filled moves with
          | inl same =>
              refine ⟨h', ?_⟩
              rw [same]
              exact simulation
          | inr step => exact ⟨_, simulation.step step⟩
      | raise => exact ⟨_, simulation.step .close⟩
      | close => exact ⟨h', simulation⟩
      | clean closed =>
          have cleans : s.play.thread.cleanPwmCmdQueue =
              { s.play with pwmCmdQ := [] }.thread := by
            have settled := kept.2 (.inl closed)
            cases point : s.play.point with
            | testingExit | spinning | stopping | done =>
                simp only [thread, PwmPlay.task, queue, PwmThread.cleanPwmCmdQueue, point]
            | _ =>
                rw [point] at settled
                exact settled.elim
          have cleaned := simulation.step .clean
          rw [cleans] at cleaned
          exact ⟨_, cleaned⟩

end PwmCancel

end Lra
