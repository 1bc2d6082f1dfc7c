import Lra.Effect.Transition
import Lra.Usb.RcwsParser

/-!
# The PWM command thread

`StartPwmCmdThread` detaches a task that plays a list of commands. The only trace
of a running task is `pwm_cmd_thread_exit_`, which is raised to end a task, or by a
task that fails, and never lowered. It is also what `PwmCmdThreadRunning` returns.
-/

namespace Lra

open Effect

structure RcwsPwmCmd where
  tMs : UInt32
  info : RcwsPwmInfo
  deriving DecidableEq

/-- Where a `PwmCmdTask` is. -/
inductive PwmCmdTask where
  /-- Rows of the file still to be pushed. -/
  | loading (rows : List RcwsPwmCmd)
  /-- At the condition of the loop. -/
  | looping
  | sending (cmd : RcwsPwmCmd)
  | popping
  /-- At the command that stops the vibration. -/
  | stopping
  deriving DecidableEq

/-- The members of `Rcws` the thread works on, and the tasks that are live. -/
structure PwmThread where
  pwmCmdQ : List RcwsPwmCmd := []
  pwmCmdThreadExit : Bool := false
  recursiveFlag : Bool := false
  tasks : List PwmCmdTask := []
  deriving DecidableEq

namespace PwmThread

def pwmCmdThreadRunning (s : PwmThread) : Bool := s.pwmCmdThreadExit

def startPwmCmdThread (s : PwmThread) (csv : List RcwsPwmCmd) : PwmThread :=
  if s.pwmCmdThreadRunning then s else { s with tasks := s.tasks ++ [.loading csv] }

/-- Every task is detached, so there is none to join. -/
def pwmCmdThreadClose (s : PwmThread) : PwmThread := { s with pwmCmdThreadExit := true }

def cleanPwmCmdQueue (s : PwmThread) : PwmThread := { s with pwmCmdQ := [] }

def pwmCmdSetRecursive (s : PwmThread) (enable : Bool) : PwmThread :=
  { s with recursiveFlag := enable }

/-- What a failed `DevPwmCmd` leaves behind. -/
def devPwmCmd (s : PwmThread) (sent : Bool) : PwmThread :=
  if sent then s else { s with pwmCmdThreadExit := true }

/-- The next step of a task, and where it is then; `sent` is the outcome of a `DevPwmCmd`. -/
def pwmCmdTask (s : PwmThread) (sent : Bool) : PwmCmdTask → PwmThread × Option PwmCmdTask
  | .loading (cmd :: rows) => ({ s with pwmCmdQ := s.pwmCmdQ ++ [cmd] }, some (.loading rows))
  | .loading [] => (s, some .looping)
  | .looping =>
    match s.pwmCmdQ, s.pwmCmdThreadExit with
    | cmd :: _, false => (s, some (.sending cmd))
    | _, _ => (s, some .stopping)
  | .sending cmd =>
    let s := s.devPwmCmd sent
    (if s.recursiveFlag then { s with pwmCmdQ := s.pwmCmdQ ++ [cmd] } else s, some .popping)
  | .popping => ({ s with pwmCmdQ := s.pwmCmdQ.tail }, some .looping)
  | .stopping => (s.devPwmCmd sent, none)

/-- Task `k` takes its step, and is gone when it has ended. -/
def advance (s : PwmThread) (k : Nat) (task : PwmCmdTask) (sent : Bool) : PwmThread :=
  let (s, next) := s.pwmCmdTask sent task
  match next with
  | some task => { s with tasks := s.tasks.set k task }
  | none => { s with tasks := s.tasks.eraseIdx k }

end PwmThread

inductive PwmEvent where
  | start (csv : List RcwsPwmCmd)
  | close
  | clean
  | setRecursive (enable : Bool)
  | step (k : Nat) (sent : Bool)

inductive PwmStep : PwmThread → PwmEvent → PwmThread → Prop where
  | start {s} (csv) : PwmStep s (.start csv) (s.startPwmCmdThread csv)
  | close {s} : PwmStep s .close s.pwmCmdThreadClose
  | clean {s} : PwmStep s .clean s.cleanPwmCmdQueue
  | setRecursive {s} (enable) : PwmStep s (.setRecursive enable) (s.pwmCmdSetRecursive enable)
  | step {s k task} (sent) : s.tasks[k]? = some task →
      PwmStep s (.step k sent) (s.advance k task sent)

namespace PwmThread

/-- The test tells whether a task is live, there is at most one, and once it has ended
another can be started. -/
structure Governed (s : PwmThread) : Prop where
  running_iff : s.pwmCmdThreadRunning = true ↔ s.tasks ≠ []
  one : s.tasks.length ≤ 1
  restart : s.tasks = [] → ∀ csv, (s.startPwmCmdThread csv).tasks = [.loading csv]

/-! ### The flag is never lowered -/

theorem advance_exit {s : PwmThread} {k : Nat} {task : PwmCmdTask} {sent : Bool}
    (raised : s.pwmCmdThreadExit = true) : (s.advance k task sent).pwmCmdThreadExit = true := by
  cases task with
  | loading rows => cases rows <;> exact raised
  | looping => cases queue : s.pwmCmdQ <;> simp [advance, pwmCmdTask, queue, raised]
  | sending cmd => cases sent <;> simp [advance, pwmCmdTask, devPwmCmd, apply_ite, raised]
  | popping => exact raised
  | stopping => cases sent <;> simp [advance, pwmCmdTask, devPwmCmd, raised]

theorem start_eq {s : PwmThread} (raised : s.pwmCmdThreadExit = true) (csv : List RcwsPwmCmd) :
    s.startPwmCmdThread csv = s := if_pos raised

theorem exit_step {s u : PwmThread} {l : PwmEvent} (raised : s.pwmCmdThreadExit = true)
    (step : PwmStep s l u) : u.pwmCmdThreadExit = true := by
  cases step with
  | start csv =>
      rw [start_eq raised]
      exact raised
  | close => rfl
  | clean => exact raised
  | setRecursive enable => exact raised
  | step sent _ => exact advance_exit raised

/-- Once a task was to end or has failed, the flag stays up. -/
theorem exit_run {s u : PwmThread} {h : List (PwmEvent × PwmThread)}
    (raised : s.pwmCmdThreadExit = true) (run : Run PwmStep s h u) : u.pwmCmdThreadExit = true :=
  run.invariant raised fun raised step => exit_step raised step

@[simp] theorem devPwmCmd_tasks (s : PwmThread) (sent : Bool) :
    (s.devPwmCmd sent).tasks = s.tasks := by
  cases sent <;> rfl

theorem pwmCmdTask_tasks (s : PwmThread) (sent : Bool) (task : PwmCmdTask) :
    (s.pwmCmdTask sent task).1.tasks = s.tasks := by
  cases task with
  | loading rows => cases rows <;> rfl
  | looping => cases queue : s.pwmCmdQ <;> cases exit : s.pwmCmdThreadExit <;>
      simp [pwmCmdTask, queue, exit]
  | sending cmd => simp [pwmCmdTask, apply_ite]
  | popping => rfl
  | stopping => simp [pwmCmdTask]

theorem advance_length (s : PwmThread) (k : Nat) (task : PwmCmdTask) (sent : Bool) :
    (s.advance k task sent).tasks.length ≤ s.tasks.length := by
  have tasks := pwmCmdTask_tasks s sent task
  unfold advance
  cases outcome : s.pwmCmdTask sent task with
  | mk s' next =>
      rw [outcome] at tasks
      rw [← tasks]
      cases next with
      | some task => simp
      | none => exact List.length_eraseIdx_le ..

/-- Once the flag is up no task is ever started. -/
theorem no_start_after_exit {s u : PwmThread} {h : List (PwmEvent × PwmThread)}
    (raised : s.pwmCmdThreadExit = true) (run : Run PwmStep s h u) :
    u.tasks.length ≤ s.tasks.length := by
  induction run with
  | nil => exact Nat.le_refl _
  | step earlier last ih =>
      have raised := exit_run raised earlier
      refine Nat.le_trans ?_ ih
      cases last with
      | start csv => exact Nat.le_of_eq (congrArg (·.tasks.length) (start_eq raised csv))
      | close => exact Nat.le_refl _
      | clean => exact Nat.le_refl _
      | setRecursive enable => exact Nat.le_refl _
      | step sent _ => exact advance_length ..

/-- While it is down nothing keeps tasks from piling up. -/
theorem exists_tasks (n : Nat) : ∃ h u, Run PwmStep {} h u ∧ u.tasks.length = n := by
  have piled : ∃ h u, Run PwmStep {} h u ∧ u.pwmCmdThreadExit = false ∧ u.tasks.length = n := by
    induction n with
    | zero => exact ⟨[], {}, .nil, rfl, rfl⟩
    | succ n ih =>
        obtain ⟨h, u, run, down, length⟩ := ih
        refine ⟨_, _, .step run (.start []), ?_, ?_⟩
        · simp [startPwmCmdThread, pwmCmdThreadRunning, down]
        · simp [startPwmCmdThread, pwmCmdThreadRunning, down, length]
  obtain ⟨h, u, run, _, length⟩ := piled
  exact ⟨h, u, run, length⟩

/-! ### When the test is right -/

/-- No task is live and the flag is down. -/
structure Quiet (s : PwmThread) : Prop where
  tasks : s.tasks = []
  exit : s.pwmCmdThreadExit = false

theorem Quiet.governed {s : PwmThread} (quiet : s.Quiet) : s.Governed where
  running_iff := by simp [pwmCmdThreadRunning, quiet.tasks, quiet.exit]
  one := by simp [quiet.tasks]
  restart _ csv := by simp [startPwmCmdThread, pwmCmdThreadRunning, quiet.tasks, quiet.exit]

theorem quiet_initial : ({} : PwmThread).Quiet := ⟨rfl, rfl⟩

/-- Whether a task is to be started or ended. -/
def StartsOrEnds (l : PwmEvent) : Prop := l = .close ∨ ∃ csv, l = .start csv

/-- A step that starts or ends a task leaves a quiet state for one in which the test is
wrong; any other step leads to a quiet state again. -/
theorem Quiet.step {s u : PwmThread} {l : PwmEvent} (quiet : s.Quiet) (step : PwmStep s l u) :
    StartsOrEnds l ∧ ¬ u.Governed ∨ ¬ StartsOrEnds l ∧ u.Quiet := by
  cases step with
  | start csv =>
      refine .inl ⟨.inr ⟨csv, rfl⟩, fun governed => ?_⟩
      have started : (s.startPwmCmdThread csv).tasks = [.loading csv] :=
        quiet.governed.restart quiet.tasks csv
      have running := governed.running_iff.mpr (by simp [started])
      simp [startPwmCmdThread, pwmCmdThreadRunning, quiet.exit] at running
  | close =>
      refine .inl ⟨.inl rfl, fun governed => ?_⟩
      exact governed.running_iff.mp rfl quiet.tasks
  | clean => exact .inr ⟨by simp [StartsOrEnds], quiet.tasks, quiet.exit⟩
  | setRecursive enable => exact .inr ⟨by simp [StartsOrEnds], quiet.tasks, quiet.exit⟩
  | step sent live => simp [quiet.tasks] at live

theorem Quiet.step_iff {s u : PwmThread} {l : PwmEvent} (quiet : s.Quiet)
    (step : PwmStep s l u) : u.Quiet ↔ ¬ StartsOrEnds l := by
  rcases quiet.step step with ⟨starts, wrong⟩ | ⟨other, quiet⟩
  · exact iff_of_false (fun quiet => wrong quiet.governed) (not_not_intro starts)
  · exact iff_of_true quiet other

/-- While the test has always been right nothing has happened. -/
theorem quiet_of_governed {h : List (PwmEvent × PwmThread)} {u : PwmThread}
    (run : Run PwmStep {} h u)
    (governed : ∀ h', h' <:+ h → (stateAfter {} h').Governed) : u.Quiet := by
  induction run with
  | nil => exact quiet_initial
  | @step h t l u earlier last ih =>
      have quiet := ih fun h' suffix => governed h' (suffix.trans (List.suffix_cons _ h))
      rcases quiet.step last with ⟨_, wrong⟩ | ⟨_, quiet⟩
      · exact absurd (governed _ List.suffix_rfl) wrong
      · exact quiet

/-- Over a run, the test is always right, at most one task is ever live and another can be
started after it, exactly if no task is ever started or ended. -/
theorem governed_iff {h : List (PwmEvent × PwmThread)} {u : PwmThread}
    (run : Run PwmStep {} h u) :
    (∀ h', h' <:+ h → (stateAfter {} h').Governed) ↔
      ∀ l t h', (l, t) :: h' <:+ h → ¬ StartsOrEnds l := by
  have moments : (∀ h', h' <:+ h → (stateAfter {} h').Governed) ↔
      ∀ h', h' <:+ h → (stateAfter {} h').Quiet := by
    constructor
    · intro governed h' suffix
      exact quiet_of_governed (run.prefix_run suffix) fun h'' older =>
        governed h'' (older.trans suffix)
    · exact fun quiet h' suffix => (quiet h' suffix).governed
  rw [moments]
  refine run.always_iff quiet_initial fun earlier quiet step => ?_
  rw [earlier.stateAfter_eq] at quiet
  exact quiet.step_iff step

/-- Two starts in a row: the test denies the first task, and a second one goes live. -/
theorem two_tasks_live :
    ∃ csv s u, PwmStep {} (.start csv) s ∧ s.tasks ≠ [] ∧ s.pwmCmdThreadRunning = false ∧
      PwmStep s (.start csv) u ∧ u.tasks.length = 2 := by
  let cmd : RcwsPwmCmd := ⟨0, ⟨⟨0, 0⟩, ⟨0, 0⟩, ⟨0, 0⟩⟩⟩
  exact ⟨[cmd], _, _, .start [cmd], List.cons_ne_nil _ _, rfl, .start [cmd], rfl⟩

/-- A task is started, plays its one command and ends, and then the user closes. -/
theorem governed_iff_close :
    ∃ h u, Run PwmStep {} h u ∧ h.length = 9 ∧ u.tasks = [] ∧ u.pwmCmdThreadRunning = true ∧
      ((∀ h', h' <:+ h → (stateAfter {} h').Governed) ↔
        ∀ l t h', (l, t) :: h' <:+ h → ¬ StartsOrEnds l) := by
  let cmd : RcwsPwmCmd := ⟨0, ⟨⟨0, 0⟩, ⟨0, 0⟩, ⟨0, 0⟩⟩⟩
  have started := Run.nil.step (@PwmStep.start {} [cmd])
  have pushed := started.step (@PwmStep.step _ 0 (.loading [cmd]) true rfl)
  have loaded := pushed.step (@PwmStep.step _ 0 (.loading []) true rfl)
  have looped := loaded.step (@PwmStep.step _ 0 .looping true rfl)
  have sent := looped.step (@PwmStep.step _ 0 (.sending cmd) true rfl)
  have popped := sent.step (@PwmStep.step _ 0 .popping true rfl)
  have left := popped.step (@PwmStep.step _ 0 .looping true rfl)
  have ended := left.step (@PwmStep.step _ 0 .stopping true rfl)
  have closed := ended.step .close
  exact ⟨_, _, closed, rfl, rfl, rfl, governed_iff closed⟩

end PwmThread

end Lra
