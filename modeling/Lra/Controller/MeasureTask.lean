import Lra.Controller.Measure

/-!
# The measure task

The task is started and cancelled through `adxl355_measure_thread_exit_`, which it lowers
itself when it comes to run, and takes a sample whenever `new_acc_data_` is up, which the
data-ready interrupt raises and the task lowers at the end of its turn. A cancellation is
heard exactly if the task is past its start when it comes, and an interrupt is answered
exactly if none comes between a reading and the end of its turn.
-/

namespace Lra

open Effect Adxl355

/-- Where `AccMeasureTask` is. -/
inductive MeasurePoint where
  /-- The thread was started and has not yet lowered the flag. -/
  | resetting
  /-- At the condition of the loop. -/
  | looping
  | testing
  | reading
  | pushing (data : Acc3)
  | sizing
  | trimming
  | clearing
  | ended

/-- Where the thread that starts and cancels the task is. -/
inductive MeasureUser where
  | idle
  /-- In `CancelMeasureTask`, which has found a thread. -/
  | raising
  | joining
  deriving DecidableEq

/-- The members of `Controller` the task works on. The thread object refers to no thread or
to one that has come to some point. -/
structure MeasureTask where
  adxl355MeasureThreadExit : Bool := false
  newAccData : Bool := false
  adxl355MeasureT : Option MeasurePoint := none
  data : List Acc3 := []
  user : MeasureUser := .idle

inductive MeasureEvent where
  | start
  | cancel
  | raise
  | join
  /-- A data-ready interrupt. -/
  | interrupt
  /-- Another thread takes samples. -/
  | popFrontN (n : Nat)
  | reset
  | loop
  | test
  | getAcc (data : Acc3)
  | pushBack
  | size
  | popFront
  | clear

namespace MeasureTask

/-- The task goes on at a point. -/
def goto (s : MeasureTask) (point : MeasurePoint) : MeasureTask :=
  { s with adxl355MeasureT := some point }

def startMeasureTask (s : MeasureTask) : MeasureTask :=
  match s.adxl355MeasureT with
  | none => s.goto .resetting
  | some _ => s

/-- `CancelMeasureTask` up to its first assignment. -/
def cancelMeasureTask (s : MeasureTask) : MeasureTask :=
  match s.adxl355MeasureT with
  | none => s
  | some _ => { s with user := .raising }

def itCallback (s : MeasureTask) : MeasureTask := { s with newAccData := true }

end MeasureTask

open MeasureTask in
/-- Steps of the user's thread, of the interrupt, of consumers, and of the task. -/
inductive MeasureStep : MeasureTask → MeasureEvent → MeasureTask → Prop where
  | start {s} : s.user = .idle → MeasureStep s .start s.startMeasureTask
  | cancel {s} : s.user = .idle → MeasureStep s .cancel s.cancelMeasureTask
  | raise {s} : s.user = .raising →
      MeasureStep s .raise { s with adxl355MeasureThreadExit := true, user := .joining }
  | join {s} : s.user = .joining → s.adxl355MeasureT = some .ended →
      MeasureStep s .join { s with adxl355MeasureT := none, user := .idle }
  | interrupt {s} : MeasureStep s .interrupt s.itCallback
  | popFrontN {s out data} (n) : accPopFrontN n s.data = some (out, data) →
      MeasureStep s (.popFrontN n) { s with data }
  | reset {s} : s.adxl355MeasureT = some .resetting →
      MeasureStep s .reset { s.goto .looping with adxl355MeasureThreadExit := false }
  | loop {s} : s.adxl355MeasureT = some .looping →
      MeasureStep s .loop (s.goto (if s.adxl355MeasureThreadExit then .ended else .testing))
  | test {s} : s.adxl355MeasureT = some .testing →
      MeasureStep s .test (s.goto (if s.newAccData then .reading else .looping))
  | getAcc {s} (data) : s.adxl355MeasureT = some .reading →
      MeasureStep s (.getAcc data) (s.goto (.pushing data))
  | pushBack {s data} : s.adxl355MeasureT = some (.pushing data) →
      MeasureStep s .pushBack { s.goto .sizing with data := accPushBack data s.data }
  | size {s} : s.adxl355MeasureT = some .sizing →
      MeasureStep s .size
        (s.goto (if s.data.length > maxNumberInDeque then .trimming else .clearing))
  | popFront {s front data} : s.adxl355MeasureT = some .trimming →
      accPopFront s.data = some (front, data) →
      MeasureStep s .popFront { s.goto .clearing with data }
  | clear {s} : s.adxl355MeasureT = some .clearing →
      MeasureStep s .clear { s.goto .looping with newAccData := false }

namespace MeasureTask

/-- The state in the model of the deque alone. -/
def deque (s : MeasureTask) : AccState where
  data := s.data
  task :=
    match s.adxl355MeasureT with
    | some .sizing => .testing
    | some .trimming => .trimming
    | _ => .waiting

section Steps

variable {s t : MeasureTask} {l : MeasureEvent} {h : List (MeasureEvent × MeasureTask)}

/-! ### The deque -/

/-- A step leaves the deque alone or is one of its own. -/
theorem deque_step (step : MeasureStep s l t) :
    t.deque = s.deque ∨ ∃ e, AccStep s.deque e t.deque := by
  cases step with
  | start idle =>
    left
    unfold startMeasureTask
    split
    · next none => simp [deque, goto, none]
    · rfl
  | cancel idle =>
    left
    unfold cancelMeasureTask
    split <;> rfl
  | raise raising => exact .inl rfl
  | join joining ended => simp [deque, ended]
  | interrupt => exact .inl rfl
  | popFrontN n popped => exact .inr ⟨_, .popFrontN 0 n rfl popped⟩
  | reset resetting => simp [deque, goto, resetting]
  | loop looping =>
    left
    cases exit : s.adxl355MeasureThreadExit <;> simp [deque, goto, looping, exit]
  | test testing =>
    left
    cases ready : s.newAccData <;> simp [deque, goto, testing, ready]
  | getAcc data reading => simp [deque, goto, reading]
  | @pushBack data pushing =>
    have waiting : s.deque.task = .waiting := by simp [deque, pushing]
    exact .inr ⟨_, .pushBack data waiting⟩
  | size sizing =>
    have testing : s.deque.task = .testing := by simp [deque, sizing]
    have tested : (s.goto (if s.data.length > maxNumberInDeque then .trimming else .clearing)).deque
        = { s.deque with
            task := if s.data.length > maxNumberInDeque then .trimming else .waiting } := by
      split <;> rfl
    right
    refine ⟨.testSize, ?_⟩
    rw [tested]
    exact .testSize testing
  | popFront trimming popped =>
    have task : s.deque.task = .trimming := by simp [deque, trimming]
    exact .inr ⟨_, .popFront task popped⟩
  | clear clearing => simp [deque, goto, clearing]

/-- The deque stays within its limits. -/
theorem deque_bounded (run : Run MeasureStep {} h s) : s.deque.Bounded := by
  refine run.invariant (P := fun s => s.deque.Bounded) ?_ ?_
  · exact ⟨Nat.zero_le _, fun _ => Nat.zero_le _⟩
  intro s l t bounded step
  cases deque_step step with
  | inl same =>
    show t.deque.Bounded
    rw [same]
    exact bounded
  | inr own =>
    obtain ⟨e, own⟩ := own
    exact bounded.step own

@[simp] theorem startMeasureTask_exit (s : MeasureTask) :
    s.startMeasureTask.adxl355MeasureThreadExit = s.adxl355MeasureThreadExit := by
  unfold startMeasureTask
  split <;> rfl

@[simp] theorem startMeasureTask_user (s : MeasureTask) : s.startMeasureTask.user = s.user := by
  unfold startMeasureTask
  split <;> rfl

@[simp] theorem startMeasureTask_newAccData (s : MeasureTask) :
    s.startMeasureTask.newAccData = s.newAccData := by
  unfold startMeasureTask
  split <;> rfl

@[simp] theorem cancelMeasureTask_newAccData (s : MeasureTask) :
    s.cancelMeasureTask.newAccData = s.newAccData := by
  unfold cancelMeasureTask
  split <;> rfl

theorem cancelMeasureTask_user (idle : s.user = .idle) : s.cancelMeasureTask.user ≠ .joining := by
  unfold cancelMeasureTask
  split <;> simp [idle]

/-! ### Cancelling -/

/-- A cancellation that waits has the flag up, and the task ends at its next loop test. -/
structure Heard (s : MeasureTask) : Prop where
  flag : s.user = .joining → s.adxl355MeasureThreadExit = true
  ends : s.user = .joining → ∀ t, MeasureStep s .loop t → t.adxl355MeasureT = some .ended

/-- The flag is all that the loop test looks at. -/
theorem heard_iff : s.Heard ↔ (s.user = .joining → s.adxl355MeasureThreadExit = true) := by
  constructor
  · intro heard
    exact heard.flag
  · intro flag
    refine ⟨flag, ?_⟩
    intro joining t step
    cases step with
    | loop looping =>
      rw [flag joining]
      rfl

/-- A step is heard unless it lowers the flag under a cancellation that waits. -/
theorem heard_step_iff (heard : s.Heard) (step : MeasureStep s l t) :
    t.Heard ↔ (l = .reset → s.user ≠ .joining) := by
  rw [heard_iff] at heard ⊢
  cases step with
  | start idle =>
    refine iff_of_true ?_ (by simp)
    rw [startMeasureTask_user, startMeasureTask_exit]
    exact heard
  | cancel idle =>
    refine iff_of_true ?_ (by simp)
    intro joining
    exact absurd joining (cancelMeasureTask_user idle)
  | raise raising => exact iff_of_true (fun _ => rfl) (by simp)
  | join joining ended => exact iff_of_true (fun idle => nomatch idle) (by simp)
  | reset resetting =>
    constructor
    · intro after _ joining
      cases after joining
    · intro notJoining joining
      exact absurd joining (notJoining rfl)
  | interrupt | popFrontN | loop | test | getAcc | pushBack | size | popFront | clear =>
    exact iff_of_true heard (by simp)

/-- Every cancellation is heard at every moment of a run exactly if the task never lowers the
flag while one waits. -/
theorem heard_always_iff (run : Run MeasureStep {} h s) :
    (∀ h', h' <:+ h → (stateAfter {} h').Heard) ↔
      ∀ l u h', (l, u) :: h' <:+ h → l = .reset → (stateAfter {} h').user ≠ .joining := by
  refine run.always_iff (heard_iff.2 fun joining => nomatch joining) ?_
  intro h t l u run heard step
  rw [run.stateAfter_eq] at heard ⊢
  exact heard_step_iff heard step

end Steps

/-- The task is started and lowers the flag before it is cancelled, as after a calibration. -/
theorem heard_after_reset :
    ∃ h s, Run MeasureStep {} h s ∧ h.length = 5 ∧ s.user = .joining ∧
      ∀ h', h' <:+ h → (stateAfter {} h').Heard := by
  have started : Run MeasureStep {} _ _ := .step .nil (.start rfl)
  have reset := Run.step started (.reset rfl)
  have found := Run.step reset (.cancel rfl)
  have raised := Run.step found (.raise rfl)
  have run := Run.step raised (.loop rfl)
  refine ⟨_, _, run, rfl, rfl, (heard_always_iff run).2 ?_⟩
  intro l u h' moment here
  subst here
  obtain ⟨_, rfl⟩ : _ ∧ h' = [(.start, startMeasureTask {})] := by
    simpa [List.suffix_cons_iff] using moment
  exact fun joining => nomatch joining

/-- The task comes to run after it was cancelled, lowers the flag, and goes on. -/
theorem not_heard_before_reset :
    ∃ h s, Run MeasureStep {} h s ∧ s.user = .joining ∧ s.adxl355MeasureThreadExit = false ∧
      ∃ t, MeasureStep s .loop t ∧ t.adxl355MeasureT ≠ some .ended := by
  have started : Run MeasureStep {} _ _ := .step .nil (.start rfl)
  have found := Run.step started (.cancel rfl)
  have raised := Run.step found (.raise rfl)
  have run := Run.step raised (.reset rfl)
  exact ⟨_, _, run, rfl, rfl, _, .loop rfl, by simp [goto]⟩

section Steps

variable {s t : MeasureTask} {l : MeasureEvent} {h : List (MeasureEvent × MeasureTask)}

/-! ### Data-ready interrupts -/

/-- An interrupt has come since the task last began to read a sample. -/
def Unread : List (MeasureEvent × MeasureTask) → Prop
  | [] => False
  | (.interrupt, _) :: _ => True
  | (.getAcc _, _) :: _ => False
  | _ :: h => Unread h

/-- The task is at one of its two tests. -/
def Testing (s : MeasureTask) : Prop :=
  s.adxl355MeasureT = some .looping ∨ s.adxl355MeasureT = some .testing

/-- If the task is at a test and the flag is down, no interrupt is unread. -/
def Answered (h : List (MeasureEvent × MeasureTask)) : Prop :=
  (stateAfter {} h).Testing → (stateAfter {} h).newAccData = false → ¬ Unread h

/-- An unread interrupt has the flag up. -/
def Noted (h : List (MeasureEvent × MeasureTask)) : Prop :=
  Unread h → (stateAfter {} h).newAccData = true

theorem noted_step_iff (noted : Noted h) (step : MeasureStep (stateAfter {} h) l t) :
    Noted ((l, t) :: h) ↔ (l = .clear → ¬ Unread h) := by
  cases step with
  | interrupt => exact iff_of_true (fun _ => rfl) (by simp)
  | getAcc data reading => exact iff_of_true (fun unread => unread.elim) (by simp)
  | clear clearing =>
    constructor
    · intro after _ unread
      cases after unread
    · intro read unread
      exact absurd unread (read rfl)
  | start idle =>
    refine iff_of_true ?_ (by simp)
    intro unread
    exact (startMeasureTask_newAccData _).trans (noted unread)
  | cancel idle =>
    refine iff_of_true ?_ (by simp)
    intro unread
    exact (cancelMeasureTask_newAccData _).trans (noted unread)
  | raise | join | popFrontN | reset | loop | test | pushBack | size | popFront =>
    exact iff_of_true noted (by simp)

theorem noted_always_iff (run : Run MeasureStep {} h s) :
    (∀ h', h' <:+ h → Noted h') ↔
      ∀ l u h', (l, u) :: h' <:+ h → l = .clear → ¬ Unread h' := by
  refine run.always_iff (fun unread => unread.elim) ?_
  intro h t l u run noted step
  rw [← run.stateAfter_eq] at step
  exact noted_step_iff noted step

/-- The turn that lowers the flag leaves the task at its loop test. -/
theorem not_unread_of_answered {u : MeasureTask} (run : Run MeasureStep {} ((.clear, u) :: h) s)
    (answered : Answered ((.clear, u) :: h)) : ¬ Unread h := by
  cases run with
  | step earlier last =>
    cases last with
    | clear clearing => exact answered (.inl rfl) rfl

/-- At every moment of a run in which the task is at a test with the flag down, it has begun
to read a sample after the last interrupt, exactly if it never lowers the flag with an
interrupt come since it last began to read. -/
theorem answered_always_iff (run : Run MeasureStep {} h s) :
    (∀ h', h' <:+ h → Answered h') ↔
      ∀ l u h', (l, u) :: h' <:+ h → l = .clear → ¬ Unread h' := by
  constructor
  · intro answered l u h' moment clear
    subst clear
    exact not_unread_of_answered (run.prefix_run moment) (answered _ moment)
  · intro read h' moment _ down unread
    have up : (stateAfter {} h').newAccData = true := (noted_always_iff run).2 read h' moment unread
    cases down.symm.trans up

end Steps

def sample : Acc3 := ⟨0, 0, 0, 0⟩

/-- A turn of the task up to its last step: an interrupt, and a sample read and kept. -/
theorem run_turn :
    ∃ h s, Run MeasureStep {} h s ∧ s.adxl355MeasureT = some .clearing ∧ ¬ Unread h ∧
      ∀ u h', ¬ (.clear, u) :: h' <:+ h := by
  have started : Run MeasureStep {} _ _ := .step .nil (.start rfl)
  have reset := Run.step started (.reset rfl)
  have ready := Run.step reset .interrupt
  have entered := Run.step ready (.loop rfl)
  have found := Run.step entered (.test rfl)
  have read := Run.step found (.getAcc sample rfl)
  have pushed := Run.step read (.pushBack rfl)
  have sized := Run.step pushed (.size rfl)
  refine ⟨_, _, sized, rfl, id, ?_⟩
  intro u h' moment
  simp [List.suffix_cons_iff] at moment

/-- A whole turn without another interrupt. -/
theorem answered_turn :
    ∃ h s, Run MeasureStep {} h s ∧ s.Testing ∧ s.newAccData = false ∧
      ∀ h', h' <:+ h → Answered h' := by
  obtain ⟨h, s, run, clearing, read, none⟩ := run_turn
  have cleared := run.step (.clear clearing)
  refine ⟨_, _, cleared, .inl rfl, rfl, (answered_always_iff cleared).2 ?_⟩
  intro l u h' moment here
  subst here
  cases List.suffix_cons_iff.1 moment with
  | inl last =>
    cases last
    exact read
  | inr older => exact absurd older (none u h')

/-- An interrupt between the reading and the end of the turn: the flag is lowered, and the
task waits for the next one. -/
theorem not_answered_late_interrupt :
    ∃ h s, Run MeasureStep {} h s ∧ s.Testing ∧ s.newAccData = false ∧ Unread h := by
  obtain ⟨h, s, run, clearing, _, _⟩ := run_turn
  have late := run.step .interrupt
  have cleared := late.step (.clear clearing)
  exact ⟨_, _, cleared, .inl rfl, rfl, trivial⟩

end MeasureTask

end Lra
