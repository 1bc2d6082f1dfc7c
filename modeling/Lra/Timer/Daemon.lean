import Lra.Timer.Rate

/-!
# The daemon of the timer

`Timer::Run` beside the threads that set and cancel events. The daemon sleeps until the first
event is due; an event that is pushed meanwhile wakes it by `push_flag_`, which is set after
the event is in the queue and cleared by the daemon some time after it was seen. Only while
nothing was scheduled the daemon sleeps for a second and hears nothing.
-/

namespace Lra

open Effect Search TimerEvent

variable {τ : Type}

/-- `Value::kIdleSleepMs` -/
def kIdleSleepMs : ℚ := 1000

/-- Where the daemon is. -/
inductive DaemonPoint where
  /-- `while (run_flag_)` -/
  | testingRun
  | testingEmpty
  /-- `sleep` of one second, since `start`. -/
  | idle (start : ℚ)
  | handling
  | evaluating
  /-- In `PreciseSleepms`, for the interval that ends at `wake`. -/
  | sleeping (wake : ℚ)
  /-- `push_flag_` was seen there, and is still to be cleared. -/
  | interrupted
  /-- `t_now_` is taken. -/
  | waking
  | ended

structure Daemon (τ : Type) where
  timer : Timer τ := {}
  runFlag : Bool := true
  canDestroy : Bool := false
  pushFlag : Bool := false
  /-- The calls that have pushed their event and have still to set the flag. -/
  pushing : Nat := 0
  point : DaemonPoint := .testingRun

namespace Timer

/-- `EvalNextInterval`, when the clock shows `now`. -/
inductive EvalNextInterval (s : Timer τ) (now : ℚ) : ℚ → Prop where
  | empty : s.eventQueue = 0 → EvalNextInterval s now kIdleSleepMs
  | top {event rest} : Top event s.eventQueue rest →
      EvalNextInterval s now (event.periodMs - (now - event.t))

/-- The interval ends before anything is due. -/
theorem EvalNextInterval.le_deadline {s : Timer τ} {now ms : ℚ} (eval : s.EvalNextInterval now ms) :
    ∀ e ∈ s.eventQueue, now + ms ≤ e.deadline := by
  intro e inside
  cases eval with
  | empty none =>
      rw [none] at inside
      exact absurd inside (Multiset.notMem_zero e)
  | @top event rest top =>
      have first : event.deadline ≤ e.deadline := top.key_le lt_iff e inside
      unfold deadline at first ⊢
      linarith

end Timer

/-- A step of a thread that uses the timer, or of the daemon. -/
inductive DaemonAct (τ : Type) where
  /-- An operation of the timer. `SetEvent` and `SetLoopEvent` have still to set the flag. -/
  | timer (act : TimerAct τ)
  | setPushFlag
  /-- `Delete`, or the destructor. -/
  | delete
  /-- A step of `Run`, with what it read from the clock. -/
  | run (now : Option ℚ)

def DaemonAct.readings : DaemonAct τ → List ℚ
  | .timer act => act.readings
  | .run now => now.toList
  | _ => []

/-- Only the daemon dispatches. -/
inductive DaemonStep : Daemon τ → DaemonAct τ → Daemon τ → Prop where
  | create {s act t} : act.creates = true → TimerStep s.timer act t →
      DaemonStep s (.timer act) { s with timer := t, pushing := s.pushing + 1 }
  | setPushFlag {s} : 0 < s.pushing →
      DaemonStep s .setPushFlag { s with pushFlag := true, pushing := s.pushing - 1 }
  | cancel {s uid ret t} : TimerStep s.timer (.cancelEvent uid ret) t →
      DaemonStep s (.timer (.cancelEvent uid ret)) { s with timer := t }
  | delete {s} : DaemonStep s .delete { s with runFlag := false }
  | testRun {s} : s.point = .testingRun →
      DaemonStep s (.run none) (if s.runFlag then { s with point := .testingEmpty }
        else { s with canDestroy := true, point := .ended })
  | testEmpty {s now} : s.point = .testingEmpty →
      DaemonStep s (.run (some now))
        { s with point := if s.timer.eventQueue.card = 0 then .idle now else .handling }
  | idle {s start} : s.point = .idle start → DaemonStep s (.run none) { s with point := .waking }
  | handle {s start stop c t} : s.point = .handling →
      TimerStep s.timer (.handleExpiredEvents start stop c) t →
      DaemonStep s (.timer (.handleExpiredEvents start stop c))
        { s with timer := t, point := .evaluating }
  | eval {s now ms} : s.point = .evaluating → s.timer.EvalNextInterval now ms →
      DaemonStep s (.run (some now)) { s with point := .sleeping (now + ms) }
  | poll {s wake} : s.point = .sleeping wake → s.pushFlag = true →
      DaemonStep s (.run none) { s with point := .interrupted }
  | clear {s} : s.point = .interrupted →
      DaemonStep s (.run none) { s with pushFlag := false, point := .waking }
  | expire {s wake} : s.point = .sleeping wake → DaemonStep s (.run none) { s with point := .waking }
  | wake {s now} : s.point = .waking →
      DaemonStep s (.run (some now)) { s with point := .testingRun }

namespace Daemon

/-- What is known of the daemon while it sleeps. `times` are the readings so far. -/
structure Heard (times : List ℚ) (s : Daemon τ) : Prop where
  sleeping : ∀ wake, s.point = .sleeping wake → s.pushFlag = true ∨ 0 < s.pushing ∨
    ∀ e ∈ s.timer.eventQueue, wake ≤ e.deadline
  idle : ∀ start, s.point = .idle start → start ∈ times ∧ ∀ e ∈ s.timer.eventQueue, start ≤ e.t

section Steps

variable {s s' : Daemon τ} {times : List ℚ} {l : DaemonAct τ}

/-- A point at which the daemon does not sleep. -/
theorem heard_of_awake (sleeping : ∀ wake, s.point ≠ .sleeping wake)
    (idle : ∀ start, s.point ≠ .idle start) : Heard times s :=
  ⟨fun wake here => absurd here (sleeping wake), fun start here => absurd here (idle start)⟩

/-- The event that is created is the only new one, and it is armed then. -/
theorem mem_created {t u : Timer τ} {act : TimerAct τ} (creates : act.creates = true)
    (step : TimerStep t act u) : ∃ now ∈ act.readings, ∀ e ∈ u.eventQueue,
      e ∈ t.eventQueue ∨ e.t = now := by
  cases step with
  | setEvent task durationMs now | setLoopEvent task periodMs now =>
      refine ⟨now, List.mem_singleton.mpr rfl, fun e inside => ?_⟩
      cases Multiset.mem_cons.mp inside with
      | inl new => exact .inr (new ▸ rfl)
      | inr old => exact .inl old
  | cancelEvent | handleExpiredEvents => cases creates

theorem Heard.step (heard : Heard times s) (step : DaemonStep s l s')
    (clock : (times ++ l.readings).Pairwise (· ≤ ·)) : Heard (times ++ l.readings) s' := by
  have between := (List.pairwise_append.mp clock).2.2
  cases step with
  | create creates step =>
      obtain ⟨now, read, new⟩ := mem_created creates step
      refine ⟨fun wake here => .inr (.inl (Nat.succ_pos _)), fun start here => ?_⟩
      obtain ⟨started, armed⟩ := heard.idle start here
      refine ⟨List.mem_append_left _ started, fun e inside => ?_⟩
      cases new e inside with
      | inl old => exact armed e old
      | inr last => exact last ▸ between start started now read
  | setPushFlag _ =>
      refine ⟨fun wake here => .inl rfl, fun start here => ?_⟩
      exact ⟨List.mem_append_left _ (heard.idle start here).1, (heard.idle start here).2⟩
  | @cancel uid ret t step =>
      have same : t.eventQueue = s.timer.eventQueue := by
        cases step with
        | cancelEvent =>
            cases Timer.cancelEvent_cases s.timer uid with
            | inl refused => rw [refused.1]
            | inr removed => rw [removed.2.2]
      refine ⟨fun wake here => ?_, fun start here => ?_⟩
      · simpa only [same] using heard.sleeping wake here
      · obtain ⟨started, armed⟩ := heard.idle start here
        exact ⟨List.mem_append_left _ started, same ▸ armed⟩
  | delete =>
      refine ⟨heard.sleeping, fun start here => ?_⟩
      exact ⟨List.mem_append_left _ (heard.idle start here).1, (heard.idle start here).2⟩
  | testRun _ =>
      split
      · exact heard_of_awake nofun nofun
      · exact heard_of_awake nofun nofun
  | @testEmpty now _ =>
      refine ⟨fun wake here => ?_, fun start here => ?_⟩
      · simp only at here
        split at here <;> cases here
      · simp only at here
        split at here
        · next empty =>
            cases here
            refine ⟨by simp [DaemonAct.readings], fun e inside => ?_⟩
            rw [Multiset.card_eq_zero.mp empty] at inside
            exact absurd inside (Multiset.notMem_zero e)
        · cases here
  | eval _ eval =>
      refine ⟨fun wake here => ?_, nofun⟩
      cases here
      exact .inr (.inr eval.le_deadline)
  | idle _ | handle _ _ | poll _ _ | clear _ | expire _ | wake _ =>
      exact heard_of_awake nofun nofun

end Steps

end Daemon

end Lra
