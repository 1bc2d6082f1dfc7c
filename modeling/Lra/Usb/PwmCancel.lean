import Lra.Effect.Transition
import Lra.Usb.PwmPlay

/-!
# Cancelling a task

`PwmCmdThreadClose` raises the flag and would join the thread, but the thread is detached:
it returns at once, wherever the task is. `CleanPwmCmdQueue` then empties the queue under a
task that may be about to use its front.
-/

namespace Lra

open Effect

/-- Where the user's thread is in `PwmCmdThreadClose` and `CleanPwmCmdQueue`. -/
inductive PwmCancelPoint where
  | calling
  /-- The flag is raised and the thread may be joined. -/
  | joining
  /-- `PwmCmdThreadClose` has returned. -/
  | closed
  | cleaned
  deriving DecidableEq

/-- `joinable` is that of `pwm_cmd_thread_`. -/
structure PwmCancel where
  play : PwmPlay
  joinable : Bool
  user : PwmCancelPoint := .calling

inductive PwmCancelEvent where
  | task (count : Int64) (sent : Bool)
  | raise
  | close
  | clean

/-- `close` waits for the task where the thread can be joined. -/
inductive PwmCancelStep : PwmCancel → PwmCancelEvent → PwmCancel → Prop where
  | task {s play} (count sent) : 0 ≤ count → s.play.point ≠ .done →
      s.play.pwmCmdTask count sent = some play →
      PwmCancelStep s (.task count sent) { s with play }
  | raise {s} : s.user = .calling →
      PwmCancelStep s .raise
        { s with play := { s.play with pwmCmdThreadExit := true }, user := .joining }
  | close {s} : s.user = .joining → (s.joinable = true → s.play.point = .done) →
      PwmCancelStep s .close { s with joinable := false, user := .closed }
  | clean {s} : s.user = .closed →
      PwmCancelStep s .clean
        { s with play := { s.play with pwmCmdQ := [] }, user := .cleaned }

namespace PwmCancel

/-- `StartPwmCmdThread`, with what the queue still held: the new thread is detached. -/
def startPwmCmdThread (rows : List CsvRow) (pwmCmdQ : List RcwsPwmCmd) (recursiveFlag : Bool) :
    PwmCancel where
  play := { PwmPlay.start rows recursiveFlag with pwmCmdQ }
  joinable := false

/-- The front of an empty queue is used or removed. -/
def Faulty (s : PwmCancel) : Prop :=
  s.play.pwmCmdQ = [] ∧ (s.play.point = .fetching ∨ s.play.point = .popping)

/-- `PwmCmdThreadClose` has returned. -/
def Closed (s : PwmCancel) : Prop := s.user = .closed ∨ s.user = .cleaned

end PwmCancel

/-- Whether the next step works on the queue or sends a row. -/
def PwmCmdPoint.busy : PwmCmdPoint → Bool
  | .loading _ rows => !rows.isEmpty
  | .testingExit | .spinning _ | .testingRecursive _ | .stopping | .done => false
  | _ => true

/-- With the flag raised no busy step is to come. A wait beyond every reading never ends. -/
def PwmCmdPoint.Settled : PwmCmdPoint → Prop
  | .testingExit | .stopping | .done => True
  | .spinning cmd => ¬ cmd.Reached Int64.maxValue
  | _ => False

namespace PwmCancel

open PwmPlay

theorem Closed.called {s : PwmCancel} (closed : s.Closed) : s.user ≠ .calling := by
  intro calling
  cases closed with
  | inl closed => cases calling.symm.trans closed
  | inr cleaned => cases calling.symm.trans cleaned

theorem Closed.joined {s : PwmCancel} (closed : s.Closed) : s.user ≠ .joining := by
  intro joining
  cases closed with
  | inl closed => cases joining.symm.trans closed
  | inr cleaned => cases joining.symm.trans cleaned

/-- The task takes no busy step once `PwmCmdThreadClose` has returned. -/
def Undisturbed (s : PwmCancel) (h : List (PwmCancelEvent × PwmCancel)) : Prop :=
  ∀ count sent u h', (.task count sent, u) :: h' <:+ h → (stateAfter s h').Closed →
    (stateAfter s h').play.point.busy = false

/-! ### The task by itself -/

/-- What the task relies on in the queue. -/
def Ready (p : PwmPlay) : Prop :=
  match p.point with
  | .loading _ _ | .sizing | .stopping | .done => True
  | .printing => p.qTotalLen = p.pwmCmdQ.length
  | .testingQueue => p.pwmCmdQ ≠ [] → p.qTotalLen ≠ 0
  | _ => p.pwmCmdQ ≠ [] ∧ p.qTotalLen ≠ 0

theorem Ready.step {p : PwmPlay} (ready : Ready p) {count : Int64} {sent : Bool} :
    ∃ t, p.pwmCmdTask count sent = some t ∧ Ready t := by
  obtain ⟨q, exit, flag, point, total, last, calls⟩ := p
  cases point with
  | loading timeBias rows => cases rows <;> exact ⟨_, rfl, trivial⟩
  | sizing => exact ⟨_, rfl, rfl⟩
  | printing =>
      refine ⟨_, rfl, fun filled => ?_⟩
      have size : total = q.length := ready
      rw [size]
      exact fun none => filled (List.length_eq_zero_iff.mp none)
  | testingQueue =>
      cases q with
      | nil => exact ⟨_, rfl, trivial⟩
      | cons cmd rest => exact ⟨_, rfl, List.cons_ne_nil _ _, ready (List.cons_ne_nil _ _)⟩
  | testingExit =>
      cases exit with
      | true => exact ⟨_, rfl, trivial⟩
      | false => exact ⟨_, rfl, ready⟩
  | fetching =>
      cases q with
      | nil => exact absurd rfl ready.1
      | cons cmd rest => exact ⟨_, rfl, ready⟩
  | spinning cmd =>
      by_cases reached : cmd.Reached count
      · exact ⟨_, congrArg some (if_pos reached), ready⟩
      · exact ⟨_, congrArg some (if_neg reached), ready⟩
  | sending cmd => exact ⟨_, rfl, ready⟩
  | testingRecursive cmd => cases flag <;> exact ⟨_, rfl, ready⟩
  | pushing cmd => exact ⟨_, rfl, List.concat_ne_nil _ _, ready.2⟩
  | computing =>
      have computed : percentage ⟨q, exit, flag, .computing, total, last, calls⟩ = some _ :=
        if_neg ready.2
      exact ⟨_, pwmCmdTask_computing computed rfl _ _, ready⟩
  | popping =>
      cases q with
      | nil => exact absurd rfl ready.1
      | cons cmd rest => exact ⟨_, rfl, fun _ => ready.2⟩
  | stopping => exact ⟨_, rfl, trivial⟩
  | done => exact ⟨_, rfl, trivial⟩

theorem Ready.not_faulty {s : PwmCancel} (ready : Ready s.play) : ¬ s.Faulty := by
  rintro ⟨empty, point⟩
  cases point with
  | inl fetching =>
      rw [Ready, fetching] at ready
      exact ready.1 empty
  | inr popping =>
      rw [Ready, popping] at ready
      exact ready.1 empty

/-- A settled task whose flag is raised stays settled, and touches nothing. -/
theorem settled_step {p t : PwmPlay} {count : Int64} {sent : Bool} (nonneg : 0 ≤ count)
    (settled : p.point.Settled) (raised : p.pwmCmdThreadExit = true)
    (step : p.pwmCmdTask count sent = some t) :
    t.point.Settled ∧ t.pwmCmdThreadExit = true := by
  obtain ⟨q, exit, flag, point, total, last, calls⟩ := p
  obtain rfl : exit = true := raised
  cases point with
  | testingExit =>
      cases step
      exact ⟨trivial, rfl⟩
  | spinning cmd =>
      have early : ¬ cmd.Reached count :=
        fun reached => settled (reached.of_le nonneg (Int64.le_maxValue count))
      cases step
      rw [if_neg early]
      exact ⟨settled, rfl⟩
  | stopping =>
      cases step
      exact ⟨trivial, rfl⟩
  | done =>
      cases step
      exact ⟨trivial, rfl⟩
  | _ => exact settled.elim

theorem settled_not_busy {point : PwmCmdPoint} (settled : point.Settled) :
    point.busy = false := by
  cases point with
  | testingExit | spinning | stopping | done => rfl
  | _ => exact settled.elim

/-! ### Runs -/

section Runs

variable {rows : List CsvRow} {q : List RcwsPwmCmd} {recursiveFlag : Bool}

/-- What holds whenever the task is closed. -/
structure Kept (s : PwmCancel) : Prop where
  detached : s.joinable = false
  ready : s.user ≠ .cleaned → Ready s.play
  raised : s.user ≠ .calling → s.play.pwmCmdThreadExit = true

theorem kept_start : Kept (startPwmCmdThread rows q recursiveFlag) :=
  ⟨rfl, fun _ => trivial, fun called => absurd rfl called⟩

/-- No step of the task lowers the flag. -/
theorem pwmCmdTask_exit {p t : PwmPlay} {count : Int64} {sent : Bool}
    (step : p.pwmCmdTask count sent = some t) (raised : p.pwmCmdThreadExit = true) :
    t.pwmCmdThreadExit = true := by
  cases pwmCmdTask_calls step with
  | inl same => exact same.2.trans raised
  | inr one =>
      obtain ⟨_, _, exit⟩ := one
      rw [exit, raised]
      rfl

theorem Kept.step {s t : PwmCancel} {l : PwmCancelEvent} (kept : Kept s)
    (step : PwmCancelStep s l t) : Kept t := by
  obtain ⟨detached, ready, raised⟩ := kept
  cases step with
  | @task play count sent _ _ moves =>
      refine ⟨detached, fun dirty => ?_, fun called => pwmCmdTask_exit moves (raised called)⟩
      obtain ⟨t, next, kept⟩ := @Ready.step s.play (ready dirty) count sent
      obtain rfl := Option.some.inj (next.symm.trans moves)
      exact kept
  | raise calling =>
      exact ⟨detached, fun _ => ready (calling.trans_ne nofun), fun _ => rfl⟩
  | close joining _ =>
      refine ⟨rfl, fun _ => ?_, fun _ => ?_⟩
      · exact ready (joining.trans_ne nofun)
      · exact raised (joining.trans_ne nofun)
  | clean closed =>
      refine ⟨detached, fun dirty => absurd rfl dirty, fun _ => ?_⟩
      exact raised (closed.trans_ne nofun)

/-- Where the task is when `PwmCmdThreadClose` returns decides. -/
def Settles (s : PwmCancel) (l : PwmCancelEvent) : Prop := l = .close → s.play.point.Settled

theorem settles_of_ne {s t : PwmCancel} {l : PwmCancelEvent} (step : PwmCancelStep s l t)
    (other : l ≠ .close) : Restrict PwmCancelStep Settles s l t :=
  ⟨fun close => absurd close other, step⟩

/-- With the condition met at the close, a closed task is settled. -/
def KeptSettled (s : PwmCancel) : Prop := Kept s ∧ (s.Closed → s.play.point.Settled)

theorem KeptSettled.step {s t : PwmCancel} {l : PwmCancelEvent} (kept : KeptSettled s)
    (step : Restrict PwmCancelStep Settles s l t) : KeptSettled t := by
  obtain ⟨kept, settled⟩ := kept
  obtain ⟨ok, step⟩ := step
  refine ⟨kept.step step, fun closed => ?_⟩
  cases step with
  | task count sent nonneg _ moves =>
      exact (settled_step nonneg (settled closed) (kept.raised closed.called) moves).1
  | raise => exact absurd rfl closed.joined
  | close => exact ok rfl
  | clean after => exact settled (.inl after)

theorem KeptSettled.not_faulty {s : PwmCancel} (kept : KeptSettled s) : ¬ s.Faulty := by
  by_cases cleaned : s.user = .cleaned
  · have settled := kept.2 (.inr cleaned)
    rintro ⟨_, point⟩
    cases point with
    | inl fetching =>
        rw [fetching] at settled
        exact settled
    | inr popping =>
        rw [popping] at settled
        exact settled
  · exact (kept.1.ready cleaned).not_faulty

theorem keptSettled_of_run {h : List (PwmCancelEvent × PwmCancel)} {s : PwmCancel}
    (run : Run (Restrict PwmCancelStep Settles) (startPwmCmdThread rows q recursiveFlag) h s) :
    KeptSettled s := by
  have initial : KeptSettled (startPwmCmdThread rows q recursiveFlag) :=
    ⟨kept_start, fun closed => absurd rfl closed.called⟩
  exact run.invariant initial fun kept step => kept.step step

/-- If the task is settled whenever `PwmCmdThreadClose` returns, it is undisturbed and
the front of an empty queue is never used or removed. -/
theorem undisturbed {h : List (PwmCancelEvent × PwmCancel)} {s : PwmCancel}
    (run : Run (Restrict PwmCancelStep Settles) (startPwmCmdThread rows q recursiveFlag) h s) :
    Undisturbed (startPwmCmdThread rows q recursiveFlag) h ∧
      ∀ h', h' <:+ h → ¬ (stateAfter (startPwmCmdThread rows q recursiveFlag) h').Faulty := by
  constructor
  · intro count sent u h' suffix closed
    have before : h' <:+ h := (List.suffix_cons _ h').trans suffix
    exact settled_not_busy ((keptSettled_of_run (run.prefix_run before)).2 closed)
  · exact fun h' suffix => (keptSettled_of_run (run.prefix_run suffix)).not_faulty

/-- A task by itself makes a run. -/
theorem exists_run_task {s : PwmCancel} {count : Int64} (nonneg : 0 ≤ count) {sent : Bool}
    {n : Nat} {p : PwmPlay}
    (reached : drive (fun count p => pwmCmdTask count sent p) (fun _ => count) s.play n = some p) :
    ∃ h, Run (Restrict PwmCancelStep Settles) s h { s with play := p } := by
  induction n generalizing p with
  | zero =>
      cases reached
      exact ⟨[], .nil⟩
  | succ n ih =>
      obtain ⟨before, earlier, last⟩ := Option.bind_eq_some_iff.mp reached
      obtain ⟨h, run⟩ := ih earlier
      by_cases finished : before.point = .done
      · have idle : before.pwmCmdTask count sent = some before := by
          unfold pwmCmdTask
          rw [finished]
        obtain rfl := Option.some.inj (idle.symm.trans last)
        exact ⟨h, run⟩
      · have moves : PwmCancelStep { s with play := before } (.task count sent)
            { s with play := p } := .task count sent nonneg finished last
        exact ⟨_, run.step (settles_of_ne moves nofun)⟩

/-! ### The condition is needed -/

theorem exists_disturbed {s₀ s : PwmCancel} {h : List (PwmCancelEvent × PwmCancel)}
    (run : Run PwmCancelStep s₀ h s) (ready : Ready s.play) (closed : s.Closed)
    (busy : s.play.point.busy = true) :
    ∃ e u, Run PwmCancelStep s₀ (e :: h) u ∧ ¬ Undisturbed s₀ (e :: h) := by
  obtain ⟨t, moves, _⟩ := @Ready.step s.play ready 0 true
  have live : s.play.point ≠ .done := by
    intro finished
    rw [finished] at busy
    cases busy
  refine ⟨_, _, .step run (.task 0 true (Int64.le_refl 0) live moves), fun still => ?_⟩
  rw [← run.stateAfter_eq] at closed busy
  rw [still 0 true _ h List.suffix_rfl closed] at busy
  cases busy

/-- A task that is not settled comes to a busy step at once, or after one other. -/
theorem busy_of_not_settled {p : PwmPlay} (unsettled : ¬ p.point.Settled) :
    p.point.busy = true ∨ p.point ≠ .done ∧ ∃ count t, 0 ≤ count ∧
      p.pwmCmdTask count true = some t ∧ t.point.busy = true := by
  obtain ⟨q, exit, flag, point, total, last, calls⟩ := p
  cases point with
  | loading timeBias rows =>
      cases rows with
      | nil => exact .inr ⟨nofun, 0, _, Int64.le_refl 0, rfl, rfl⟩
      | cons row rows => exact .inl rfl
  | spinning cmd =>
      have reached : cmd.Reached Int64.maxValue := Decidable.of_not_not unsettled
      exact .inr ⟨nofun, Int64.maxValue, _, by decide, congrArg some (if_pos reached), rfl⟩
  | testingRecursive cmd => cases flag <;> exact .inr ⟨nofun, 0, _, Int64.le_refl 0, rfl, rfl⟩
  | testingExit => exact absurd trivial unsettled
  | stopping => exact absurd trivial unsettled
  | done => exact absurd trivial unsettled
  | _ => exact .inl rfl

/-- If `PwmCmdThreadClose` returns and the task is not settled, the task may yet be busy. -/
theorem disturbed_of_not_settled {h : List (PwmCancelEvent × PwmCancel)} {s : PwmCancel}
    (run : Run PwmCancelStep (startPwmCmdThread rows q recursiveFlag) h s)
    (joining : s.user = .joining) (unsettled : ¬ s.play.point.Settled) :
    ∃ t h' u, (.close, t) :: h <:+ h' ∧
      Run PwmCancelStep (startPwmCmdThread rows q recursiveFlag) h' u ∧
      ¬ Undisturbed (startPwmCmdThread rows q recursiveFlag) h' := by
  have kept : Kept s := run.invariant kept_start fun kept step => kept.step step
  have ready : Ready s.play := kept.ready (joining.trans_ne nofun)
  have detached : s.joinable = true → s.play.point = .done := by
    rw [kept.detached]
    nofun
  have closes := run.step (.close joining detached)
  cases busy_of_not_settled unsettled with
  | inl busy =>
      obtain ⟨e, u, disturbed⟩ := exists_disturbed closes ready (.inl rfl) busy
      exact ⟨_, _, u, List.suffix_cons _ _, disturbed⟩
  | inr one =>
      obtain ⟨live, count, t, nonneg, moves, busy⟩ := one
      obtain ⟨t', next, ready⟩ := @Ready.step s.play ready count true
      obtain rfl := Option.some.inj (next.symm.trans moves)
      have idles := closes.step (.task count true nonneg live moves)
      obtain ⟨e, u, disturbed⟩ := exists_disturbed idles ready (.inl rfl) busy
      exact ⟨_, _, u, (List.suffix_cons _ _).trans (List.suffix_cons _ _), disturbed⟩

end Runs

/-- A file of one row. -/
def oneRow : List CsvRow := [⟨0, stopInfo⟩]

theorem undisturbed_oneRow :
    ∃ h : List (PwmCancelEvent × PwmCancel),
      (stateAfter (startPwmCmdThread oneRow [] false) h).user = .cleaned ∧
      Undisturbed (startPwmCmdThread oneRow [] false) h ∧
      ∀ h', h' <:+ h → ¬ (stateAfter (startPwmCmdThread oneRow [] false) h').Faulty := by
  have stops : ∃ p, drive (fun count p => pwmCmdTask count true p) (fun _ => (0 : Int64))
      (startPwmCmdThread oneRow [] false).play 13 = some p ∧ p.point = .stopping :=
    ⟨_, rfl, by decide +kernel⟩
  obtain ⟨p, reached, stopping⟩ := stops
  obtain ⟨h, run⟩ := exists_run_task (Int64.le_refl 0) reached
  have settled : p.point.Settled := by
    rw [stopping]
    trivial
  have raised := run.step (settles_of_ne (.raise rfl) nofun)
  have closed := raised.step ⟨fun _ => settled, .close rfl nofun⟩
  have cleaned := closed.step (settles_of_ne (.clean rfl) nofun)
  refine ⟨_, ?_, undisturbed cleaned⟩
  rfl

/-- The row is not sent, which raises the flag. The user then closes the task and cleans
the queue, and the task is at `pop`. -/
theorem pops_cleaned_queue :
    ∃ (h h' : List (PwmCancelEvent × PwmCancel)) (s t : PwmCancel),
      Run PwmCancelStep (startPwmCmdThread oneRow [] false) h s ∧
      s.user = .calling ∧ s.play.pwmCmdThreadExit = true ∧
      Run PwmCancelStep s h' t ∧ t.user = .cleaned ∧ t.Faulty := by
  have pops : ∃ p, drive (fun count p => pwmCmdTask count false p) (fun _ => (0 : Int64))
      (startPwmCmdThread oneRow [] false).play 11 = some p ∧
      p.pwmCmdThreadExit = true ∧ p.point = .popping :=
    ⟨_, rfl, by decide +kernel⟩
  obtain ⟨p, reached, exit, popping⟩ := pops
  obtain ⟨h, run⟩ := exists_run_task (Int64.le_refl 0) reached
  refine ⟨h, _, _, _, run.mono fun step => step.2, rfl, exit,
    ((Run.nil.step (.raise rfl)).step (.close rfl nofun)).step (.clean rfl), ?_, ?_⟩
  · rfl
  · exact ⟨rfl, .inr popping⟩

end PwmCancel

end Lra
