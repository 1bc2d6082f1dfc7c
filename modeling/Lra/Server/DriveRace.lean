import Lra.Server.Stop
import Lra.Server.Tick

/-!
# Start and stop requests against the control loop

Handlers of `drvDriveUpdate` on the event loop interleave with ticks and the timer
at single calls and assignments. A handler that is told to stop pauses the drives
first and lowers `on_run` last, so a tick in between may start them again. The
drives end up stopped in every run in which no tick does that.
-/

namespace Lra

open Effect

namespace Server

/-- Handlers of `drvDriveUpdate` on the event loop, ticks, and the timer. -/
def Thread.drives : Thread → Job → Bool
  | .eventLoop, .event (.drvDriveUpdate _) => true
  | .controlLoop, .tick => true
  | .timer, .trigLoopExpired => true
  | _, _ => false

def driveSystem : System Main World Thread Job where
  sem := served
  code := Job.code
  may i j := i.drives j = true

instance (i : Thread) (j : Job) : Decidable (driveSystem.may i j) :=
  inferInstanceAs (Decidable (_ = true))

/-- The last request was to stop, and its handler cannot come to `PauseDrv` any more. -/
def StopSpent (p : Pool Main World Thread Job) : Prop :=
  match p.thread .eventLoop with
  | none => p.last .eventLoop = some (.event (.drvDriveUpdate false))
  | some (j, rest) =>
    j = .event (.drvDriveUpdate false) ∧ ¬ rest.May (MainOp.call .pauseDrv)

/-- No other thread starts the drives after the last chance to stop them has passed. -/
def SafeStart (p : Pool Main World Thread Job) (l : Label Main Thread Job) : Prop :=
  ∀ i, i ≠ .eventLoop → l = .exec i (.call .runDrv) → ¬ StopSpent p

/-! ### The handler, step by step -/

/-- Where a thread is: a handler has asked for the state of the drives, is to act on
the answer, or is past that; other jobs are not followed. -/
inductive Phase where
  | free
  | asking (toRun : Bool)
  | acting (toRun : Bool)
  | settled (toRun : Bool)

namespace Phase

/-- The request a handler serves. -/
def request : Phase → Option Bool
  | .free => none
  | .asking toRun => some toRun
  | .acting toRun => some toRun
  | .settled toRun => some toRun

/-- The job a phase belongs to. -/
def Of (t : Phase) (j : Job) : Prop :=
  ∀ toRun, t.request = some toRun ↔ j = .event (.drvDriveUpdate toRun)

end Phase

/-- The operations of each phase. -/
inductive Driving : Protocol Main Phase where
  | host {o r} : o.LeavesRun → Driving .free (.host o) r .free
  | call {c r} : Driving .free (.call c) r .free
  | ask {b running} : Driving (.asking b) (.host (.load (.run .x))) running
      (if running = b then .settled b else .acting b)
  | start {r} : Driving (.acting true) (.call .runDrv) r (.settled true)
  | pause {r} : Driving (.acting false) (.call .pauseDrv) r (.settled false)
  | reply {b o r} : o.LeavesRun → Driving (.settled b) (.host o) r (.settled b)

def firstPhase : Job → Phase
  | .event (.drvDriveUpdate toRun) => .asking toRun
  | _ => .free

def lastPhase (j : Job) (t : Phase) : Prop :=
  match j with
  | .event (.drvDriveUpdate toRun) => t = .settled toRun
  | _ => t = .free

/-- A job that is not followed is permitted anything but to assign a cached state. -/
theorem free_host {o : HostOp} (leaves : o.LeavesRun := by trivial) :
    (.op (.host o) .ret : Program Main o.Res).Keeps Driving .free :=
  Program.keeps_op (fun _ => .host leaves) fun r => Program.keeps_ret r

theorem free_call (c : Controller.Call) : (call c).Keeps Driving .free :=
  Program.keeps_op (fun _ => .call) fun r => Program.keeps_ret r

theorem applyCmd_free : applyCmd.Keeps Driving .free := by
  refine (free_host).bind fun onUpdateCmd => ?_
  split
  · exact (free_host).bind fun _ => (free_call _).bind fun _ => free_host
  · exact Program.keeps_ret _

theorem tick_free : tick.Keeps Driving .free := by
  refine tick_keeps (fun {o r} tickOp => ?_) applyCmd_free
  cases tickOp with
  | runDrv => exact .call
  | pauseDrv => exact .call
  | getRt => exact .call
  | changeDrvCh => exact .call
  | _ => exact .host trivial

theorem setToRun_follows (toRun : Bool) :
    (setToRun toRun).Follows Driving (fun u _ => u = .settled toRun) (.asking toRun) := by
  refine Program.follows_step.mpr fun running => ⟨_, .ask, ?_⟩
  cases toRun <;> cases running
  · exact rfl
  · exact fun r => ⟨_, .pause, rfl⟩
  · exact fun r => ⟨_, .start, rfl⟩
  · exact rfl

theorem drvDriveUpdate_follows (toRun : Bool) :
    (drvDriveUpdate toRun).Follows Driving (fun u _ => u = .settled toRun) (.asking toRun) := by
  refine (setToRun_follows toRun).bind fun u _ settled => ?_
  subst settled
  refine fun running => ⟨_, .reply trivial, fun _ => ⟨_, .reply trivial, fun _ => ?_⟩⟩
  exact ⟨_, .reply trivial, rfl⟩

theorem code_follows {i : Thread} {j : Job} (may : driveSystem.may i j) :
    j.code.Follows Driving (fun u _ => lastPhase j u) (firstPhase j) := by
  cases j with
  | tick => exact tick_free
  | trigLoopExpired => exact free_host
  | event e =>
      obtain ⟨toRun, rfl⟩ : ∃ toRun, e = .drvDriveUpdate toRun := by
        cases i <;> cases e <;> first | exact ⟨_, rfl⟩ | cases may
      exact drvDriveUpdate_follows toRun

/-- A settled handler calls nothing any more. -/
theorem settled_not_may {b : Bool} {rest : Program Main Unit} {Q : Phase → Unit → Prop}
    (h : rest.Follows Driving Q (.settled b)) (c : Controller.Call) [Nonempty c.Res] :
    ¬ rest.May (MainOp.call c) := by
  have : Nonempty (Main.Res (MainOp.call c)) := ‹Nonempty c.Res›
  refine h.not_may (K := fun t => t = .settled b) ?_ ?_ rfl
  · rintro t o r t' rfl permitted
    cases permitted
    rfl
  · rintro t r t' rfl permitted
    cases permitted

/-! ### The invariant -/

/-- The three cached states agree. -/
def Uniform (w : World) : Prop := ∀ ax, w.flag (.run ax) = w.flag (.run .x)

/-- `StopSpent` in terms of the handler's phase. -/
def Spent (ts : Thread → Option (Job × Phase)) (last : Thread → Option Job) : Prop :=
  match ts .eventLoop with
  | none => last .eventLoop = some (.event (.drvDriveUpdate false))
  | some (_, t) => t = .settled false

/-- Once the last chance to stop the drives is spent, they are stopped. -/
structure StopInv (ts : Thread → Option (Job × Phase)) (last : Thread → Option Job)
    (w : World) : Prop where
  may : ∀ i j t, ts i = some (j, t) → driveSystem.may i j ∧ t.Of j
  uniform : Uniform w
  stopped : Spent ts last → DrivesStopped w

theorem served_uniform {o : MainOp} {w w' : World} {r : Main.Res o} (uniform : Uniform w)
    (leaves : ∀ h, o = .host h → h.LeavesRun) (answer : served o w r w') : Uniform w' := by
  intro ax
  rw [served_flags answer]
  cases o with
  | host h => rw [(leaves h rfl).flags, (leaves h rfl).flags, uniform ax]
  | call c => exact congrArg c.runs (uniform ax)

/-- Only a call of `RunDrv` starts stopped drives. -/
theorem served_stopped {o : MainOp} {w w' : World} {r : Main.Res o} (stopped : DrivesStopped w)
    (leaves : ∀ h, o = .host h → h.LeavesRun) (notRun : o ≠ .call .runDrv)
    (answer : served o w r w') : DrivesStopped w' := by
  intro ax
  rw [served_flags answer]
  cases o with
  | host h => rw [(leaves h rfl).flags, stopped ax]
  | call c =>
      have runs : c.runs false = false := by
        cases c with
        | runDrv => exact absurd rfl notRun
        | _ => rfl
      change c.runs (w.flag (.run ax)) = false
      rw [stopped ax, runs]

/-- What the protocol permits never assigns a cached state. -/
theorem driving_leaves {t t' : Phase} {o : MainOp} {r : Main.Res o}
    (permitted : Driving t o r t') (h : HostOp) (host : o = .host h) : h.LeavesRun := by
  cases permitted with
  | host leaves =>
      cases host
      exact leaves
  | reply leaves =>
      cases host
      exact leaves
  | ask =>
      cases host
      trivial
  | _ => cases host

/-- A step stays within its job. -/
theorem driving_request {t t' : Phase} {o : MainOp} {r : Main.Res o}
    (permitted : Driving t o r t') : t'.request = t.request := by
  cases permitted with
  | ask => split <;> rfl
  | _ => rfl

/-- A handler only becomes settled on a request to stop by finding the drives stopped
or by pausing them. -/
theorem spent_of_step {t t' : Phase} {o : MainOp} {w w' : World} {r : Main.Res o}
    (uniform : Uniform w) (fresh : t ≠ .settled false) (permitted : Driving t o r t')
    (spent : t' = .settled false) (answer : served o w r w') : DrivesStopped w' := by
  cases permitted with
  | host _ => cases spent
  | call => cases spent
  | start => cases spent
  | reply _ => exact absurd spent fresh
  | pause =>
      intro ax
      rw [served_flags answer]
      rfl
  | @ask b running =>
      obtain ⟨rfl, rfl⟩ : running = w.flag (.run .x) ∧ w' = w := served_host.mp answer
      split at spent
      · next same =>
          obtain rfl : b = false := by simpa using spent
          exact fun ax => (uniform ax).trans same
      · cases spent

/-! ### The invariant along interleavings -/

/-- A settled handler that was told to stop has spent its last chance. -/
theorem stopSpent_of_spent {p : Pool Main World Thread Job} {ts : Thread → Option (Job × Phase)}
    (tracks : Tracks Driving lastPhase p ts) (inv : StopInv ts p.last p.mem)
    (spent : Spent ts p.last) : StopSpent p := by
  cases state : ts .eventLoop with
  | none =>
      have idle := tracks.none_iff.mpr state
      simp only [Spent, state] at spent
      simp only [StopSpent, idle]
      exact spent
  | some jt =>
      obtain ⟨j, t⟩ := jt
      obtain ⟨rest, active, follows⟩ := tracks.of_state state
      obtain rfl : t = .settled false := by simpa [Spent, state] using spent
      simp only [StopSpent, active]
      exact ⟨((inv.may _ _ _ state).2 false).mp rfl, settled_not_may follows .pauseDrv⟩

theorem firstPhase_of (j : Job) : (firstPhase j).Of j := by
  intro toRun
  unfold firstPhase
  split
  · simp [Phase.request]
  · next notUpdate => simpa [Phase.request] using notUpdate toRun

theorem firstPhase_ne (j : Job) (b : Bool) : firstPhase j ≠ .settled b := by
  unfold firstPhase
  split <;> simp

theorem spent_update_of_ne {ts : Thread → Option (Job × Phase)} {last : Thread → Option Job}
    {i : Thread} (other : i ≠ .eventLoop) (st : Option (Job × Phase)) :
    Spent (Function.update ts i st) last ↔ Spent ts last := by
  simp only [Spent, Function.update_of_ne (Ne.symm other)]

theorem spent_update_self {ts : Thread → Option (Job × Phase)} {last : Thread → Option Job}
    {j : Job} {t : Phase} :
    Spent (Function.update ts .eventLoop (some (j, t))) last ↔ t = .settled false := by
  simp only [Spent, Function.update_self]

/-- No operation of one thread breaks the invariant, if starts are safe. -/
theorem exec_preserves {p : Pool Main World Thread Job} {ts : Thread → Option (Job × Phase)}
    {i : Thread} {j : Job} {t t' : Phase} {o : MainOp} {r : Main.Res o} {m : World}
    (tracks : Tracks Driving lastPhase p ts) (inv : StopInv ts p.last p.mem)
    (state : ts i = some (j, t)) (permitted : Driving t o r t')
    (answer : served o p.mem r m) (safe : SafeStart p (.exec i o)) :
    StopInv (Function.update ts i (some (j, t'))) p.last m := by
  have leaves := driving_leaves permitted
  obtain ⟨may, of⟩ := inv.may i j t state
  have of' : t'.Of j := by
    rw [Phase.Of, driving_request permitted]
    exact of
  refine ⟨active_update ⟨may, of'⟩ fun k j' u _ => inv.may k j' u,
    served_uniform inv.uniform leaves answer, fun spent => ?_⟩
  by_cases event : i = .eventLoop
  · subst event
    obtain rfl := spent_update_self.mp spent
    by_cases settled : t = .settled false
    · subst settled
      have before : Spent ts p.last := by simp [Spent, state]
      refine served_stopped (inv.stopped before) leaves ?_ answer
      rintro rfl
      cases permitted
    · exact spent_of_step inv.uniform settled permitted rfl answer
  · have before := (spent_update_of_ne event _).mp spent
    refine served_stopped (inv.stopped before) leaves ?_ answer
    rintro rfl
    exact safe i event rfl (stopSpent_of_spent tracks inv before)

/-- A handler that returns on a request to stop has settled it. -/
theorem finish_preserves {last : Thread → Option Job} {ts : Thread → Option (Job × Phase)}
    {i : Thread} {j : Job} {t : Phase} {m : World} (inv : StopInv ts last m)
    (state : ts i = some (j, t)) (final : lastPhase j t) :
    StopInv (Function.update ts i none) (Function.update last i (some j)) m := by
  refine ⟨active_retire fun k j' u _ => inv.may k j' u, inv.uniform, fun spent => ?_⟩
  by_cases event : i = .eventLoop
  · subst event
    obtain rfl : j = .event (.drvDriveUpdate false) := by simpa [Spent] using spent
    obtain rfl : t = .settled false := final
    exact inv.stopped (by simp [Spent, state])
  · simp only [Spent, Function.update_of_ne (Ne.symm event)] at spent
    exact inv.stopped spent

theorem preserved : Preserved driveSystem Driving firstPhase lastPhase SafeStart StopInv where
  follows may := code_follows may
  exec tracks inv state _ permitted answer safe :=
    exec_preserves tracks inv state permitted answer safe
  finish _ inv state final := finish_preserves inv state final
  start := by
    intro p ts i j tracks inv idle may
    refine ⟨active_update ⟨may, firstPhase_of j⟩ fun k j' u _ => inv.may k j' u, inv.uniform,
      fun spent => ?_⟩
    by_cases event : i = .eventLoop
    · subst event
      exact absurd (spent_update_self.mp spent) (firstPhase_ne j false)
    · exact inv.stopped ((spent_update_of_ne event _).mp spent)

/-- In every interleaving in which no tick starts the drives after the last chance to
stop them is spent: when no handler is in progress and the last request was to stop,
all three drives are stopped. -/
theorem stopped_when_idle {w : World} {q : Pool Main World Thread Job} (start : Started w)
    (reached : driveSystem.ReachesBy SafeStart (Pool.idle w) q)
    (idle : q.thread .eventLoop = none)
    (last : q.last .eventLoop = some (.event (.drvDriveUpdate false))) : DrivesStopped q.mem := by
  have inv : StopInv (fun _ => none) (fun _ => none) w := by
    refine ⟨fun _ _ _ h => (nomatch h), fun ax => ?_, fun h => (nomatch h)⟩
    rw [start.flag, start.flag]
  obtain ⟨ts, tracks, inv⟩ := preserved.reaches (Tracks.idle w) inv reached
  refine inv.stopped ?_
  simp only [Spent, tracks.none_iff.mp idle]
  exact last

/-! ### The schedule that loses a stop -/

/-- The drives run on a first request. -/
def startSchedule : List (System.Move Thread Job) :=
  .start .eventLoop (.event (.drvDriveUpdate true)) ::
    List.replicate 5 (.go .eventLoop) ++ [.finish .eventLoop]

/-- The timer expires, and a whole tick falls between the pause of a second request
and its assignment to `on_run`. -/
def lostStopSchedule : List (System.Move Thread Job) :=
  [.start .timer .trigLoopExpired, .go .timer, .finish .timer,
    .start .eventLoop (.event (.drvDriveUpdate false)), .go .eventLoop, .go .eventLoop,
    .start .controlLoop .tick] ++
  List.replicate 11 (.go .controlLoop) ++ [.finish .controlLoop] ++
  List.replicate 3 (.go .eventLoop) ++ [.finish .eventLoop]

/-- A tick that starts the drives again comes before a request to stop, and another tick after
it. -/
def keptStopSchedule : List (System.Move Thread Job) :=
  [.start .timer .trigLoopExpired, .go .timer, .finish .timer, .start .controlLoop .tick] ++
  List.replicate 11 (.go .controlLoop) ++
  [.finish .controlLoop, .start .eventLoop (.event (.drvDriveUpdate false))] ++
  List.replicate 5 (.go .eventLoop) ++
  [.finish .eventLoop, .start .timer .trigLoopExpired, .go .timer, .finish .timer,
    .start .controlLoop .tick] ++
  List.replicate 9 (.go .controlLoop) ++ [.finish .controlLoop]

/-- A tick starts the drives only while no handler is in progress and the last one was not told
to stop. -/
def startsOutside (p : Pool Main World Thread Job) : Label Main Thread Job → Bool
  | .exec i (.call .runDrv) => i == .eventLoop || (p.thread .eventLoop).isNone &&
      p.last .eventLoop != some (.event (.drvDriveUpdate false))
  | _ => true

theorem startsOutside_safe (p : Pool Main World Thread Job) (l : Label Main Thread Job)
    (h : startsOutside p l = true) : SafeStart p l := by
  rintro i other rfl
  simp only [startsOutside, Bool.or_eq_true, beq_iff_eq, other, false_or, Bool.and_eq_true,
    Option.isNone_iff_eq_none, bne_iff_ne] at h
  rw [StopSpent, h.1]
  exact h.2

/-- No handler and no tick is in progress, and the last request was to stop. -/
def stopHandled (q : Pool Main World Thread Job) : Bool :=
  (q.thread .eventLoop).isNone && (q.thread .controlLoop).isNone &&
    q.last .eventLoop == some (.event (.drvDriveUpdate false))

theorem running_after_stop :
    ∃ w q, Started w ∧ driveSystem.Reaches (Pool.idle w) q ∧ stopHandled q = true ∧
      ∀ ax, q.mem.flag (.run ax) = true := by
  have played : (driveSystem.play server (fun _ _ => true) (startSchedule ++ lostStopSchedule)
      (Pool.idle initialised)).any (fun q => stopHandled q && q.mem.flag (.run .x) &&
        q.mem.flag (.run .y) && q.mem.flag (.run .z)) = true := by
    decide +kernel
  obtain ⟨q, reached, check⟩ := System.exists_of_play server_within_served
    (fun _ _ _ => trivial) (by decide) played
  simp only [Bool.and_eq_true] at check
  obtain ⟨⟨⟨handled, x⟩, y⟩, z⟩ := check
  refine ⟨initialised, q, initialised_started, reached, handled, fun ax => ?_⟩
  cases ax
  · exact x
  · exact y
  · exact z

/-- The drives are stopped after a request to run, a tick that starts them once more, a request
to stop and another tick. -/
theorem stopped_when_idle_ticks :
    ∃ w q, Started w ∧ driveSystem.ReachesBy SafeStart (Pool.idle w) q ∧
      q.thread .eventLoop = none ∧ q.last .eventLoop = some (.event (.drvDriveUpdate false)) ∧
      q.last .controlLoop = some .tick ∧ DrivesStopped q.mem := by
  have played : (driveSystem.play server startsOutside (startSchedule ++ keptStopSchedule)
      (Pool.idle initialised)).any (fun q => stopHandled q && q.last .controlLoop == some .tick) =
        true := by
    decide +kernel
  obtain ⟨q, reached, check⟩ := System.exists_of_play server_within_served
    startsOutside_safe (by decide) played
  simp only [stopHandled, Bool.and_eq_true, Option.isNone_iff_eq_none, beq_iff_eq] at check
  obtain ⟨⟨⟨idle, _⟩, last⟩, ticked⟩ := check
  exact ⟨initialised, q, initialised_started, reached, idle, last, ticked,
    stopped_when_idle initialised_started reached idle last⟩

end Server

end Lra
