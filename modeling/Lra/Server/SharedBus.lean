import Lra.Controller.Routing
import Lra.Server.Stop

/-!
# Two threads on one bus

The event loop and the control loop interleave at single transfers and single
accesses to shared variables. A transfer finds its own channel selected as long as
no thread moves the multiplexer while another still has a transfer to make on a
different channel before it selects one itself. The flags of the server do not
ensure that.
-/

namespace Lra

open Effect

/-- The program may issue a transfer of the drive on `ax` before it selects a channel. -/
def Owes (ax : Axis) {α : Type} : Program Io α → Prop
  | .ret _ => False
  | .op (.host _) next => ∃ r, Owes ax (next r)
  | .op (.setTcaCh _) next => Owes ax (next ())
  | .op (.bus .tca _) _ => False
  | .op (.bus (.drv ax') _) next => ax' = ax ∨ ∃ r, Owes ax (next r)

/-- On the discipline of one thread, only the channel selected last can be owed. -/
theorem sel_of_owes {ax : Axis} {α : Type} {p : Program Io α} {Q : Route → α → Prop} {t : Route}
    (follows : p.Follows Routed Q t) (owes : Owes ax p) : t.sel = some ax := by
  induction p generalizing t with
  | ret a => exact owes.elim
  | op o next ih =>
      cases o with
      | host o =>
          obtain ⟨r, owes⟩ := owes
          obtain ⟨t', permitted, rest⟩ := follows r
          cases permitted
          exact ih r rest owes
      | setTcaCh c =>
          obtain ⟨t', permitted, rest⟩ := follows ()
          cases permitted
          have sel := ih () rest owes
          exact sel
      | bus dev call =>
          cases dev with
          | tca => exact owes.elim
          | drv ax' =>
              rcases owes with rfl | ⟨r, owes⟩
              · obtain ⟨t', permitted, _⟩ := follows ⟨0, []⟩
                cases permitted with
                | transfer sel _ => exact sel
              · obtain ⟨t', permitted, rest⟩ := follows r
                cases permitted
                exact ih r rest owes

namespace Server

/-! ### The system -/

/-- All handlers, ticks and the timer, down to their transfers. -/
def busSystem : System Io World Thread Job where
  sem := wired
  code j := j.code.interp MainOp.impl
  may i j := i.runs j

instance (i : Thread) (j : Job) : Decidable (busSystem.may i j) :=
  inferInstanceAs (Decidable (i.runs j))

/-- No thread selects a channel while another owes a transfer on a different one. -/
def SafeSelect (p : Pool Io World Thread Job) (l : Label Io Thread Job) : Prop :=
  ∀ i ax, l = .exec i (.bus .tca (Tca9548a.selectCall (drvCh ax))) →
    ∀ k j rest, k ≠ i → p.thread k = some (j, rest) → ∀ ax', Owes ax' rest → ax' = ax

/-- Every operation of the server is a whole operation of the controller or none. -/
theorem impl_orderly (o : MainOp) : Controller.Orderly o.impl := by
  cases o with
  | host o => exact fun t settled => Controller.idle_of_keeps (host_keeps fun _ => .host) settled
  | call c => exact c.orderly

/-- Every job keeps to the discipline from its start. -/
theorem code_routed (j : Job) :
    (busSystem.code j).Follows Routed (fun u _ => u.Settled) Route.initial :=
  Program.follows_interp (fun o t settled => impl_orderly o t settled) j.code rfl

/-- Each thread is on the discipline, and the channel it owes is selected. -/
def OwedSelected (p : Pool Io World Thread Job) : Prop :=
  ∀ i j rest, p.thread i = some (j, rest) →
    (∃ t, rest.Follows Routed (fun u _ => u.Settled) t) ∧
      ∀ ax, Owes ax rest → p.mem.On ax

theorem owedSelected_start {p : Pool Io World Thread Job} {i : Thread} {j : Job}
    (inv : OwedSelected p) : OwedSelected (p.begin i j (busSystem.code j)) := by
  refine active_update ⟨⟨_, code_routed j⟩, fun ax owes => ?_⟩ fun k j' rest _ => inv k j' rest
  cases sel_of_owes (code_routed j) owes

theorem owedSelected_finish {p : Pool Io World Thread Job} {i : Thread} {j : Job}
    (inv : OwedSelected p) : OwedSelected (p.retire i j) :=
  active_retire fun k j' rest _ => inv k j' rest

/-- Operations that are not selections leave the multiplexer where it is. -/
theorem control_of_routed {t t' : Route} {o : IoOp} {r : Io.Res o} {w w' : World}
    (permitted : Routed t o r t') (answer : wired o w r w') :
    (∃ ax, o = .bus .tca (Tca9548a.selectCall (drvCh ax)) ∧ w'.On ax ∧ t'.sel = some ax) ∨
      (w'.board.control = w.board.control ∧
        ∀ {next : Io.Res o → Program Io Unit} {ax}, Owes ax (next r) → Owes ax (.op o next)) := by
  cases permitted with
  | host =>
      obtain ⟨board, _⟩ := host_channel answer
      exact .inr ⟨by rw [board], fun owes => ⟨_, owes⟩⟩
  | name =>
      obtain rfl := answer
      exact .inr ⟨rfl, fun owes => owes⟩
  | @select t ax r => exact .inl ⟨ax, rfl, (wired_select answer).1, rfl⟩
  | transfer sel slave => exact .inr ⟨(wired_drv slave answer).1, fun owes => .inr ⟨_, owes⟩⟩

theorem owedSelected_exec {p : Pool Io World Thread Job} {i : Thread} {j : Job} {o : IoOp}
    {next : Io.Res o → Program Io Unit} {r : Io.Res o} {m : World} (inv : OwedSelected p)
    (active : p.thread i = some (j, .op o next)) (answer : wired o p.mem r m)
    (safe : SafeSelect p (.exec i o)) : OwedSelected (p.advance i j (next r) m) := by
  obtain ⟨⟨t, follows⟩, owed⟩ := inv i j _ active
  obtain ⟨t', permitted, rest⟩ := follows r
  refine active_update ⟨⟨t', rest⟩, fun ax owes => ?_⟩ fun k j' rest' other active' => ?_
  · rcases control_of_routed permitted answer with ⟨ax', -, on, sel⟩ | ⟨control, later⟩
    · obtain rfl : ax' = ax := by simpa [sel] using sel_of_owes rest owes
      exact on
    · change m.board.control = _
      rw [control]
      exact owed ax (later owes)
  · obtain ⟨follows', owed'⟩ := inv k j' rest' active'
    refine ⟨follows', fun ax owes => ?_⟩
    rcases control_of_routed permitted answer with ⟨ax', rfl, on, -⟩ | ⟨control, -⟩
    · obtain rfl := safe i ax' rfl k j' rest' other active' ax owes
      exact on
    · change m.board.control = _
      rw [control]
      exact owed' ax owes

theorem owedSelected_step {p q : Pool Io World Thread Job} {l : Label Io Thread Job}
    (inv : OwedSelected p) (safe : SafeSelect p l) (step : busSystem.Step p l q) :
    OwedSelected q := by
  cases step with
  | start _ _ => exact owedSelected_start inv
  | exec active answer => exact owedSelected_exec inv active answer safe
  | finish _ => exact owedSelected_finish inv

/-- In every interleaving in which channels are selected safely, each transfer of a
drive is executed while the multiplexer holds that drive's channel, and reaches no
other drive. -/
theorem transfers_on_own_channel {w : World} {p q : Pool Io World Thread Job} {i : Thread}
    {ax : Axis} {call : BusCall} (reached : busSystem.ReachesBy SafeSelect (Pool.idle w) p)
    (step : busSystem.Step p (.exec i (.bus (.drv ax) call)) q) :
    p.mem.On ax ∧ ∀ ax', p.mem.board.selected ax' = true → ax' = ax := by
  have idle : OwedSelected (Pool.idle w) := fun _ _ _ active => (nomatch active)
  have inv := reached.invariant idle fun inv safe step => owedSelected_step inv safe step
  cases step with
  | exec active _ =>
      have on := (inv i _ _ active).2 ax (.inl rfl)
      refine ⟨on, fun ax' reached => ?_⟩
      simpa [Board.selected_eq on] using reached

/-! ### A schedule that writes to another drive -/

/-- The drives are started, and the timer expires. -/
def startDrives : List (System.Move Thread Job) :=
  .start .eventLoop (.event (.drvDriveUpdate true)) :: List.replicate 28 (.go .eventLoop) ++
    [.finish .eventLoop, .start .timer .trigLoopExpired, .go .timer, .finish .timer]

/-- A modification selects the channel of `x`; the tick it makes pause the drives
then selects that of `y`. -/
def modifyDuringTick : List (System.Move Thread Job) :=
  .start .eventLoop (.event (.regAllUpdate (List.replicate 34 0) (List.replicate 34 0)
      (List.replicate 34 0) [])) :: List.replicate 4 (.go .eventLoop) ++
    .start .controlLoop .tick :: List.replicate 14 (.go .controlLoop)

/-- The event loop is about to transfer to the drive on `x`. -/
def transfersX (p : Pool Io World Thread Job) : Bool :=
  match p.thread .eventLoop with
  | some (_, .op (.bus (.drv .x) _) _) => true
  | _ => false

theorem step_of_transfersX {p : Pool Io World Thread Job} (h : transfersX p = true) :
    ∃ call q, busSystem.Step p (.exec .eventLoop (.bus (.drv .x) call)) q := by
  unfold transfersX at h
  split at h
  · next j call next active =>
      exact ⟨call, _, .exec active (bench_within_wired (.bus (.drv .x) call) p.mem)⟩
  · cases h

/-- A transfer meant for `x` is executed while the multiplexer is on `y`. -/
theorem transfer_on_wrong_channel :
    ∃ w p q call, Started w ∧ busSystem.Reaches (Pool.idle w) p ∧
      busSystem.Step p (.exec .eventLoop (.bus (.drv .x) call)) q ∧ p.mem.On .y ∧
      ¬ p.mem.On .x := by
  have played : (busSystem.play bench (fun _ _ => true) (startDrives ++ modifyDuringTick)
      (Pool.idle initialised)).any
        (fun p => transfersX p && decide (p.mem.On .y) && !decide (p.mem.On .x)) = true := by
    decide +kernel
  obtain ⟨p, reached, check⟩ := System.exists_of_play bench_within_wired
    (fun _ _ _ => trivial) (by decide) played
  simp only [Bool.and_eq_true, decide_eq_true_eq, Bool.not_eq_true', decide_eq_false_iff_not]
    at check
  obtain ⟨⟨transfers, onY⟩, notX⟩ := check
  obtain ⟨call, q, step⟩ := step_of_transfersX transfers
  exact ⟨initialised, p, q, call, initialised_started, reached, step, onY, notX⟩

/-- Channels are selected only while every other thread is idle. -/
def aloneOnBus (p : Pool Io World Thread Job) : Label Io Thread Job → Bool
  | .exec i (.bus .tca _) =>
    [Thread.eventLoop, .controlLoop, .timer].all fun k => k == i || (p.thread k).isNone
  | _ => true

theorem aloneOnBus_safe (p : Pool Io World Thread Job) (l : Label Io Thread Job)
    (h : aloneOnBus p l = true) : SafeSelect p l := by
  rintro i ax rfl k j rest other active ax' owes
  have mem : k ∈ [Thread.eventLoop, .controlLoop, .timer] := by cases k <;> decide
  have idle := List.all_eq_true.mp h k mem
  simp [other, active] at idle

/-- A handler alone on the bus finds the channel it selected. -/
theorem transfers_on_own_channel_alone :
    ∃ p q call, busSystem.ReachesBy SafeSelect (Pool.idle initialised) p ∧
      busSystem.Step p (.exec .eventLoop (.bus (.drv .x) call)) q ∧
      p.mem.On .x ∧ ∀ ax', p.mem.board.selected ax' = true → ax' = .x := by
  have played : (busSystem.play bench aloneOnBus
      (.start .eventLoop (.event (.drvDriveUpdate true)) :: List.replicate 5 (.go .eventLoop))
      (Pool.idle initialised)).any transfersX = true := by
    decide +kernel
  obtain ⟨p, reached, check⟩ := System.exists_of_play bench_within_wired
    aloneOnBus_safe (by decide) played
  obtain ⟨call, q, step⟩ := step_of_transfersX check
  exact ⟨p, q, call, reached, step, transfers_on_own_channel reached step⟩

end Server

end Lra
