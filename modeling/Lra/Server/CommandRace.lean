import Lra.Server.Stop
import Lra.Server.Tick

/-!
# Commands against the control loop

The handler of `drvCmdUpdate` writes the three bytes of a command one by one and
then raises `on_update_cmd`; the control loop copies them, applies the copy and
lowers the flag. A flag raised between the copy and the lowering is lost with its
command, unless the copy already was that command.
-/

namespace Lra

open Effect

namespace World

/-- The command in `ws_rtp_cmd`. -/
def triple (w : World) : RtpCmd := (w.cmd 0, w.cmd 1, w.cmd 2)

/-- The drives' RTP registers hold this command. -/
def InForce (w : World) (cmd : RtpCmd) : Prop :=
  ∀ ax, w.reg ax 0x02 = Controller.pick cmd.1 cmd.2.1 cmd.2.2 ax

instance (w : World) (cmd : RtpCmd) : Decidable (w.InForce cmd) :=
  decidable_of_iff (w.reg .x 0x02 = cmd.1 ∧ w.reg .y 0x02 = cmd.2.1 ∧ w.reg .z 0x02 = cmd.2.2) <| by
    constructor
    · rintro ⟨x, y, z⟩ ax
      cases ax
      · exact x
      · exact y
      · exact z
    · exact fun h => ⟨h .x, h .y, h .z⟩

/-- Nothing about commands differs. -/
structure SameCmd (w w' : World) : Prop where
  cmd : w'.cmd = w.cmd
  flag : w'.flag .onUpdateCmd = w.flag .onUpdateCmd
  rtp : ∀ ax, w'.reg ax 0x02 = w.reg ax 0x02

namespace SameCmd

variable {w w' : World}

theorem triple (h : SameCmd w w') : w'.triple = w.triple := by
  rw [World.triple, h.cmd, World.triple]

theorem inForce (h : SameCmd w w') (cmd : RtpCmd) : w'.InForce cmd ↔ w.InForce cmd :=
  forall_congr' fun ax => by rw [h.rtp ax]

end SameCmd

end World

namespace Server

/-! ### The system -/

/-- Handlers of `drvCmdUpdate` on the event loop, ticks, and the timer. -/
def Thread.commands : Thread → Job → Bool
  | .eventLoop, .event (.drvCmdUpdate _) => true
  | .controlLoop, .tick => true
  | .timer, .trigLoopExpired => true
  | _, _ => false

def cmdSystem : System Main World Thread Job where
  sem := served
  code := Job.code
  may i j := i.commands j = true

instance (i : Thread) (j : Job) : Decidable (cmdSystem.may i j) :=
  inferInstanceAs (Decidable (_ = true))

/-- The control loop is not between its copy and the lowering of the flag, or what it
copied is the command in `ws_rtp_cmd`. -/
def CopyCurrent (p : Pool Main World Thread Job) : Prop :=
  match p.next? .controlLoop with
  | some (.call (.updateAllRtp cmd)) => cmd = p.mem.triple
  | some (.host (.store .onUpdateCmd false)) => p.mem.InForce p.mem.triple
  | _ => True

/-- A handler raises the flag only at such a moment. -/
def SafeSet (p : Pool Main World Thread Job) (l : Label Main Thread Job) : Prop :=
  l = .exec .eventLoop (.host (.store .onUpdateCmd true)) → CopyCurrent p

/-! ### Both sides, step by step -/

/-- Where a thread is: the timer; the control loop without a copy, with one, and with
one that is applied; a handler that has written `k` bytes, and one that has raised
the flag. -/
inductive CmdPhase where
  | timer
  | free
  | copied (cmd : RtpCmd)
  | applied
  | writing (cmd : RtpCmd) (k : Nat)
  | stored (cmd : RtpCmd)

/-- The thread a phase belongs to. -/
def CmdPhase.thread : CmdPhase → Thread
  | .timer => .timer
  | .free | .copied _ | .applied => .controlLoop
  | .writing _ _ | .stored _ => .eventLoop

/-- One byte of a command. -/
def rtpOf (cmd : RtpCmd) : Fin 3 → UInt8
  | 0 => cmd.1
  | 1 => cmd.2.1
  | 2 => cmd.2.2

/-- Every operation that leaves command and flag alone. -/
def LeavesCmd : HostOp → Prop
  | .setCmd _ _ => False
  | .store .onUpdateCmd _ => False
  | _ => True

/-- A call that leaves the RTP registers alone. -/
def LeavesRtp (c : Controller.Call) : Prop := ∀ ax d, (c.effect ax d).rtp = d.rtp

inductive Commanding : Protocol Main CmdPhase where
  | timer {o r} : LeavesCmd o → Commanding .timer (.host o) r .timer
  | host {o r} : LeavesCmd o → Commanding .free (.host o) r .free
  | call {c r} : LeavesRtp c → Commanding .free (.call c) r .free
  | copy {cmd} : Commanding .free (.host .vecToTuple) cmd (.copied cmd)
  | apply {cmd r} : Commanding (.copied cmd) (.call (.updateAllRtp cmd)) r .applied
  | clear {r} : Commanding .applied (.host (.store .onUpdateCmd false)) r .free
  | write {cmd r} (k : Fin 3) :
      Commanding (.writing cmd k) (.host (.setCmd k (rtpOf cmd k))) r (.writing cmd (k + 1))
  | set {cmd r} : Commanding (.writing cmd 3) (.host (.store .onUpdateCmd true)) r (.stored cmd)
  | reply {cmd m r} : Commanding (.stored cmd) (.host (.send m)) r (.stored cmd)

def firstCmdPhase : Job → CmdPhase
  | .event (.drvCmdUpdate cmd) => .writing cmd 0
  | .trigLoopExpired => .timer
  | _ => .free

def lastCmdPhase (j : Job) (t : CmdPhase) : Prop :=
  match j with
  | .event (.drvCmdUpdate cmd) => t = .stored cmd
  | .trigLoopExpired => t = .timer
  | _ => t = .free

/-- No job ends while a copy is held or a command half written. -/
theorem lastCmdPhase_cases {j : Job} {t : CmdPhase} (final : lastCmdPhase j t) :
    t = .free ∨ t = .timer ∨ ∃ cmd, t = .stored cmd := by
  cases j with
  | event e =>
      cases e with
      | drvCmdUpdate cmd => exact .inr (.inr ⟨cmd, final⟩)
      | _ => exact .inl final
  | trigLoopExpired => exact .inr (.inl final)
  | tick => exact .inl final

theorem leavesRtp_setRun {c : Controller.Call} {b : Bool}
    (h : ∀ ax d, c.effect ax d = d.setRun b) : LeavesRtp c := by
  intro ax d
  rw [h ax d, Drive.setRun]
  split <;> rfl

theorem applyCmd_commanding : applyCmd.Keeps Commanding .free := by
  refine Program.follows_step.mpr fun onUpdateCmd => ⟨_, .host trivial, ?_⟩
  split
  · refine Program.follows_step.mpr fun cmd => ⟨_, .copy, ?_⟩
    refine Program.follows_step.mpr fun _ => ⟨_, .apply, ?_⟩
    exact fun _ => ⟨_, .clear, rfl⟩
  · exact Program.keeps_ret _

theorem tick_commanding : tick.Keeps Commanding .free := by
  refine tick_keeps (fun {o r} tickOp => ?_) applyCmd_commanding
  cases tickOp with
  | runDrv => exact .call (leavesRtp_setRun fun _ _ => rfl)
  | pauseDrv => exact .call (leavesRtp_setRun fun _ _ => rfl)
  | getRt => exact .call fun _ _ => rfl
  | changeDrvCh => exact .call fun _ _ => rfl
  | _ => exact .host trivial

theorem drvCmdUpdate_follows (cmd : RtpCmd) :
    (drvCmdUpdate cmd).Follows Commanding (fun u _ => u = .stored cmd) (.writing cmd 0) := by
  obtain ⟨x, y, z⟩ := cmd
  refine Program.follows_step.mpr fun _ => ⟨_, .write 0, ?_⟩
  refine Program.follows_step.mpr fun _ => ⟨_, .write 1, ?_⟩
  refine Program.follows_step.mpr fun _ => ⟨_, .write 2, ?_⟩
  refine Program.follows_step.mpr fun _ => ⟨_, .set, ?_⟩
  exact fun _ => ⟨_, .reply, rfl⟩

theorem code_commanding {i : Thread} {j : Job} (may : cmdSystem.may i j) :
    j.code.Follows Commanding (fun u _ => lastCmdPhase j u) (firstCmdPhase j) := by
  cases j with
  | tick => exact tick_commanding
  | trigLoopExpired => exact fun _ => ⟨_, .timer trivial, rfl⟩
  | event e =>
      obtain ⟨cmd, rfl⟩ : ∃ cmd, e = .drvCmdUpdate cmd := by
        cases i <;> cases e <;> first | exact ⟨_, rfl⟩ | cases may
      exact drvCmdUpdate_follows cmd

/-! ### What the operations do -/

theorem sameCmd_host {o : HostOp} {w w' : World} {r : o.Res} (leaves : LeavesCmd o)
    (answer : served (.host o) w r w') : w.SameCmd w' := by
  have does := served_host.mp answer
  cases o with
  | setCmd i b => exact leaves.elim
  | store f b =>
      obtain rfl := does
      refine ⟨rfl, ?_, fun _ => rfl⟩
      cases f <;> first | exact leaves.elim | rfl
  | load f =>
      obtain ⟨-, rfl⟩ := does
      exact ⟨rfl, rfl, fun _ => rfl⟩
  | vecToTuple =>
      obtain ⟨-, rfl⟩ := does
      exact ⟨rfl, rfl, fun _ => rfl⟩
  | tickCount =>
      obtain ⟨-, rfl⟩ := does
      exact ⟨rfl, rfl, fun _ => rfl⟩
  | _ =>
      obtain rfl := does
      exact ⟨rfl, rfl, fun _ => rfl⟩

theorem sameCmd_call {c : Controller.Call} {w w' : World} {r : c.Res} (leaves : LeavesRtp c)
    (answer : served (.call c) w r w') : w.SameCmd w' := by
  have done := served_call answer
  refine ⟨done.spec.2.cmd, done.spec.2.flag _ (by simp), fun ax => ?_⟩
  have rtp : (w'.drive ax).rtp = (c.effect ax (w.drive ax)).rtp :=
    congrArg Drive.rtp (done.drive ax)
  rw [leaves] at rtp
  exact rtp

/-- Applying a command puts it in force. -/
theorem inForce_of_apply {cmd : RtpCmd} {w w' : World} {r : Unit}
    (answer : served (.call (.updateAllRtp cmd)) w r w') : w'.InForce cmd ∧ w'.cmd = w.cmd := by
  have done := served_call answer
  refine ⟨fun ax => ?_, done.spec.2.cmd⟩
  exact congrArg Drive.rtp (done.drive ax)

/-! ### The invariant -/

/-- The job a phase belongs to. -/
def CmdPhase.Of (t : CmdPhase) (j : Job) : Prop :=
  match t with
  | .writing cmd _ => j = .event (.drvCmdUpdate cmd)
  | .stored cmd => j = .event (.drvCmdUpdate cmd)
  | _ => True

/-- What the event loop has written, in its handler and in the one before. -/
def HandlerAt (st : Option (Job × CmdPhase)) (last : Option Job) (w : World) : Prop :=
  match st with
  | none => ∀ cmd, last = some (.event (.drvCmdUpdate cmd)) → w.triple = cmd
  | some (_, .writing cmd k) => ∀ i : Fin 3, i.val < k → w.cmd i = rtpOf cmd i
  | some (_, .stored cmd) => w.triple = cmd
  | some _ => True

/-- No command is half written. -/
def Whole (st : Option (Job × CmdPhase)) : Prop := ∀ j cmd k, st ≠ some (j, .writing cmd k)

/-- What the control loop is about to do will bring the command in `ws_rtp_cmd` into
force, if it is not already. -/
def LoopAt (st : Option (Job × CmdPhase)) (w : World) : Prop :=
  match st with
  | some (_, .copied cmd) => cmd = w.triple
  | some (_, .applied) => w.InForce w.triple
  | _ => w.flag .onUpdateCmd = true ∨ w.InForce w.triple

structure CmdInv (ts : Thread → Option (Job × CmdPhase)) (last : Thread → Option Job)
    (w : World) : Prop where
  of : ∀ i j t, ts i = some (j, t) → t.thread = i ∧ t.Of j
  handler : HandlerAt (ts .eventLoop) (last .eventLoop) w
  loop : Whole (ts .eventLoop) → LoopAt (ts .controlLoop) w

section Invariant

variable {ts : Thread → Option (Job × CmdPhase)} {last : Thread → Option Job} {w w' : World}
variable {i : Thread} {j : Job} {t t' : CmdPhase}

theorem HandlerAt.same {st : Option (Job × CmdPhase)} {l : Option Job} (h : HandlerAt st l w)
    (same : w.SameCmd w') : HandlerAt st l w' := by
  unfold HandlerAt at h ⊢
  rw [same.triple, same.cmd]
  exact h

theorem LoopAt.same {st : Option (Job × CmdPhase)} (h : LoopAt st w) (same : w.SameCmd w') :
    LoopAt st w' := by
  unfold LoopAt at h ⊢
  simp only [same.triple, same.inForce, same.flag]
  exact h

theorem CmdInv.same (inv : CmdInv ts last w) (same : w.SameCmd w') : CmdInv ts last w' :=
  ⟨inv.of, inv.handler.same same, fun whole => (inv.loop whole).same same⟩

theorem CmdInv.update (inv : CmdInv ts last w) (new : t.thread = i ∧ t.Of j) :
    ∀ k j' u, Function.update ts i (some (j, t)) k = some (j', u) → u.thread = k ∧ u.Of j' :=
  active_update (R := fun k j u => u.thread = k ∧ u.Of j) new fun k j' u _ => inv.of k j' u

/-- A step of the control loop that leaves the command alone. -/
theorem CmdInv.control (inv : CmdInv ts last w) (thread : t.thread = .controlLoop) (of : t.Of j)
    (cmd : w'.cmd = w.cmd)
    (loop : LoopAt (ts .controlLoop) w → LoopAt (some (j, t)) w' ) :
    CmdInv (Function.update ts .controlLoop (some (j, t))) last w' := by
  have triple : w'.triple = w.triple := by
    rw [World.triple, cmd, World.triple]
  refine ⟨inv.update ⟨thread, of⟩, ?_, fun whole => ?_⟩
  · rw [Function.update_of_ne (by decide)]
    have handler := inv.handler
    unfold HandlerAt at handler ⊢
    rw [triple, cmd]
    exact handler
  · rw [Function.update_of_ne (by decide)] at whole
    rw [Function.update_self]
    exact loop (inv.loop whole)

/-- With all three bytes written the command is in `ws_rtp_cmd`. -/
theorem triple_of_written {cmd : RtpCmd} (h : ∀ i : Fin 3, i.val < 3 → w.cmd i = rtpOf cmd i) :
    w.triple = cmd := by
  obtain ⟨x, y, z⟩ := cmd
  simp only [World.triple, h 0 (by decide), h 1 (by decide), h 2 (by decide)]
  rfl

/-- The handler writes one more byte. -/
theorem CmdInv.written {cmd : RtpCmd} {k : Fin 3} (inv : CmdInv ts last w)
    (state : ts .eventLoop = some (j, .writing cmd k))
    (wrote : w' = { w with cmd := Function.update w.cmd k (rtpOf cmd k) }) :
    CmdInv (Function.update ts .eventLoop (some (j, .writing cmd (k + 1)))) last w' := by
  obtain ⟨_, of⟩ := inv.of _ _ _ state
  refine ⟨inv.update ⟨rfl, of⟩, ?_, fun whole => ?_⟩
  · rw [Function.update_self]
    have handler := inv.handler
    rw [state] at handler
    intro i below
    subst wrote
    by_cases here : i = k
    · subst here
      simp
    · have older : i.val < k.val := by omega
      rw [← handler i older]
      simp [here]
  · rw [Function.update_self] at whole
    exact absurd rfl (whole _ _ _)

/-- The control loop performs next what its phase permits. -/
theorem next_of_phase {p : Pool Main World Thread Job} {i : Thread} {j : Job} {t : CmdPhase}
    (tracks : Tracks Commanding lastCmdPhase p ts) (state : ts i = some (j, t))
    (notFinal : ¬ lastCmdPhase j t) :
    ∃ o r u, p.next? i = some o ∧ Commanding t o r u := by
  obtain ⟨o, next, permitted⟩ := tracks.next_permitted state notFinal
  obtain ⟨u, step⟩ := permitted (server o p.mem).1
  exact ⟨o, _, u, next, step⟩

/-- What a safe moment says about the control loop, once the flag is raised. -/
theorem loopAt_of_current {p : Pool Main World Thread Job}
    (tracks : Tracks Commanding lastCmdPhase p ts) (current : CopyCurrent p)
    (set : w' = p.mem.setFlag .onUpdateCmd true) : LoopAt (ts .controlLoop) w' := by
  have raised : w'.flag .onUpdateCmd = true := by
    subst set
    rfl
  have triple : w'.triple = p.mem.triple := by
    subst set
    rfl
  have inForce : ∀ cmd, w'.InForce cmd ↔ p.mem.InForce cmd := by
    subst set
    exact fun _ => Iff.rfl
  cases state : ts .controlLoop with
  | none => exact .inl raised
  | some jt =>
      obtain ⟨j, t⟩ := jt
      cases t with
      | copied cmd =>
          obtain ⟨o, r, u, next, step⟩ := next_of_phase tracks state fun final => by
            rcases lastCmdPhase_cases final with h | h | ⟨_, h⟩ <;> cases h
          cases step
          simp only [CopyCurrent, next] at current
          exact current.trans triple.symm
      | applied =>
          obtain ⟨o, r, u, next, step⟩ := next_of_phase tracks state fun final => by
            rcases lastCmdPhase_cases final with h | h | ⟨_, h⟩ <;> cases h
          cases step
          simp only [CopyCurrent, next] at current
          rw [← triple, ← inForce] at current
          exact current
      | _ => exact .inl raised

/-- No operation of one thread breaks the invariant, if the flag is raised safely. -/
theorem cmd_exec_preserves {p : Pool Main World Thread Job} {o : MainOp} {r : Main.Res o}
    {m : World} (tracks : Tracks Commanding lastCmdPhase p ts) (inv : CmdInv ts p.last p.mem)
    (state : ts i = some (j, t)) (permitted : Commanding t o r t')
    (answer : served o p.mem r m) (safe : SafeSet p (.exec i o)) :
    CmdInv (Function.update ts i (some (j, t'))) p.last m := by
  obtain ⟨rfl, of⟩ := inv.of i j t state
  have stay : ∀ {m}, p.mem.SameCmd m →
      CmdInv (Function.update ts t.thread (some (j, t))) p.last m := by
    intro m same
    rw [← state, Function.update_eq_self]
    exact inv.same same
  cases permitted with
  | timer leaves => exact stay (sameCmd_host leaves answer)
  | host leaves => exact stay (sameCmd_host leaves answer)
  | call leaves => exact stay (sameCmd_call leaves answer)
  | reply => exact stay (sameCmd_host (by trivial) answer)
  | @copy cmd =>
      obtain ⟨rfl, rfl⟩ : cmd = p.mem.triple ∧ m = p.mem := served_host.mp answer
      exact inv.control rfl trivial rfl fun _ => rfl
  | @apply cmd r =>
      obtain ⟨inForce, same⟩ := inForce_of_apply answer
      refine inv.control rfl trivial same fun before => ?_
      have copied : cmd = p.mem.triple := by
        change LoopAt (ts .controlLoop) p.mem at before
        rw [show ts .controlLoop = some (j, .copied cmd) from state] at before
        exact before
      rw [LoopAt, World.triple, same, ← World.triple, ← copied]
      exact inForce
  | clear =>
      obtain rfl : m = p.mem.setFlag .onUpdateCmd false := served_host.mp answer
      refine inv.control rfl trivial rfl fun before => .inr ?_
      rw [show ts .controlLoop = some (j, .applied) from state] at before
      exact before
  | write k => exact inv.written state (served_host.mp answer)
  | @set cmd r =>
      obtain rfl : m = p.mem.setFlag .onUpdateCmd true := served_host.mp answer
      refine ⟨inv.update ⟨rfl, of⟩, ?_, fun _ => ?_⟩
      · have handler := inv.handler
        rw [show ts .eventLoop = some (j, .writing cmd 3) from state] at handler
        rw [show CmdPhase.thread (.writing cmd 3) = .eventLoop from rfl, Function.update_self]
        exact triple_of_written handler
      · rw [Function.update_of_ne (by simp [CmdPhase.thread])]
        exact loopAt_of_current tracks (safe rfl) rfl

theorem firstCmdPhase_of {i : Thread} {j : Job} (may : cmdSystem.may i j) :
    (firstCmdPhase j).thread = i ∧ (firstCmdPhase j).Of j := by
  cases j with
  | tick => cases i <;> first | exact ⟨rfl, trivial⟩ | cases may
  | trigLoopExpired => cases i <;> first | exact ⟨rfl, trivial⟩ | cases may
  | event e =>
      cases i <;> cases e <;> first | exact ⟨rfl, rfl⟩ | cases may

/-- A job that begins has written nothing and copied nothing. -/
theorem cmd_start_preserves (inv : CmdInv ts last w) (idle : ts i = none)
    (may : cmdSystem.may i j) :
    CmdInv (Function.update ts i (some (j, firstCmdPhase j))) last w := by
  obtain ⟨rfl, of⟩ := firstCmdPhase_of may
  have new := inv.update ⟨rfl, of⟩
  cases j with
  | trigLoopExpired =>
      refine ⟨new, inv.handler, fun whole => inv.loop whole⟩
  | tick =>
      refine ⟨new, inv.handler, fun whole => ?_⟩
      have before := inv.loop whole
      rw [show ts .controlLoop = none from idle] at before
      exact before
  | event e =>
      cases e with
      | drvCmdUpdate cmd =>
          refine ⟨new, fun i below => absurd below (Nat.not_lt_zero _), fun whole => ?_⟩
          exact absurd rfl (whole _ _ _)
      | _ => cases may

/-- A job that ends leaves its effect. -/
theorem cmd_finish_preserves (inv : CmdInv ts last w) (state : ts i = some (j, t))
    (final : lastCmdPhase j t) :
    CmdInv (Function.update ts i none) (Function.update last i (some j)) w := by
  obtain ⟨rfl, of⟩ := inv.of i j t state
  have rest : ∀ k j' u, Function.update ts t.thread none k = some (j', u) →
      u.thread = k ∧ u.Of j' := active_retire fun k j' u _ => inv.of k j' u
  cases t with
  | timer => exact ⟨rest, inv.handler, inv.loop⟩
  | free =>
      refine ⟨rest, inv.handler, fun whole => ?_⟩
      have before := inv.loop whole
      rw [show ts .controlLoop = some (j, .free) from state] at before
      exact before
  | stored cmd =>
      have handler := inv.handler
      rw [show ts .eventLoop = some (j, .stored cmd) from state] at handler
      refine ⟨rest, fun cmd' handled => ?_, fun _ => inv.loop fun _ _ _ h => ?_⟩
      · obtain rfl : j = .event (.drvCmdUpdate cmd') := by simpa [CmdPhase.thread] using handled
        obtain rfl : cmd' = cmd := by simpa [CmdPhase.Of] using of
        exact handler
      · rw [show ts .eventLoop = some (j, .stored cmd) from state] at h
        cases h
  | _ =>
      rcases lastCmdPhase_cases final with h | h | ⟨_, h⟩ <;> cases h

end Invariant

theorem cmd_preserved :
    Preserved cmdSystem Commanding firstCmdPhase lastCmdPhase SafeSet CmdInv where
  follows may := code_commanding may
  start _ inv idle may := cmd_start_preserves inv idle may
  exec tracks inv state _ permitted answer safe :=
    cmd_exec_preserves tracks inv state permitted answer safe
  finish _ inv state final := cmd_finish_preserves inv state final

/-- The initialisation leaves the command and the RTP registers at zero. -/
theorem Started.inForce {w : World} (h : Started w) : w.InForce w.triple := by
  obtain ⟨board, tr, run⟩ := h
  have init : Completes { World.initial with board := board } .init w := ⟨tr, (), run⟩
  have cmd : w.cmd = fun _ => 0 := init.spec.2.cmd
  intro ax
  have rtp : (w.drive ax).rtp = 0 := congrArg Drive.rtp (init.drive ax)
  simp only [World.triple, cmd]
  cases ax <;> exact rtp

/-- In every interleaving in which the flag is only raised at safe moments: when
neither side is in the middle of its steps and the flag is down, the drives' RTP
registers hold the command handled last. -/
theorem command_in_force {w : World} {q : Pool Main World Thread Job} {cmd : RtpCmd}
    (start : Started w) (reached : cmdSystem.ReachesBy SafeSet (Pool.idle w) q)
    (handlerIdle : q.thread .eventLoop = none) (loopIdle : q.thread .controlLoop = none)
    (down : q.mem.flag .onUpdateCmd = false)
    (last : q.last .eventLoop = some (.event (.drvCmdUpdate cmd))) : q.mem.InForce cmd := by
  have inv : CmdInv (fun _ => none) (fun _ => none) w :=
    ⟨fun _ _ _ h => (nomatch h), fun _ h => (nomatch h), fun _ => .inr start.inForce⟩
  obtain ⟨ts, tracks, inv⟩ := cmd_preserved.reaches (Tracks.idle w) inv reached
  have noHandler := tracks.none_iff.mp handlerIdle
  have noTick := tracks.none_iff.mp loopIdle
  have triple : q.mem.triple = cmd := by
    have handler := inv.handler
    rw [noHandler] at handler
    exact handler cmd last
  have loop := inv.loop (by simp [Whole, noHandler])
  rw [noTick] at loop
  rcases loop with up | inForce
  · rw [down] at up
    cases up
  · rwa [triple] at inForce

/-! ### The schedule that loses a command -/

/-- A handler of a command, from its start to its end. -/
def handleCmd (cmd : RtpCmd) : List (System.Move Thread Job) :=
  .start .eventLoop (.event (.drvCmdUpdate cmd)) ::
    List.replicate 5 (.go .eventLoop) ++ [.finish .eventLoop]

/-- The timer expires and a tick applies its copy, but does not yet lower the flag. -/
def applyCopy : List (System.Move Thread Job) :=
  [.start .timer .trigLoopExpired, .go .timer, .finish .timer, .start .controlLoop .tick] ++
    List.replicate 8 (.go .controlLoop)

/-- The rest of that tick. -/
def lowerFlag : List (System.Move Thread Job) :=
  List.replicate 4 (.go .controlLoop) ++ [.finish .controlLoop]

/-- Neither side is in the middle of its steps, the flag is down, and `cmd` was
handled last. -/
def commandHandled (cmd : RtpCmd) (q : Pool Main World Thread Job) : Bool :=
  (q.thread .eventLoop).isNone && (q.thread .controlLoop).isNone &&
    !q.mem.flag .onUpdateCmd && q.last .eventLoop == some (.event (.drvCmdUpdate cmd))

theorem command_lost :
    ∃ w q, Started w ∧ cmdSystem.Reaches (Pool.idle w) q ∧
      commandHandled (4, 5, 6) q = true ∧ q.mem.InForce (1, 2, 3) := by
  have played : (cmdSystem.play server (fun _ _ => true)
      (handleCmd (1, 2, 3) ++ applyCopy ++ handleCmd (4, 5, 6) ++ lowerFlag)
      (Pool.idle initialised)).any
        (fun q => commandHandled (4, 5, 6) q && decide (q.mem.InForce (1, 2, 3))) = true := by
    decide +kernel
  obtain ⟨q, reached, check⟩ := System.exists_of_play server_within_served
    (fun _ _ _ => trivial) (by decide) played
  simp only [Bool.and_eq_true, decide_eq_true_eq] at check
  exact ⟨initialised, q, initialised_started, reached, check.1, check.2⟩

/-- No handler raises the flag during a tick. -/
def outsideTicks (p : Pool Main World Thread Job) : Label Main Thread Job → Bool
  | .exec .eventLoop (.host (.store .onUpdateCmd true)) => (p.thread .controlLoop).isNone
  | _ => true

theorem outsideTicks_safe (p : Pool Main World Thread Job) (l : Label Main Thread Job)
    (h : outsideTicks p l = true) : SafeSet p l := by
  rintro rfl
  have idle : p.thread .controlLoop = none := by simpa [outsideTicks] using h
  simp [CopyCurrent, Pool.next?, idle]

/-- A command handled before a tick is in force after it. -/
theorem command_in_force_one_tick :
    ∃ w q, Started w ∧ cmdSystem.ReachesBy SafeSet (Pool.idle w) q ∧
      commandHandled (1, 2, 3) q = true ∧ q.mem.InForce (1, 2, 3) := by
  have played : (cmdSystem.play server outsideTicks
      (handleCmd (1, 2, 3) ++ applyCopy ++ lowerFlag) (Pool.idle initialised)).any
        (commandHandled (1, 2, 3)) = true := by
    decide +kernel
  obtain ⟨q, reached, check⟩ := System.exists_of_play server_within_served
    outsideTicks_safe (by decide) played
  have handled := check
  simp only [commandHandled, Bool.and_eq_true, Option.isNone_iff_eq_none, beq_iff_eq,
    Bool.not_eq_true'] at check
  obtain ⟨⟨⟨handlerIdle, loopIdle⟩, down⟩, last⟩ := check
  exact ⟨initialised, q, initialised_started, reached, handled,
    command_in_force initialised_started reached handlerIdle loopIdle down last⟩

end Server

end Lra
