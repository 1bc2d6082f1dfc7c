import Lra.Effect.Worker
import Lra.Server.Connections

/-!
# Real-time data only for somebody

Clients ask for real-time data by a message, and only the handler of a disconnection
withdraws the request for those that leave without a word. As long as handlers run in the
order in which they were posted that is enough, however the threads interleave: the handler
of the last disconnection comes after every request.
-/

namespace Lra

open Effect

/-- What an operation does to `need_send_rt`. -/
def MainOp.need : MainOp → Bool → Bool
  | .host (.store .needSendRt b), _ => b
  | _, b => b

/-- An operation that fetches real-time data or sends a message. -/
def MainOp.Streams : MainOp → Prop
  | .host (.send _) => True
  | .host (.acc .accPopAll) => True
  | .call .getRt => True
  | _ => False

namespace Server

variable {Conn : Type} [DecidableEq Conn]

/-! ### Who asked for real-time data -/

/-- What a job makes of `need_send_rt`. -/
def Event.need : Event → Bool → Bool
  | .disconnect n, b => if n = 0 then false else b
  | .dataRTKeepRequire, _ => true
  | .dataRTStopRequire, _ => false
  | _, b => b

def Job.need : Job → Bool → Bool
  | .event e, b => e.need b
  | _, b => b

/-- What a handler makes of it while no connection is open. -/
def Posted.need : Posted Conn → Bool → Bool
  | .disconnect _, _ => false
  | .message _ .dataRTKeepRequire _, _ => true
  | .message _ .dataRTStopRequire _, _ => false
  | _, b => b

section Programs

variable {t : Unit}

theorem still_host {o : HostOp} (still : ∀ b, (MainOp.host o).need b = b := by intro b; rfl) :
    (.op (.host o) .ret : Program Main o.Res).Keeps (Passive MainOp.need) t :=
  Program.keeps_op (fun _ => still) fun r => Program.keeps_ret r

theorem still_call (c : Controller.Call) : (call c).Keeps (Passive MainOp.need) t :=
  Program.keeps_op (fun _ _ => rfl) fun r => Program.keeps_ret r

theorem applyCmd_still : applyCmd.Keeps (Passive MainOp.need) t := by
  refine (still_host).bind fun onUpdateCmd => ?_
  split
  · exact (still_host).bind fun _ => (still_call _).bind fun _ => still_host
  · exact Program.keeps_ret _

theorem tick_still : tick.Keeps (Passive MainOp.need) t := by
  refine tick_keeps (fun {o r} tickOp b => ?_) applyCmd_still
  cases tickOp <;> rfl

theorem setToRun_still (toRun : Bool) : (setToRun toRun).Keeps (Passive MainOp.need) t := by
  refine (still_host).bind fun running => ?_
  split
  · split
    · exact still_call .runDrv
    · exact still_call .pauseDrv
  · exact Program.keeps_ret _

theorem resumeAcc_still : resumeAcc.Keeps (Passive MainOp.need) t := by
  refine (still_host).bind fun calibrating => ?_
  split
  · exact still_host
  · exact Program.keeps_ret _

/-- Each handler makes of the flag what `Event.need` says. -/
theorem Event.takes (e : Event) (b : Bool) : e.code.Takes MainOp.need b (e.need b) := by
  cases e with
  | disconnect n =>
      simp only [Event.code, Server.disconnect, Event.need]
      split
      · exact Program.takes_op fun _ => (still_call .pauseDrv).takes
      · exact Program.takes_ret ()
  | moduleInfoRequire =>
      apply Program.Keeps.takes
      exact (still_host).bind fun activated => still_host
  | drvDriveUpdate toRun =>
      apply Program.Keeps.takes
      refine (setToRun_still toRun).bind fun _ => (still_host).bind fun running => ?_
      exact (still_host).bind fun _ => still_host
  | drvCmdUpdate rtp =>
      apply Program.Keeps.takes
      refine (still_host).bind fun _ => (still_host).bind fun _ => (still_host).bind fun _ => ?_
      exact (still_host).bind fun _ => still_host
  | regAllUpdate x y z accArr =>
      apply Program.Keeps.takes
      refine (still_host).bind fun _ => (still_host).bind fun _ => (still_call _).bind fun _ => ?_
      exact (resumeAcc_still).bind fun _ => (still_host).bind fun _ => still_host
  | calibrationRequire =>
      apply Program.Keeps.takes
      refine (still_host).bind fun origin => (still_host).bind fun _ => ?_
      refine (still_host).bind fun _ => ?_
      refine (still_call _).bind fun _ => (still_host).bind fun _ => ?_
      exact (still_host).bind fun _ => still_host
  | regAllRequire =>
      apply Program.Keeps.takes
      exact (still_call _).bind fun _ => still_host
  | dataRTKeepRequire => exact Program.takes_op fun _ => Program.takes_ret ()
  | dataRTStopRequire => exact Program.takes_op fun _ => Program.takes_ret ()

end Programs

theorem attempted_need {o : MainOp} {w w' : World} {r : Main.Res o} (h : attempted o w r w') :
    w'.flag .needSendRt = o.need (w.flag .needSendRt) := by
  rw [attempted_flags h]
  cases o with
  | call c => rfl
  | host o =>
      cases o with
      | store f b => cases f <;> rfl
      | _ => rfl

/-- Only the main event loop works on `need_send_rt`. -/
theorem webSystem_works : WorkedBy webSystem Thread.eventLoop (fun w => w.flag .needSendRt)
    MainOp.need Job.need where
  sound := attempted_need
  effect {j} may b := by
    cases j with
    | event e => exact e.takes b
    | tick => exact may.elim
    | trigLoopExpired => exact may.elim
  quiet {i j} other may := by
    cases j with
    | event e => cases i <;> first | exact absurd rfl other | exact may.elim
    | tick => exact tick_still
    | trigLoopExpired => exact still_host

/-- What is due when the main event loop has run everything that is posted, if nobody is
connected. -/
def Forecast (s : Networked Conn) (b : Bool) : Prop :=
  Due Thread.eventLoop (fun w : World => w.flag .needSendRt) MainOp.need s.pool b ∧
    (s.net.openConnections = [] → s.net.posted.foldl (fun b p => p.need b) b = false)

section Runs

variable {parse : String → Except JsonError JsonValue} {J : Jsoncpp}
variable {s s' : Networked Conn} {l : NetLabel Conn}

omit [DecidableEq Conn] in
/-- What a message makes of the flag shows in its type. -/
theorem returns_need (conn : Conn) (args : JsonValue) (type : MessageType) :
    Returns (fun e => ∀ b, e.need b = (Posted.message conn type args).need b)
      (decode J args type) := by
  cases type with
  | moduleInfoRequire | drvDriveUpdate | drvCmdUpdate | regAllUpdate =>
    repeat refine returns_bind fun _ => ?_
    exact returns_pure fun _ => rfl
  | calibrationRequire | regAllRequire | dataRTKeepRequire | dataRTStopRequire =>
    exact returns_pure fun _ => rfl

omit [DecidableEq Conn] in
/-- With nobody connected a handler does to the flag what it was posted for. -/
theorem need_of_event {handler : Posted Conn} {e : Option Event}
    (decoded : handler.event J 0 = .ok e) (b : Bool) :
    e.elim b (fun e => e.need b) = handler.need b := by
  cases handler with
  | connect conn =>
      cases decoded
      rfl
  | disconnect conn =>
      cases decoded
      rfl
  | message conn type args =>
      simp only [Posted.event] at decoded
      cases read : decode J args type with
      | error err => simp [read] at decoded
      | ok e' =>
          rw [read] at decoded
          cases decoded
          exact returns_need conn args type e' read b

theorem due_beginEvent {p : Pool Main World Thread Job} {b : Bool}
    (due : Due Thread.eventLoop (fun w : World => w.flag .needSendRt) MainOp.need p b)
    (idle : p.thread .eventLoop = none) (e : Option Event) :
    Due Thread.eventLoop (fun w : World => w.flag .needSendRt) MainOp.need
      (Server.beginEvent p e) (e.elim b fun e => e.need b) := by
  cases e with
  | none => exact due
  | some e => exact due.start webSystem_works (j := .event e) idle trivial

theorem Forecast.step {arrived : List Conn} {b : Bool} (listed : Listed arrived s.net)
    (forecast : Forecast s b) (step : NetStep parse J s l s') :
    ∃ b', Forecast s' b' := by
  obtain ⟨due, quiet⟩ := forecast
  cases step with
  | opened fresh => exact ⟨b, due, fun none => by simp [Network.onOpen, Network.post] at none⟩
  | closed opened => exact ⟨b, due, fun _ => by simp [Network.onClose, Network.post, Posted.need]⟩
  | dropped closed => exact ⟨b, due, quiet⟩
  | received opened parsed =>
      exact ⟨b, due, fun none => absurd none (listed.ne_nil_of_opened opened)⟩
  | @took handler rest e idle head decoded =>
      refine ⟨e.elim b fun e => e.need b, due_beginEvent due idle e, fun none => ?_⟩
      have nobody : s.net.numConnections = 0 := List.length_eq_zero_iff.mpr none
      rw [nobody] at decoded
      have before := quiet none
      rw [head, List.foldl_cons] at before
      rw [need_of_event decoded]
      exact before
  | @thread l pool other step =>
      refine ⟨b, ?_, quiet⟩
      have after := due.step webSystem_works step
      cases l with
      | start i j =>
          have notWorker : i ≠ .eventLoop := fun same => other j (same ▸ rfl)
          simpa [Label.due, notWorker] using after
      | exec i o => exact after
      | finish i => exact after

theorem forecast_of_run {w : World} {h : List (NetLabel Conn × Networked Conn)}
    (start : Initialised w) (run : Run (NetStep parse J) (.start w) h s) :
    ∃ b, Forecast s b := by
  induction run with
  | nil => exact ⟨w.flag .needSendRt, Due.idle w, fun _ => start.flag .needSendRt⟩
  | step earlier last ih =>
      obtain ⟨b, forecast⟩ := ih
      exact forecast.step (listed_of_run earlier) last

/-- However clients come and go and the threads interleave: when nobody is connected and the
main event loop has run all that was posted to it, no real-time data is asked for. -/
theorem not_needSendRt_of_nobody {w : World} {h : List (NetLabel Conn × Networked Conn)}
    (start : Initialised w) (run : Run (NetStep parse J) (.start w) h s)
    (nobody : s.net.openConnections = []) (worked : s.net.posted = [])
    (idle : s.pool.thread .eventLoop = none) : s.pool.mem.flag .needSendRt = false := by
  obtain ⟨b, due, quiet⟩ := forecast_of_run start run
  have none := quiet nobody
  rw [worked, List.foldl_nil] at none
  exact (due.value_eq idle).trans none

end Runs

/-! ### Nothing is fetched for nobody -/

/-- Whether a thread has read that real-time data are asked for. Nothing is fetched or sent
before. -/
inductive Streaming : Protocol Main Bool where
  | asked {t b} : Streaming t (.host (.load .needSendRt)) b b
  | streams {o r} : Streaming true o r true
  | other {t o r} : ¬ o.Streams → o ≠ .host (.load .needSendRt) → Streaming t o r t

section Programs

variable {t : Bool}

theorem other_op {o : MainOp} (silent : ¬ o.Streams := by exact id)
    (notAsked : o ≠ .host (.load .needSendRt) := by simp) :
    (.op o .ret : Program Main (Main.Res o)).Keeps Streaming t :=
  Program.keeps_op (fun _ => .other silent notAsked) fun r => Program.keeps_ret r

theorem keepRunning_streaming : keepRunning.Keeps Streaming t := by
  refine (other_op).bind fun onRun => ?_
  split
  · exact (other_op).bind fun _ => other_op
  · exact Program.keeps_ret _

theorem applyCmd_streaming : applyCmd.Keeps Streaming t := by
  refine (other_op).bind fun onUpdateCmd => ?_
  split
  · exact (other_op).bind fun _ => (other_op).bind fun _ => other_op
  · exact Program.keeps_ret _

theorem alive_streaming : alive.Keeps Streaming t := by
  refine (other_op).bind fun i => (other_op).bind fun _ => ?_
  split
  · exact (other_op).bind fun _ => other_op
  · exact Program.keeps_ret _

theorem sendRt_streaming : sendRt.Follows Streaming (fun _ _ => True) t := by
  intro needSendRt
  refine ⟨needSendRt, .asked, ?_⟩
  cases needSendRt with
  | false => exact trivial
  | true =>
      exact fun _ => ⟨true, .streams, fun _ => ⟨true, .streams,
        fun _ => ⟨true, .streams, trivial⟩⟩⟩

theorem work_streaming : work.Follows Streaming (fun _ _ => True) t := by
  refine (other_op).follows_bind fun onModify => ?_
  split
  · refine (keepRunning_streaming).follows_bind fun _ => ?_
    exact (applyCmd_streaming).follows_bind fun _ => sendRt_streaming
  · exact Program.Follows.mono other_op fun _ _ _ => trivial

theorem tick_streaming : tick.Follows Streaming (fun _ _ => True) t := by
  refine (other_op).follows_bind fun expired => ?_
  split
  · refine (other_op).follows_bind fun calibrating => ?_
    split
    · refine (other_op).follows_bind fun _ => work_streaming.bind fun u _ _ => ?_
      exact Program.Follows.mono alive_streaming fun _ _ _ => trivial
    · exact trivial
  · exact trivial

theorem trigLoopExpired_streaming : trigLoopExpired.Follows Streaming (fun _ _ => True) t :=
  Program.Follows.mono other_op fun _ _ _ => trivial

end Programs

/-- Nobody is connected, nothing is posted, and no thread is about to fetch real-time data. -/
structure Silent (s : Networked Conn) : Prop where
  nobody : ∀ conn, s.net.state conn ≠ .opened
  worked : s.net.posted = []
  idle : s.pool.thread .eventLoop = none
  due : Due Thread.eventLoop (fun w : World => w.flag .needSendRt) MainOp.need s.pool false
  quiet : ∀ i j rest, s.pool.thread i = some (j, rest) →
    rest.Follows Streaming (fun _ _ => True) false

section Runs

variable {parse : String → Except JsonError JsonValue} {J : Jsoncpp}
variable {s s' : Networked Conn} {l : NetLabel Conn}

omit [DecidableEq Conn] in
theorem Silent.low (silent : Silent s) : s.pool.mem.flag .needSendRt = false :=
  silent.due.value_eq silent.idle

/-- The job of another thread starts without having read anything. -/
theorem follows_streaming {i : Thread} {j : Job} (may : i.runs j) (other : i ≠ .eventLoop) :
    j.code.Follows Streaming (fun _ _ => True) false := by
  cases j with
  | event e => cases i <;> first | exact absurd rfl other | exact may.elim
  | tick => exact tick_streaming
  | trigLoopExpired => exact trigLoopExpired_streaming

omit [DecidableEq Conn] in
/-- While the flag is low, no operation of such a thread fetches or sends. -/
theorem Silent.exec (silent : Silent s) {i : Thread} {j : Job} {o : MainOp} {r : Main.Res o}
    {next : Main.Res o → Program Main Unit} {m : World}
    (active : s.pool.thread i = some (j, .op o next)) (answer : attempted o s.pool.mem r m) :
    ¬ o.Streams ∧ (next r).Follows Streaming (fun _ _ => True) false := by
  obtain ⟨t, permitted, rest⟩ := silent.quiet i j _ active r
  cases permitted with
  | asked =>
      have read : t = s.pool.mem.flag .needSendRt := (along_host.mp answer).1
      have low := read.trans silent.low
      subst low
      exact ⟨id, rest⟩
  | other silent _ => exact ⟨silent, rest⟩

/-- As long as nobody comes, nothing is fetched or sent. -/
theorem Silent.step (silent : Silent s) (step : NetStep parse J s l s')
    (nobodyComes : l.arrival = []) :
    Silent s' ∧ ∀ i o, l = .thread (.exec i o) → ¬ o.Streams := by
  cases step with
  | opened fresh => cases nobodyComes
  | closed opened => exact absurd opened (silent.nobody _)
  | @dropped conn closed =>
      refine ⟨⟨fun c => ?_, silent.worked, silent.idle, silent.due, silent.quiet⟩,
        by rintro _ _ ⟨⟩⟩
      by_cases same : c = conn
      · subst same
        simp [Network.become]
      · simpa [Network.become, same] using silent.nobody c
  | received opened parsed => exact absurd opened (silent.nobody _)
  | took idle head decoded => simp [silent.worked] at head
  | @thread l pool other step =>
      have due := silent.due.step webSystem_works step
      cases step with
      | @start i j idle may =>
          have notEvent : i ≠ .eventLoop := fun same => other j (same ▸ rfl)
          refine ⟨⟨silent.nobody, silent.worked, ?_, ?_, ?_⟩, by rintro _ _ ⟨⟩⟩
          · simpa [Pool.begin, Function.update_of_ne (Ne.symm notEvent)] using silent.idle
          · simpa [Label.due, notEvent] using due
          · exact active_update (follows_streaming may notEvent)
              fun k j' rest _ => silent.quiet k j' rest
      | @exec i j o next r m active answer =>
          obtain ⟨notStreams, rest⟩ := silent.exec active answer
          have notEvent : i ≠ .eventLoop := fun same => by simp [same, silent.idle] at active
          refine ⟨⟨silent.nobody, silent.worked, ?_, due, ?_⟩, fun i' o' same => ?_⟩
          · simpa [Pool.advance, Function.update_of_ne (Ne.symm notEvent)] using silent.idle
          · exact active_update rest fun k j' rest _ => silent.quiet k j' rest
          · cases same
            exact notStreams
      | @finish i j active =>
          have notEvent : i ≠ .eventLoop := fun same => by simp [same, silent.idle] at active
          refine ⟨⟨silent.nobody, silent.worked, ?_, due, ?_⟩, by rintro _ _ ⟨⟩⟩
          · simpa [Pool.retire, Function.update_of_ne (Ne.symm notEvent)] using silent.idle
          · exact active_retire fun k j' rest _ => silent.quiet k j' rest

/-- However clients came and went and the threads interleave: once nobody is connected and
every thread has ended its work, no real-time data are fetched or sent until somebody
connects again. -/
theorem not_streams_for_nobody {w : World} {h later : List (NetLabel Conn × Networked Conn)}
    (start : Initialised w) (run : Run (NetStep parse J) (.start w) h s)
    (nobody : s.net.openConnections = []) (worked : s.net.posted = [])
    (idle : ∀ i, s.pool.thread i = none)
    (after : Run (NetStep parse J) s later s')
    (nobodyComes : emitted NetLabel.arrival later = []) :
    s'.pool.mem.flag .needSendRt = false ∧
      ∀ i o u, (NetLabel.thread (.exec i o), u) ∈ later → ¬ o.Streams := by
  have listed := listed_of_run run
  obtain ⟨b, due, _⟩ := forecast_of_run start run
  have low : b = false :=
    (due.value_eq (idle _)).symm.trans (not_needSendRt_of_nobody start run nobody worked (idle _))
  subst low
  have silent : Silent s := by
    refine ⟨fun conn opened => listed.ne_nil_of_opened opened nobody, worked, idle _, due, ?_⟩
    intro i j rest active
    rw [idle i] at active
    cases active
  have along : Silent s' ∧ ∀ i o u, (NetLabel.thread (.exec i o), u) ∈ later → ¬ o.Streams := by
    induction after with
    | nil => exact ⟨silent, fun _ _ _ mem => (List.not_mem_nil mem).elim⟩
    | @step h' t l u _ last ih =>
        obtain ⟨before, here⟩ := List.append_eq_nil_iff.mp nobodyComes
        obtain ⟨silent, notStreams⟩ := ih before
        obtain ⟨silent', last⟩ := silent.step last here
        refine ⟨silent', fun i o v mem => ?_⟩
        cases mem with
        | head => exact last i o rfl
        | tail _ mem => exact notStreams i o v mem
  exact ⟨along.1.low, along.2⟩

/-- A message that asks for real-time data. -/
def keepMessage : JsonValue := .object [("type", .string "dataRTKeepRequire")]

/-- A client asks for real-time data and leaves, and its handlers are run. -/
theorem exists_run_keep : ∃ h, ∃ s : Networked Nat,
    Run (NetStep (fun _ => .ok keepMessage) (.standard fun _ => "")) (.start initialised) h s ∧
      s.net.openConnections = [] ∧ s.net.posted = [] ∧ ∀ i, s.pool.thread i = none := by
  have opened := Run.nil.step (@NetStep.opened Nat _ (fun _ => .ok keepMessage)
    (.standard fun _ => "") (.start initialised) 0 rfl)
  have asked := opened.step (@NetStep.received Nat _ _ _ _ 0 "" _ rfl rfl)
  have left := asked.step (@NetStep.closed Nat _ _ _ _ 0 rfl)
  have greeted := left.step (.took rfl rfl rfl)
  have reading := greeted.step (.took rfl rfl rfl)
  have raised := reading.step (@NetStep.thread Nat _ _ _ _
    (.exec .eventLoop (.host (.store .needSendRt true))) _ nofun
    (@System.Step.exec _ _ _ _ _ webSystem _ _ _ _ _ () _ rfl (along_host.mpr rfl)))
  have kept := raised.step (@NetStep.thread Nat _ _ _ _ (.finish .eventLoop) _ nofun (.finish rfl))
  have leaving := kept.step (.took rfl rfl rfl)
  have lowered := leaving.step (@NetStep.thread Nat _ _ _ _
    (.exec .eventLoop (.host (.store .needSendRt false))) _ nofun
    (@System.Step.exec _ _ _ _ _ webSystem _ _ _ _ _ () _ rfl (along_host.mpr rfl)))
  generalize state : Networked.mk _ _ = lowered' at lowered
  have active : lowered'.pool.thread .eventLoop
      = some (.event (.disconnect 0), .op (.call .pauseDrv) .ret) := by
    rw [← state]
    rfl
  have others : ∀ i, i ≠ .eventLoop → lowered'.pool.thread i = none := by
    rw [← state]
    intro i other
    cases i <;> first | rfl | exact absurd rfl other
  have nobody : lowered'.net.openConnections = [] ∧ lowered'.net.posted = [] := by
    rw [← state]
    exact ⟨rfl, rfl⟩
  have paused := lowered.step (@NetStep.thread Nat _ _ _ _ (.exec .eventLoop (.call .pauseDrv)) _
    nofun (.exec active (server_within_attempted (.call .pauseDrv) lowered'.pool.mem)))
  have ended := paused.step (@NetStep.thread Nat _ _ _ _ (.finish .eventLoop) _ nofun (.finish rfl))
  refine ⟨_, _, ended, nobody.1, nobody.2, fun i => ?_⟩
  by_cases event : i = .eventLoop
  · rw [event]
    rfl
  · simp only [Pool.retire, Pool.advance, Function.update_of_ne event, others i event]

section Jobs

variable {w : World} {h : List (NetLabel Conn × Networked Conn)} {i : Thread} {j : Job}

/-- A thread that is left alone ends its job. -/
theorem exists_run_end {p : Program Main Unit} (run : Run (NetStep parse J) s h s')
    (active : s'.pool.thread i = some (j, p)) :
    ∃ later s'', Run (NetStep parse J) s (later ++ h) s'' ∧
      emitted NetLabel.arrival (later ++ h) = emitted NetLabel.arrival h ∧
      s''.pool.thread i = none ∧ ∀ k, k ≠ i → s''.pool.thread k = s'.pool.thread k := by
  induction p generalizing h s' with
  | ret value =>
      have finished := run.step (.thread (l := .finish i) (by rintro _ ⟨⟩) (.finish active))
      refine ⟨[_], _, finished, List.append_nil _, ?_, fun k other => ?_⟩
      · simp [Pool.retire]
      · simp [Pool.retire, other]
  | op o next ih =>
      have answered := run.step (.thread (l := .exec i o) (by rintro _ ⟨⟩)
        (.exec active (server_within_attempted o s'.pool.mem)))
      obtain ⟨later, s'', ended, nobody, idle, others⟩ :=
        ih (server o s'.pool.mem).1 answered (by simp [Pool.advance])
      refine ⟨later ++ [_], s'', by simpa using ended, ?_, idle, fun k other => ?_⟩
      · rw [List.append_assoc]
        exact nobody.trans (List.append_nil _)
      · rw [others k other]
        simp [Pool.advance, other]

/-- A thread that is idle runs a job. -/
theorem exists_run_job (run : Run (NetStep parse J) s h s') (idle : ∀ k, s'.pool.thread k = none)
    (may : i.runs j) (other : i ≠ .eventLoop) :
    ∃ later u s'', Run (NetStep parse J) s (later ++ (.thread (.start i j), u) :: h) s'' ∧
      emitted NetLabel.arrival (later ++ (.thread (.start i j), u) :: h)
        = emitted NetLabel.arrival h ∧
      ∀ k, s''.pool.thread k = none := by
  have notEvent : ∀ j', (.start i j : Label Main Thread Job) ≠ .start .eventLoop j' := by
    rintro j' ⟨⟩
    exact other rfl
  have started := run.step (.thread notEvent (System.Step.start (idle i) may))
  have begun : (s'.pool.begin i j (webSystem.code j)).thread i = some (j, webSystem.code j) := by
    simp [Pool.begin]
  obtain ⟨later, s'', ended, nobody, mine, others⟩ := exists_run_end started begun
  refine ⟨later, _, s'', ended, nobody.trans (List.append_nil _), fun k => ?_⟩
  by_cases same : k = i
  · rw [same, mine]
  · rw [others k same]
    simp [Pool.begin, same, idle k]

end Jobs

/-- After that the timer expires, and the control loop makes a tick. -/
theorem not_streams_for_nobody_keep :
    ∃ h later, ∃ s s' : Networked Nat, Initialised initialised ∧
      Run (NetStep (fun _ => .ok keepMessage) (.standard fun _ => "")) (.start initialised) h s ∧
      s.net.openConnections = [] ∧ s.net.posted = [] ∧ (∀ i, s.pool.thread i = none) ∧
      Run (NetStep (fun _ => .ok keepMessage) (.standard fun _ => "")) s later s' ∧
      (∃ u, (NetLabel.thread (.start .controlLoop .tick), u) ∈ later) ∧
      emitted NetLabel.arrival later = [] ∧ s'.pool.mem.flag .needSendRt = false ∧
      ∀ i o u, (NetLabel.thread (.exec i o), u) ∈ later → ¬ o.Streams := by
  obtain ⟨h, s, run, nobody, worked, idle⟩ := exists_run_keep
  obtain ⟨first, _, _, expired, noArrival, idle'⟩ :=
    exists_run_job (i := .timer) (j := .trigLoopExpired) (.nil (s := s)) idle trivial nofun
  obtain ⟨second, _, _, ticked, noArrival', _⟩ :=
    exists_run_job (i := .controlLoop) (j := .tick) expired idle' trivial nofun
  have nobodyComes := noArrival'.trans noArrival
  exact ⟨h, _, s, _, initialised_anyhow, run, nobody, worked, idle, ticked,
    ⟨_, List.mem_append_right _ List.mem_cons_self⟩, nobodyComes,
    not_streams_for_nobody initialised_anyhow run nobody worked idle ticked nobodyComes⟩

end Runs

end Server

end Lra
