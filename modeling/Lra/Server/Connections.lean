import Lra.Server.InStep
import Lra.Server.Message

/-!
# Clients that come and go

The networking thread keeps the list of open connections and posts a handler to the main
event loop for each connection, disconnection and message. The main event loop runs the
handlers in the order in which they were posted, while the control loop ticks and the
network goes on. An exception ends the process, so there is no step for it.
-/

namespace Lra

open Effect

namespace Server

variable {Conn : Type} [DecidableEq Conn]

/-! ### The network -/

/-- What has become of the connection that a handle is for. A closed one is dropped at some
time, and its handles expire. -/
inductive ConnState where
  | unknown
  | opened
  | closed
  | expired
  deriving DecidableEq

/-- A handler of `mainEventLoop`, with what it captured. -/
inductive Posted (Conn : Type) where
  | connect (conn : Conn)
  | disconnect (conn : Conn)
  | message (conn : Conn) (type : MessageType) (args : JsonValue)

structure Network (Conn : Type) where
  state : Conn → ConnState
  openConnections : List Conn
  /-- What `mainEventLoop` has still to run. -/
  posted : List (Posted Conn)

namespace Network

def initial : Network Conn := ⟨fun _ => .unknown, [], []⟩

def become (n : Network Conn) (conn : Conn) (state : ConnState) : Network Conn :=
  { n with state := Function.update n.state conn state }

/-- The object of a handle. -/
def lock (n : Network Conn) (conn : Conn) : Option Conn :=
  if n.state conn = .expired then none else some conn

def post (n : Network Conn) (handlers : List (Posted Conn)) : Network Conn :=
  { n with posted := n.posted ++ handlers }

def numConnections (n : Network Conn) : Nat := n.openConnections.length

/-- The messages sent, each with its receiver. -/
def broadcastMessage (n : Network Conn) (m : Message) : List (Conn × Message) :=
  n.openConnections.map fun conn => (conn, m)

def onOpen (n : Network Conn) (conn : Conn) : Network Conn :=
  { n with openConnections := n.openConnections ++ [conn] }.post [.connect conn]

/-- Handles that have expired are removed as well. -/
def onClose (n : Network Conn) (conn : Conn) : Network Conn :=
  { n with
    openConnections := n.openConnections.filter fun elem =>
      !(n.lock elem = none ∨ n.lock elem = n.lock conn) }.post [.disconnect conn]

end Network

/-- What a handler does when its turn comes. `connections` is what `numConnections()`
answers then; the handler of a connection only logs it. -/
def Posted.event (J : Jsoncpp) (connections : Nat) :
    Posted Conn → Except JsonError (Option Event)
  | .connect _ => return none
  | .disconnect _ => return some (.disconnect connections)
  | .message _ type args => do
    let e ← decode J args type
    return some e

/-! ### The server on the network -/

/-- All handlers, ticks and the timer, down to single calls and shared accesses. Transfers
may fail. -/
def webSystem : System Main World Thread Job where
  sem := attempted
  code := Job.code
  may i j := i.runs j

structure Networked (Conn : Type) where
  net : Network Conn
  pool : Pool Main World Thread Job

/-- The server is started and nobody has connected yet. -/
def Networked.start (w : World) : Networked Conn := ⟨.initial, .idle w⟩

inductive NetLabel (Conn : Type) where
  | opened (conn : Conn)
  | closed (conn : Conn)
  | dropped (conn : Conn)
  | received (conn : Conn) (payload : String)
  /-- The main event loop takes up a handler. -/
  | took (handler : Posted Conn)
  | thread (l : Label Main Thread Job)

/-- The main event loop begins with an event, if there is something to do. -/
def beginEvent (p : Pool Main World Thread Job) : Option Event → Pool Main World Thread Job
  | none => p
  | some e => p.begin .eventLoop (.event e) (Job.code (.event e))

section Steps

variable (parse : String → Except JsonError JsonValue) (J : Jsoncpp)

/-- A connection is opened once, carries messages and is closed once. -/
inductive NetStep : Networked Conn → NetLabel Conn → Networked Conn → Prop where
  | opened {s conn} : s.net.state conn = .unknown →
      NetStep s (.opened conn) { s with net := (s.net.become conn .opened).onOpen conn }
  | closed {s conn} : s.net.state conn = .opened →
      NetStep s (.closed conn) { s with net := (s.net.become conn .closed).onClose conn }
  | dropped {s conn} : s.net.state conn = .closed →
      NetStep s (.dropped conn) { s with net := s.net.become conn .expired }
  | received {s conn payload handlers} : s.net.state conn = .opened →
      onMessage parse J payload = .ok handlers →
      NetStep s (.received conn payload)
        { s with net := s.net.post (handlers.map fun h => .message conn h.1 h.2) }
  | took {s handler rest e} : s.pool.thread .eventLoop = none →
      s.net.posted = handler :: rest →
      handler.event J s.net.numConnections = .ok e →
      NetStep s (.took handler)
        { net := { s.net with posted := rest }, pool := beginEvent s.pool e }
  | thread {s l pool} : (∀ j, l ≠ .start .eventLoop j) → webSystem.Step s.pool l pool →
      NetStep s (.thread l) { s with pool }

end Steps

/-! ### The open connections -/

/-- The connections opened along a run. -/
def NetLabel.arrival : NetLabel Conn → List Conn
  | .opened conn => [conn]
  | _ => []

/-- The list holds the connections that are open, of those that ever came. -/
structure Listed (arrived : List Conn) (n : Network Conn) : Prop where
  known : ∀ conn, conn ∈ arrived ↔ n.state conn ≠ .unknown
  nodup : arrived.Nodup
  listed : n.openConnections = arrived.filter fun conn => n.state conn = .opened

namespace Listed

variable {arrived : List Conn} {n : Network Conn} {conn : Conn}

omit [DecidableEq Conn] in
theorem initial : Listed [] (Network.initial : Network Conn) :=
  ⟨fun conn => by simp [Network.initial], List.nodup_nil, rfl⟩

omit [DecidableEq Conn] in
theorem post (inv : Listed arrived n) (handlers : List (Posted Conn)) :
    Listed arrived (n.post handlers) :=
  ⟨inv.known, inv.nodup, inv.listed⟩

omit [DecidableEq Conn] in
/-- A connection on the list is open. -/
theorem opened_of_mem (inv : Listed arrived n) (mem : conn ∈ n.openConnections) :
    n.state conn = .opened := by
  rw [inv.listed] at mem
  simpa using (List.mem_filter.mp mem).2

omit [DecidableEq Conn] in
theorem ne_nil_of_opened (inv : Listed arrived n) (opened : n.state conn = .opened) :
    n.openConnections ≠ [] := by
  have arrived : conn ∈ arrived := (inv.known conn).mpr (by simp [opened])
  have mem : conn ∈ n.openConnections := by
    rw [inv.listed]
    exact List.mem_filter.mpr ⟨arrived, by simp [opened]⟩
  exact List.ne_nil_of_mem mem

/-- A new handle is put at the end. -/
theorem open_ (inv : Listed arrived n) (fresh : n.state conn = .unknown) :
    Listed (arrived ++ [conn]) ((n.become conn .opened).onOpen conn) := by
  have new : conn ∉ arrived := fun mem => (inv.known conn).mp mem fresh
  refine ⟨fun c => ?_, ?_, ?_⟩
  · by_cases same : c = conn
    · subst same
      simp [Network.onOpen, Network.post, Network.become]
    · simp [Network.onOpen, Network.post, Network.become, same, inv.known]
  · exact List.nodup_append.mpr ⟨inv.nodup, by simp, by grind⟩
  · have older : arrived.filter (fun c => (n.become conn .opened).state c = .opened)
        = n.openConnections := by
      rw [inv.listed]
      refine List.filter_congr fun c mem => ?_
      have other : c ≠ conn := fun same => new (same ▸ mem)
      simp [Network.become, other]
    show n.openConnections ++ [conn] = _
    rw [List.filter_append]
    show _ = arrived.filter (fun c => (n.become conn .opened).state c = .opened) ++ _
    rw [older]
    simp [Network.onOpen, Network.post, Network.become]

/-- A state other than open takes a connection off, where it was on the list. -/
theorem become (inv : Listed arrived n) {state : ConnState} (known : n.state conn ≠ .unknown)
    (notOpened : state ≠ .opened) (notUnknown : state ≠ .unknown) :
    Listed arrived { n.become conn state with
      openConnections := n.openConnections.filter fun c => c ≠ conn } := by
  refine ⟨fun c => ?_, inv.nodup, ?_⟩
  · by_cases same : c = conn
    · subst same
      simp [Network.become, notUnknown, inv.known, known]
    · simp [Network.become, same, inv.known]
  · rw [inv.listed, List.filter_filter]
    refine List.filter_congr fun c _ => ?_
    by_cases same : c = conn
    · subst same
      simp [Network.become, notOpened]
    · simp [Network.become, same]

end Listed

section Runs

variable {parse : String → Except JsonError JsonValue} {J : Jsoncpp}
variable {s s' : Networked Conn} {l : NetLabel Conn}

/-- None of the handles on the list has expired when another one is closed. -/
theorem onClose_openConnections {arrived : List Conn} {n : Network Conn} {conn : Conn}
    (inv : Listed arrived n) :
    ((n.become conn .closed).onClose conn).openConnections
      = n.openConnections.filter fun c => c ≠ conn := by
  refine List.filter_congr fun c mem => ?_
  have opened := inv.opened_of_mem mem
  by_cases same : c = conn
  · subst same
    simp [Network.lock, Network.become]
  · simp [Network.lock, Network.become, same, opened]

theorem Listed.step {arrived : List Conn} (inv : Listed arrived s.net)
    (step : NetStep parse J s l s') : Listed (arrived ++ l.arrival) s'.net := by
  cases step with
  | opened fresh => exact inv.open_ fresh
  | @closed conn opened =>
      simp only [NetLabel.arrival, List.append_nil]
      have known : s.net.state conn ≠ .unknown := by simp [opened]
      have notOpened : ConnState.closed ≠ .opened := by simp
      have off := inv.become known notOpened (by simp)
      refine ⟨off.known, off.nodup, ?_⟩
      rw [onClose_openConnections inv]
      exact off.listed
  | @dropped conn closed =>
      simp only [NetLabel.arrival, List.append_nil]
      have known : s.net.state conn ≠ .unknown := by simp [closed]
      have notOpened : ConnState.expired ≠ .opened := by simp
      have off := inv.become known notOpened (by simp)
      refine ⟨off.known, off.nodup, ?_⟩
      have absent : s.net.openConnections.filter (fun c => c ≠ conn) = s.net.openConnections := by
        refine List.filter_eq_self.mpr fun c mem => ?_
        have opened := inv.opened_of_mem mem
        simp only [ne_eq, decide_not, Bool.not_eq_eq_eq_not, Bool.not_true, decide_eq_false_iff_not]
        rintro rfl
        simp [opened] at closed
      exact absent.symm.trans off.listed
  | received opened parsed => simpa [NetLabel.arrival] using inv.post _
  | took idle head decoded =>
      simp only [NetLabel.arrival, List.append_nil]
      exact ⟨inv.known, inv.nodup, inv.listed⟩
  | thread other step => simpa [NetLabel.arrival] using inv

theorem listed_of_run {w : World} {h : List (NetLabel Conn × Networked Conn)}
    (run : Run (NetStep parse J) (.start w) h s) :
    Listed (emitted NetLabel.arrival h) s.net := by
  induction run with
  | nil => exact .initial
  | step _ last ih => exact ih.step last

/-- Whatever connections come and go, in whatever order the threads do their work: the
list holds each connection that is open now, once, in the order in which they were opened. -/
theorem openConnections_of_run {w : World} {h : List (NetLabel Conn × Networked Conn)}
    (run : Run (NetStep parse J) (.start w) h s) :
    s.net.openConnections.Nodup ∧ s.net.openConnections
      = (emitted NetLabel.arrival h).filter fun conn => s.net.state conn = .opened := by
  have inv := listed_of_run run
  refine ⟨?_, inv.listed⟩
  rw [inv.listed]
  exact inv.nodup.filter _

/-- Of two clients the first one leaves. -/
theorem openConnections_of_run_leave :
    ∃ h, ∃ s : Networked Nat,
      Run (NetStep (fun _ => .ok .null) (.standard fun _ => "")) (.start World.initial) h s ∧
        emitted NetLabel.arrival h = [0, 1] ∧ s.net.openConnections = [1] ∧
        s.net.openConnections.Nodup ∧ s.net.openConnections
          = (emitted NetLabel.arrival h).filter fun conn => s.net.state conn = .opened := by
  have first := Run.nil.step (@NetStep.opened Nat _ (fun _ => .ok .null) (.standard fun _ => "")
    (.start World.initial) 0 rfl)
  have second := first.step (@NetStep.opened Nat _ _ _ _ 1 rfl)
  have left := second.step (@NetStep.closed Nat _ _ _ _ 0 rfl)
  exact ⟨_, _, left, rfl, rfl, openConnections_of_run left⟩

end Runs

end Server

end Lra
