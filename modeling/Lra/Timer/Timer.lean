import Lra.Search.BinarySearch
import Lra.Search.PriorityQueue
import Mathlib.Algebra.Order.Ring.Rat
import Mathlib.Data.Multiset.Filter
import Mathlib.Tactic.Linarith

/-!
# The timer

Events wait in a priority queue, and the uids that were not cancelled are kept in a vector
beside it. Each operation is one step and time is a rational number of milliseconds.
Sleeping, the daemon's own loop and what is logged are left out.
-/

namespace Lra

open Search

variable {τ : Type}

structure TimerEvent (τ : Type) where
  isLoopEvent : Bool
  uid : Int32
  periodMs : ℚ
  t : ℚ
  task : τ

namespace TimerEvent

/-- `operator<`. -/
instance : LT (TimerEvent τ) where
  lt e rhs := e.t - rhs.t > rhs.periodMs - e.periodMs

def deadline (e : TimerEvent τ) : ℚ := e.t + e.periodMs

/-- The comparison is reversed: the event that is due first is the greatest. -/
theorem lt_iff (e rhs : TimerEvent τ) : e < rhs ↔ rhs.deadline < e.deadline := by
  change e.t - rhs.t > rhs.periodMs - e.periodMs ↔ _
  unfold deadline
  constructor <;> intro h <;> linarith

/-- `min_valid_interval_`. -/
def minValidInterval : ℚ := 1 / 100

/-- `IsNearExpired`, at the reading `now` of the clock. -/
def isNearExpired (e : TimerEvent τ) (now : ℚ) : Bool :=
  now - e.t > e.periodMs + minValidInterval

/-- The time after which the event is dispatched. -/
def threshold (e : TimerEvent τ) : ℚ := e.t + e.periodMs + minValidInterval

theorem isNearExpired_iff {e : TimerEvent τ} {now : ℚ} :
    e.isNearExpired now = true ↔ e.threshold < now := by
  unfold isNearExpired threshold
  rw [decide_eq_true_iff]
  constructor <;> intro h <;> linarith

theorem threshold_le {e f : TimerEvent τ} : e.threshold ≤ f.threshold ↔ e.deadline ≤ f.deadline :=
  add_le_add_iff_right _

/-- `event.t = now`. -/
def rearm (e : TimerEvent τ) (now : ℚ) : TimerEvent τ := { e with t := now }

@[simp] theorem rearm_uid (e : TimerEvent τ) (now : ℚ) : (e.rearm now).uid = e.uid := rfl

@[simp] theorem rearm_isLoopEvent (e : TimerEvent τ) (now : ℚ) :
    (e.rearm now).isLoopEvent = e.isLoopEvent := rfl

end TimerEvent

structure Timer (τ : Type) where
  eventQueue : Multiset (TimerEvent τ) := 0
  validUid : List UInt32 := []
  uidForNextEvent : UInt32 := 0

/-- What a call of `HandleExpiredEvents` reads from the clock and gives to the pool. -/
structure Expiry (τ : Type) where
  /-- The dispatched events, each with the reading of its test. -/
  assigned : List (TimerEvent τ × ℚ) := []
  /-- The reading at which the event on top had not expired. -/
  wait : Option ℚ := none
  /-- The reading after the loop. -/
  tNow : Option ℚ := none
  /-- The readings at which the dispatched loop events were put back. -/
  rearm : List ℚ := []

namespace Expiry

def events (c : Expiry τ) : List (TimerEvent τ) := c.assigned.map Prod.fst

/-- The readings of the call, in their order. -/
def readings (c : Expiry τ) : List ℚ :=
  c.assigned.map Prod.snd ++ c.wait.toList ++ c.tNow.toList ++ c.rearm

/-- `popped_loop_events_queue` after the loop. -/
def poppedLoopEvents (c : Expiry τ) : List (TimerEvent τ) := c.events.filter (·.isLoopEvent)

/-- The loop events as they are put back. -/
def rearmed (c : Expiry τ) : List (TimerEvent τ) :=
  List.zipWith TimerEvent.rearm c.poppedLoopEvents c.rearm

end Expiry

namespace Timer

/-- `IsValidUid`. -/
def isValidUid (s : Timer τ) (uid : UInt32) : Bool := binarySearch uid s.validUid

def push (s : Timer τ) (event : TimerEvent τ) : Timer τ :=
  { s with eventQueue := event ::ₘ s.eventQueue }

def createTimerEvent (s : Timer τ) (task : τ) (periodMs now : ℚ) : TimerEvent τ × Timer τ :=
  ({ isLoopEvent := false, uid := s.uidForNextEvent.toInt32, periodMs, t := now, task },
    { s with
      validUid := s.validUid ++ [s.uidForNextEvent]
      uidForNextEvent := s.uidForNextEvent + 1 })

def setEvent (s : Timer τ) (task : τ) (durationMs now : ℚ) : UInt32 × Timer τ :=
  let (te, s) := s.createTimerEvent task durationMs now
  (te.uid.toUInt32, s.push te)

def setLoopEvent (s : Timer τ) (task : τ) (periodMs now : ℚ) : UInt32 × Timer τ :=
  let (te, s) := s.createTimerEvent task periodMs now
  (te.uid.toUInt32, s.push { te with isLoopEvent := true })

/-- `std::find` and `erase`. -/
def removeUid (s : Timer τ) (uid : UInt32) : Bool × Timer τ :=
  if uid ∈ s.validUid then (true, { s with validUid := s.validUid.erase uid }) else (false, s)

def cancelEvent (s : Timer τ) (uid : UInt32) : Bool × Timer τ :=
  if uid ≥ s.uidForNextEvent then (false, s) else s.removeUid uid

/-- The loop of `HandleExpiredEvents`: from the queue `q` it dispatches `assigned` and leaves
`q'`. `wait` is the reading that ended it, if it did not empty the queue. -/
inductive AssignExpired (valid : UInt32 → Bool) :
    Multiset (TimerEvent τ) → List (TimerEvent τ × ℚ) → Option ℚ → Multiset (TimerEvent τ) → Prop
  | drained : AssignExpired valid 0 [] none 0
  | cancelled {event q rest assigned wait q'} :
      Top event q rest → valid event.uid.toUInt32 = false →
      AssignExpired valid rest assigned wait q' → AssignExpired valid q assigned wait q'
  | unexpired {event q rest now} :
      Top event q rest → valid event.uid.toUInt32 = true → event.isNearExpired now = false →
      AssignExpired valid q [] (some now) q
  | assign {event q rest now assigned wait q'} :
      Top event q rest → valid event.uid.toUInt32 = true → event.isNearExpired now = true →
      AssignExpired valid rest assigned wait q' →
      AssignExpired valid q ((event, now) :: assigned) wait q'

/-- A call of `HandleExpiredEvents`. On an empty queue it returns at once. -/
inductive HandleExpiredEvents (s : Timer τ) : Expiry τ → Timer τ → Prop
  | empty : s.eventQueue = 0 → HandleExpiredEvents s {} s
  | handle {assigned wait tNow rearm q} : s.eventQueue ≠ 0 →
      AssignExpired s.isValidUid s.eventQueue assigned wait q →
      rearm.length = (Expiry.poppedLoopEvents { assigned }).length →
      HandleExpiredEvents s { assigned, wait, tNow := some tNow, rearm }
        { s with eventQueue := q + Expiry.rearmed { assigned, rearm } }

/-- The events that were not cancelled. -/
def live (s : Timer τ) : Multiset (TimerEvent τ) :=
  s.eventQueue.filter fun e => s.isValidUid e.uid.toUInt32

end Timer

end Lra
