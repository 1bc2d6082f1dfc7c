import Lra.Timer.Runs

/-!
# How often events are dispatched

Over a whole run an event that was set once is dispatched at most once. A loop event is put
back with a later reading of the clock, so the next dispatch is more than its period later;
whatever else is set, cancelled or late, it never catches up.
-/

namespace Lra

open Effect Search TimerEvent

variable {τ : Type}

/-- The readings an operation takes from the clock. -/
def TimerAct.readings : TimerAct τ → List ℚ
  | .setEvent _ _ now | .setLoopEvent _ _ now => [now]
  | .cancelEvent _ _ => []
  | .handleExpiredEvents _ _ c => c.readings

/-- The events it gives to the pool, each with the reading of its test. -/
def TimerAct.assigned : TimerAct τ → List (TimerEvent τ × ℚ)
  | .handleExpiredEvents _ _ c => c.assigned
  | _ => []

namespace Timer

/-- The same loop event, more than a period later. -/
def PeriodLater (x y : TimerEvent τ × ℚ) : Prop :=
  x.1.isLoopEvent = true ∧ y.1 = x.1.rearm y.1.t ∧ x.2 + x.1.periodMs + 1 / 100 < y.2

/-- The dispatches so far, and what is known of them in the queue. -/
structure Apart (log : List (TimerEvent τ × ℚ)) (times : List ℚ) (s : Timer τ) : Prop where
  apart : log.Pairwise fun x y => x.1.uid.toUInt32 = y.1.uid.toUInt32 → PeriodLater x y
  queued : ∀ x ∈ log, ∀ e ∈ s.eventQueue, x.1.uid.toUInt32 = e.uid.toUInt32 →
    x.1.isLoopEvent = true ∧ e = x.1.rearm e.t ∧ x.2 ≤ e.t
  issued : ∀ x ∈ log, x.1.uid.toUInt32 < s.uidForNextEvent
  read : ∀ x ∈ log, x.2 ∈ times

section Steps

variable {s s' : Timer τ} {c : Expiry τ} {log : List (TimerEvent τ × ℚ)} {times : List ℚ}

theorem mem_rearmed {e : TimerEvent τ} (inside : e ∈ c.rearmed) :
    ∃ origin ∈ c.poppedLoopEvents, ∃ now ∈ c.rearm, e = origin.rearm now := by
  obtain ⟨i, bound, rfl⟩ := List.mem_iff_getElem.mp inside
  have both := bound
  rw [Expiry.rearmed, List.length_zipWith, lt_min_iff] at both
  refine ⟨_, List.getElem_mem both.1, _, List.getElem_mem both.2, ?_⟩
  simp [Expiry.rearmed]

theorem mem_readings_of_assigned {x : TimerEvent τ × ℚ} (inside : x ∈ c.assigned) :
    x.2 ∈ c.readings := by
  simp only [Expiry.readings, List.mem_append, List.mem_map]
  exact .inl (.inl (.inl ⟨x, inside, rfl⟩))

theorem mem_readings_of_rearm {now : ℚ} (inside : now ∈ c.rearm) : now ∈ c.readings :=
  List.mem_append_right _ inside

/-- An event is dispatched before any is put back. -/
theorem le_rearm (clock : c.readings.Pairwise (· ≤ ·)) {x : TimerEvent τ × ℚ}
    (inside : x ∈ c.assigned) {now : ℚ} (back : now ∈ c.rearm) : x.2 ≤ now := by
  refine (List.pairwise_append.mp clock).2.2 x.2 ?_ now back
  simp only [List.mem_append, List.mem_map]
  exact .inl (.inl ⟨x, inside, rfl⟩)

/-- A loop event that is put back was dispatched. -/
theorem mem_poppedLoopEvents {e : TimerEvent τ} (popped : e ∈ c.poppedLoopEvents) :
    e.isLoopEvent = true ∧ ∃ x ∈ c.assigned, x.1 = e := by
  obtain ⟨inside, loop⟩ := List.mem_filter.mp popped
  exact ⟨loop, List.mem_map.mp inside⟩

theorem Apart.handle (apart : Apart log times s) (inv : Inv s)
    (call : s.HandleExpiredEvents c s') (clock : (times ++ c.readings).Pairwise (· ≤ ·)) :
    Apart (log ++ c.assigned) (times ++ c.readings) s' := by
  obtain ⟨q, done, rfl, _⟩ := call.loop
  obtain ⟨dropped, _, content⟩ := done.content
  obtain ⟨_, within, between⟩ := List.pairwise_append.mp clock
  have queuedOf : ∀ x ∈ c.assigned, x.1 ∈ s.eventQueue := by
    intro x inside
    rw [content]
    simp only [Multiset.mem_add, Multiset.mem_coe, List.mem_map]
    exact .inl (.inl ⟨x, inside, rfl⟩)
  have queuedLeft : ∀ e ∈ q, e ∈ s.eventQueue := fun e left => Multiset.mem_of_le done.le left
  -- No two events in the queue have a uid in common.
  have one : ∀ a ∈ s.eventQueue, ∀ b ∈ s.eventQueue, a.uid.toUInt32 = b.uid.toUInt32 → a = b :=
    Multiset.inj_on_of_nodup_map inv.distinct
  have distinct := inv.distinct
  rw [uids, content, Multiset.map_add, Multiset.map_add] at distinct
  obtain ⟨front, _, apartFromLeft⟩ := Multiset.nodup_add.mp distinct
  have each : (c.assigned.map fun x => x.1.uid.toUInt32).Nodup := by
    have first := (Multiset.nodup_add.mp front).1
    rwa [Multiset.map_coe, Multiset.coe_nodup, List.map_map] at first
  refine ⟨List.pairwise_append.mpr ⟨apart.apart, ?_, ?_⟩, ?_, ?_, ?_⟩
  · rw [List.Nodup, List.pairwise_map] at each
    exact each.imp fun other same => absurd same other
  · intro x old y new same
    obtain ⟨loop, again, le⟩ := apart.queued x old y.1 (queuedOf y new) same
    have expired : y.1.t + y.1.periodMs + 1 / 100 < y.2 := done.expired y new
    have period : y.1.periodMs = (x.1.rearm y.1.t).periodMs := congrArg TimerEvent.periodMs again
    change y.1.periodMs = x.1.periodMs at period
    refine ⟨loop, again, ?_⟩
    linarith
  · intro x inside e mem same
    cases List.mem_append.mp inside with
    | inl old =>
        cases Multiset.mem_add.mp mem with
        | inl left => exact apart.queued x old e (queuedLeft e left) same
        | inr back =>
            obtain ⟨origin, popped, now, read, rfl⟩ := mem_rearmed back
            obtain ⟨_, y, new, rfl⟩ := mem_poppedLoopEvents popped
            obtain ⟨loop, again, _⟩ := apart.queued x old y.1 (queuedOf y new) same
            refine ⟨loop, congrArg (·.rearm now) again, ?_⟩
            exact between _ (apart.read x old) _ (mem_readings_of_rearm read)
    | inr new =>
        cases Multiset.mem_add.mp mem with
        | inl left =>
            have first : x.1.uid.toUInt32 ∈ (↑(c.assigned.map Prod.fst) + dropped).map
                fun e => e.uid.toUInt32 := by
              refine Multiset.mem_map_of_mem _ (Multiset.mem_add.mpr (.inl ?_))
              exact Multiset.mem_coe.mpr (List.mem_map_of_mem new)
            rw [Multiset.map_add] at first
            have other := Multiset.disjoint_left.mp apartFromLeft first
            exact absurd (same ▸ Multiset.mem_map_of_mem _ left) other
        | inr back =>
            obtain ⟨origin, popped, now, read, rfl⟩ := mem_rearmed back
            obtain ⟨loop, y, new', rfl⟩ := mem_poppedLoopEvents popped
            have this := one x.1 (queuedOf x new) y.1 (queuedOf y new') same
            rw [this]
            exact ⟨loop, rfl, le_rearm within new read⟩
  · intro x inside
    cases List.mem_append.mp inside with
    | inl old => exact apart.issued x old
    | inr new => exact inv.issued _ (Multiset.mem_map_of_mem _ (queuedOf x new))
  · intro x inside
    cases List.mem_append.mp inside with
    | inl old => exact List.mem_append_left _ (apart.read x old)
    | inr new => exact List.mem_append_right _ (mem_readings_of_assigned new)

theorem Apart.issue (apart : Apart log times s) {e : TimerEvent τ} (more : List ℚ)
    (uid : e.uid.toUInt32 = s.uidForNextEvent) (fits : s.uidForNextEvent.toNat + 1 < 2 ^ 32) :
    Apart log (times ++ more) (s.issue e) := by
  refine ⟨apart.apart, fun x inside f mem same => ?_, fun x inside => ?_, fun x inside => ?_⟩
  · cases Multiset.mem_cons.mp mem with
    | inl new =>
        subst new
        have below := apart.issued x inside
        rw [same, uid] at below
        exact absurd below (UInt32.lt_irrefl _)
    | inr old => exact apart.queued x inside f old same
  · exact UInt32.lt_trans (apart.issued x inside) (lt_add_one fits)
  · exact List.mem_append_left _ (apart.read x inside)

end Steps

section Whole

variable {t : Timer τ} {h : List (TimerAct τ × Timer τ)}

theorem apart_of_run (run : Run (Restrict TimerStep HasUid) {} h t)
    (clock : (emitted TimerAct.readings h).Pairwise (· ≤ ·)) :
    Apart (emitted TimerAct.assigned h) (emitted TimerAct.readings h) t := by
  induction run with
  | nil => exact ⟨.nil, nofun, nofun, nofun⟩
  | @step h s l u earlier last ih =>
      rw [emitted] at clock
      have apart := ih (List.pairwise_append.mp clock).1
      have quiet (none : l.assigned = []) :
          emitted TimerAct.assigned ((l, u) :: h) = emitted TimerAct.assigned h := by
        rw [emitted, none, List.append_nil]
      obtain ⟨fits, step⟩ := last
      cases step with
      | setEvent task durationMs now =>
          rw [quiet rfl]
          exact apart.issue _ (UInt32.toUInt32_toInt32 _) (fits rfl)
      | setLoopEvent task periodMs now =>
          rw [quiet rfl]
          exact apart.issue _ (UInt32.toUInt32_toInt32 _) (fits rfl)
      | cancelEvent uid =>
          rw [quiet rfl, emitted, TimerAct.readings, List.append_nil]
          cases cancelEvent_cases s uid with
          | inl refused =>
              rw [refused.1]
              exact apart
          | inr removed =>
              obtain ⟨_, _, answer⟩ := removed
              rw [answer]
              exact ⟨apart.apart, apart.queued, apart.issued, apart.read⟩
      | handleExpiredEvents _ _ call => exact apart.handle (inv_of_run earlier) call clock

/-- In any run whose clock does not go back: an event that was set once is dispatched once at
most, and between two dispatches of a loop event more than its period passes. -/
theorem dispatches_apart (run : Run TimerStep {} h t) (few : created h < 2 ^ 32)
    (clock : (emitted TimerAct.readings h).Pairwise (· ≤ ·)) :
    (emitted TimerAct.assigned h).Pairwise fun x y =>
      x.1.uid.toUInt32 = y.1.uid.toUInt32 → PeriodLater x y :=
  (apart_of_run (restrict_of_run run few) clock).apart

end Whole

/-- The loop event is late both times. -/
theorem dispatches_apart_loopEvent :
    ∃ (h : List (TimerAct Unit × Timer Unit)) (t : Timer Unit), Run TimerStep {} h t ∧
      emitted TimerAct.assigned h = [(loopEvent, 2), (loopEvent.rearm 4, 6)] ∧
      (emitted TimerAct.assigned h).Pairwise fun x y =>
        x.1.uid.toUInt32 = y.1.uid.toUInt32 → PeriodLater x y := by
  let again : Timer Unit := ⟨{loopEvent.rearm 4}, [0], 1⟩
  have first : loopEvent.isNearExpired 2 = true := by decide +kernel
  have second : (loopEvent.rearm 4).isNearExpired 6 = true := by decide +kernel
  have loop := AssignExpired.assign loopEvent_top loopEvent_valid first .drained
  have call : oneLoopEvent.HandleExpiredEvents ⟨[(loopEvent, 2)], none, some 3, [4]⟩ again :=
    .handle (Multiset.singleton_ne_zero _) loop rfl
  have top : Top (loopEvent.rearm 4) again.eventQueue 0 := ⟨rfl, by simp⟩
  have loop := AssignExpired.assign top loopEvent_valid second .drained
  have call' : again.HandleExpiredEvents ⟨[(loopEvent.rearm 4, 6)], none, some 7, [8]⟩ _ :=
    .handle (Multiset.singleton_ne_zero _) loop rfl
  have create : TimerStep {} (.setLoopEvent () 1 0) oneLoopEvent := .setLoopEvent () 1 0
  have handle : TimerStep oneLoopEvent (.handleExpiredEvents 2 4 _) again :=
    .handleExpiredEvents (by decide +kernel) (by decide +kernel) call
  have handle' : TimerStep again (.handleExpiredEvents 6 8 _) _ :=
    .handleExpiredEvents (by decide +kernel) (by decide +kernel) call'
  have run := ((Run.nil.step create).step handle).step handle'
  exact ⟨_, _, run, rfl, dispatches_apart run (by decide) (by decide +kernel)⟩

end Timer

end Lra
