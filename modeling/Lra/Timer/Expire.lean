import Lra.Timer.Timer
import Mathlib.Algebra.Order.Group.Multiset

/-!
# Dispatching expired events

The loop of `HandleExpiredEvents` stops at the first valid event that has not expired. As
the top has the earliest deadline, every other event waits at least as long.
-/

namespace Lra

open Search TimerEvent

variable {τ : Type}

namespace Timer

section Loop

variable {valid : UInt32 → Bool} {q q' : Multiset (TimerEvent τ)}
variable {assigned : List (TimerEvent τ × ℚ)} {wait : Option ℚ}

/-- What the loop makes of a queue. -/
structure Assigned (valid : UInt32 → Bool) (q : Multiset (TimerEvent τ))
    (assigned : List (TimerEvent τ × ℚ)) (wait : Option ℚ)
    (q' : Multiset (TimerEvent τ)) : Prop where
  content : ∃ dropped : Multiset (TimerEvent τ),
    (∀ e ∈ dropped, valid e.uid.toUInt32 = false) ∧ q = ↑(assigned.map Prod.fst) + dropped + q'
  valid : ∀ e ∈ assigned.map Prod.fst, valid e.uid.toUInt32 = true
  expired : ∀ x ∈ assigned, x.1.threshold < x.2
  ordered : (assigned.map Prod.fst).Pairwise fun a b => a.deadline ≤ b.deadline
  least : ∀ a ∈ assigned.map Prod.fst, ∀ b ∈ q', a.deadline ≤ b.deadline
  drained : wait = none → q' = 0
  waits : ∀ now, wait = some now → ∀ e ∈ q', now ≤ e.threshold

theorem AssignExpired.spec (loop : AssignExpired valid q assigned wait q') :
    Assigned valid q assigned wait q' := by
  induction loop with
  | drained =>
      exact ⟨⟨0, by simp, rfl⟩, by simp, by simp, .nil, by simp, fun _ => rfl, nofun⟩
  | @cancelled event q rest assigned wait q' top invalid _ ih =>
      obtain ⟨dropped, none, content⟩ := ih.content
      refine ⟨⟨event ::ₘ dropped, ?_, ?_⟩, ih.valid, ih.expired, ih.ordered, ih.least,
        ih.drained, ih.waits⟩
      · exact Multiset.forall_mem_cons.mpr ⟨invalid, none⟩
      · rw [top.content, content, Multiset.add_cons, Multiset.cons_add]
  | @unexpired event q rest now top _ early =>
      refine ⟨⟨0, by simp, by simp⟩, by simp, by simp, .nil, by simp, nofun, ?_⟩
      intro reading same e inside
      obtain rfl := Option.some.inj same
      have notYet : now ≤ event.threshold := by
        rw [← not_lt, ← isNearExpired_iff, early]
        nofun
      exact notYet.trans (threshold_le.mpr (top.key_le lt_iff e inside))
  | @assign event q rest now assigned wait q' top valid expired _ ih =>
      obtain ⟨dropped, none, content⟩ := ih.content
      have first : ∀ b ∈ rest, event.deadline ≤ b.deadline := fun b behind =>
        top.key_le lt_iff b (top.content ▸ Multiset.mem_cons_of_mem behind)
      refine ⟨⟨dropped, none, ?_⟩, ?_, ?_, ?_, ?_, ih.drained, ih.waits⟩
      · rw [top.content, content, List.map_cons, ← Multiset.cons_coe, Multiset.cons_add,
          Multiset.cons_add]
      · exact List.forall_mem_cons.mpr ⟨valid, ih.valid⟩
      · exact List.forall_mem_cons.mpr ⟨isNearExpired_iff.mp expired, ih.expired⟩
      · refine List.pairwise_cons.mpr ⟨fun b inside => first b ?_, ih.ordered⟩
        rw [content]
        exact Multiset.mem_add.mpr (.inl (Multiset.mem_add.mpr (.inl inside)))
      · refine List.forall_mem_cons.mpr ⟨fun b inside => first b ?_, ih.least⟩
        rw [content]
        exact Multiset.mem_add.mpr (.inr inside)

/-- The loop comes to its end on every queue, whatever the clock shows. -/
theorem exists_assignExpired (valid : UInt32 → Bool) (q : Multiset (TimerEvent τ))
    (clock : ℕ → ℚ) : ∃ assigned wait q', AssignExpired valid q assigned wait q' ∧
      ∃ n, assigned.map Prod.snd ++ wait.toList = (List.range n).map clock := by
  induction size : q.card generalizing q clock with
  | zero =>
      obtain rfl := Multiset.card_eq_zero.mp size
      exact ⟨[], none, 0, .drained, 0, rfl⟩
  | succ k ih =>
      have nonempty : q ≠ 0 := fun empty => by simp [empty] at size
      obtain ⟨event, rest, top⟩ := exists_top nonempty lt_iff
      have smaller : rest.card = k := by
        rw [top.content, Multiset.card_cons] at size
        exact Nat.succ.inj size
      cases isValid : valid event.uid.toUInt32 with
      | false =>
          obtain ⟨assigned, wait, q', loop, n, readings⟩ := ih rest clock smaller
          exact ⟨assigned, wait, q', .cancelled top isValid loop, n, readings⟩
      | true =>
          cases expired : event.isNearExpired (clock 0) with
          | false => exact ⟨[], some (clock 0), q, .unexpired top isValid expired, 1, rfl⟩
          | true =>
              obtain ⟨assigned, wait, q', loop, n, readings⟩ :=
                ih rest (fun i => clock (i + 1)) smaller
              refine ⟨_, wait, q', .assign top isValid expired loop, n + 1, ?_⟩
              rw [List.map_cons, List.cons_append, readings, List.range_succ_eq_map]
              simp [Function.comp_def]

/-- The loop can dispatch any list of valid events in the order of their deadlines that have
expired at `now`, if the others are not due earlier and wait at `w`. -/
theorem exists_loop (events : List (TimerEvent τ)) {rest : Multiset (TimerEvent τ)} {now w : ℚ}
    (split : q.filter (fun e => valid e.uid.toUInt32) = ↑events + rest)
    (ordered : events.Pairwise fun a b => a.deadline ≤ b.deadline)
    (least : ∀ a ∈ events, ∀ b ∈ rest, a.deadline ≤ b.deadline)
    (expired : ∀ e ∈ events, e.threshold < now) (waits : ∀ e ∈ rest, w ≤ e.threshold) :
    ∃ wait q', AssignExpired valid q (events.map fun e => (e, now)) wait q' ∧
      q'.filter (fun e => valid e.uid.toUInt32) = rest ∧ ∀ r, wait = some r → r = w := by
  induction size : q.card generalizing q events with
  | zero =>
      obtain rfl := Multiset.card_eq_zero.mp size
      have count : events.length + rest.card = 0 := by
        simpa using (congrArg Multiset.card split).symm
      obtain rfl := List.length_eq_zero_iff.mp (Nat.eq_zero_of_add_eq_zero_right count)
      exact ⟨none, 0, .drained, split.trans (zero_add rest), nofun⟩
  | succ k ih =>
      have smaller : ∀ {a rest'}, q = a ::ₘ rest' → rest'.card = k := by
        intro a rest' content
        rw [content, Multiset.card_cons] at size
        exact Nat.succ.inj size
      have nonempty : q ≠ 0 := fun empty => by simp [empty] at size
      obtain ⟨event, behind, top⟩ := exists_top nonempty lt_iff
      cases isValid : valid event.uid.toUInt32 with
      | false =>
          have same : behind.filter (fun e => valid e.uid.toUInt32) = ↑events + rest := by
            rw [← split, top.content, Multiset.filter_cons_of_neg behind (by simp [isValid])]
          obtain ⟨wait, q', loop, left, reading⟩ :=
            ih events same ordered least expired (smaller top.content)
          exact ⟨wait, q', .cancelled top isValid loop, left, reading⟩
      | true =>
          have inside : event ∈ (↑events + rest : Multiset (TimerEvent τ)) := by
            rw [← split, Multiset.mem_filter, top.content]
            exact ⟨Multiset.mem_cons_self event behind, isValid⟩
          cases events with
          | nil =>
              have notYet : event.isNearExpired w = false := by
                rw [Bool.eq_false_iff, ne_eq, isNearExpired_iff, not_lt]
                exact waits event (by simpa using inside)
              refine ⟨some w, q, .unexpired top isValid notYet, ?_, fun r same => ?_⟩
              · simpa using split
              · exact (Option.some.inj same).symm
          | cons first others =>
              obtain ⟨ahead, ordered⟩ := List.pairwise_cons.mp ordered
              obtain ⟨firstLeast, least⟩ := List.forall_mem_cons.mp least
              obtain ⟨firstExpired, expired⟩ := List.forall_mem_cons.mp expired
              have listed : first ∈ q.filter (fun e => valid e.uid.toUInt32) := by
                rw [split]
                simp
              obtain ⟨member, isValid⟩ := Multiset.mem_filter.mp listed
              have early : first.deadline ≤ event.deadline := by
                cases Multiset.mem_add.mp inside with
                | inl listed =>
                    cases List.mem_cons.mp listed with
                    | inl same => rw [same]
                    | inr behind => exact ahead event behind
                | inr waiting => exact firstLeast event waiting
              obtain ⟨behind, top⟩ := exists_top_of_key_le member lt_iff fun b within =>
                early.trans (top.key_le lt_iff b within)
              have same : behind.filter (fun e => valid e.uid.toUInt32) = ↑others + rest := by
                rw [top.content, Multiset.filter_cons_of_pos behind isValid, ← Multiset.cons_coe,
                  Multiset.cons_add] at split
                exact (Multiset.cons_inj_right first).mp split
              obtain ⟨wait, q', loop, left, reading⟩ :=
                ih others same ordered least expired (smaller top.content)
              exact ⟨wait, q', .assign top isValid (isNearExpired_iff.mpr firstExpired) loop,
                left, reading⟩

/-- Valid events are dispatched or stay. -/
theorem Assigned.live_eq (done : Assigned valid q assigned wait q') :
    q.filter (fun e => valid e.uid.toUInt32) =
      ↑(assigned.map Prod.fst) + q'.filter (fun e => valid e.uid.toUInt32) := by
  obtain ⟨dropped, none, content⟩ := done.content
  have noneLeft : dropped.filter (fun e => valid e.uid.toUInt32) = 0 :=
    Multiset.filter_eq_nil.mpr fun e inside => by simp [none e inside]
  have allOf : (↑(assigned.map Prod.fst) : Multiset (TimerEvent τ)).filter
      (fun e => valid e.uid.toUInt32) = ↑(assigned.map Prod.fst) :=
    Multiset.filter_eq_self.mpr done.valid
  rw [content, Multiset.filter_add, Multiset.filter_add, noneLeft, allOf, add_zero]

theorem Assigned.le (done : Assigned valid q assigned wait q') : q' ≤ q := by
  obtain ⟨dropped, _, content⟩ := done.content
  rw [content]
  exact Multiset.le_add_left _ _

end Loop

/-! ### A call -/

section Call

variable {s s' : Timer τ} {c : Expiry τ}

theorem isValidUid_iff (sorted : s.validUid.Pairwise (· < ·)) {uid : UInt32} :
    s.isValidUid uid = true ↔ uid ∈ s.validUid :=
  binarySearch_iff_mem (sorted.imp Std.le_of_lt)

theorem live_eq (sorted : s.validUid.Pairwise (· < ·)) :
    s.live = s.eventQueue.filter fun e => e.uid.toUInt32 ∈ s.validUid :=
  Multiset.filter_congr fun _ _ => isValidUid_iff sorted

/-- A call runs the loop and then puts the dispatched loop events back. -/
theorem HandleExpiredEvents.loop (call : s.HandleExpiredEvents c s') :
    ∃ q, Assigned s.isValidUid s.eventQueue c.assigned c.wait q ∧
      s' = { s with eventQueue := q + c.rearmed } ∧
      c.rearm.length = c.poppedLoopEvents.length := by
  cases call with
  | empty empty =>
      refine ⟨0, ?_, ?_, rfl⟩
      · rw [empty]
        exact AssignExpired.drained.spec
      · rw [Expiry.rearmed]
        cases s
        cases empty
        rfl
  | handle _ loop length => exact ⟨_, loop.spec, rfl, length⟩

theorem map_uid_rearmed {events : List (TimerEvent τ)} {now : List ℚ}
    (length : now.length = events.length) :
    (List.zipWith TimerEvent.rearm events now).map TimerEvent.uid =
      events.map TimerEvent.uid := by
  induction events generalizing now with
  | nil => rfl
  | cons e events ih =>
      cases now with
      | nil => cases length
      | cons r now =>
          rw [List.zipWith_cons_cons, List.map_cons, List.map_cons, ih (Nat.succ.inj length),
            rearm_uid]

/-- A dispatched loop event is still valid when it is put back. -/
theorem valid_rearmed {q : Multiset (TimerEvent τ)}
    (done : Assigned s.isValidUid s.eventQueue c.assigned c.wait q)
    (length : c.rearm.length = c.poppedLoopEvents.length) :
    ∀ e ∈ c.rearmed, s.isValidUid e.uid.toUInt32 = true := by
  intro e inside
  have uid := List.mem_map_of_mem (f := TimerEvent.uid) inside
  rw [Expiry.rearmed, map_uid_rearmed length] at uid
  obtain ⟨origin, popped, same⟩ := List.mem_map.mp uid
  exact same ▸ done.valid origin (List.mem_of_mem_filter popped)

/-- After a call the events that are not cancelled are those left and those put back. -/
theorem live_after {q : Multiset (TimerEvent τ)}
    (done : Assigned s.isValidUid s.eventQueue c.assigned c.wait q)
    (length : c.rearm.length = c.poppedLoopEvents.length) :
    ({ s with eventQueue := q + c.rearmed } : Timer τ).live =
      q.filter (fun e => s.isValidUid e.uid.toUInt32) + c.rearmed := by
  have back : (↑c.rearmed : Multiset (TimerEvent τ)).filter
      (fun e => s.isValidUid e.uid.toUInt32) = ↑c.rearmed :=
    Multiset.filter_eq_self.mpr (valid_rearmed done length)
  change (q + ↑c.rearmed).filter (fun e => s.isValidUid e.uid.toUInt32) = _
  rw [Multiset.filter_add, back]

/-- A call comes to its end, whatever the clock shows. -/
theorem exists_handleExpiredEvents (s : Timer τ) (clock : ℕ → ℚ) :
    ∃ c s', s.HandleExpiredEvents c s' ∧ ∃ n, c.readings = (List.range n).map clock := by
  by_cases empty : s.eventQueue = 0
  · exact ⟨{}, s, .empty empty, 0, rfl⟩
  · obtain ⟨assigned, wait, q, loop, n, readings⟩ :=
      exists_assignExpired s.isValidUid s.eventQueue clock
    let m := (Expiry.poppedLoopEvents { assigned }).length
    let rearm := (List.range m).map fun i => clock (n + 1 + i)
    have length : rearm.length = m := by simp [rearm]
    refine ⟨{ assigned, wait, tNow := some (clock n), rearm }, _, .handle empty loop length, ?_⟩
    refine ⟨n + 1 + m, ?_⟩
    rw [Expiry.readings, readings, List.range_add, List.range_succ]
    simp [rearm, Function.comp_def]

end Call

/-- A loop event set at time 0. -/
def loopEvent : TimerEvent Unit := ⟨true, 0, 1, 0, ()⟩

def oneLoopEvent : Timer Unit := ⟨{loopEvent}, [0], 1⟩

/-- The only event is valid and alone on top. -/
theorem loopEvent_top : Top loopEvent {loopEvent} 0 := ⟨rfl, by simp⟩

theorem loopEvent_valid : oneLoopEvent.isValidUid loopEvent.uid.toUInt32 = true :=
  (isValidUid_iff (List.pairwise_singleton _ _)).mpr (by decide)

end Timer

end Lra
