import Lra.Timer.Cancel

/-!
# What the vector of valid uids keeps

A cancellation removes its uid from the vector, and a dispatched loop event stays in the
queue. A dispatched one-shot event leaves the queue while its uid stays in the vector: it
can still be cancelled, with success, and it is never removed otherwise.
-/

namespace Lra

open Effect Search TimerEvent

variable {τ : Type}

/-- The readings of the tests. -/
def Expiry.tests (c : Expiry τ) : List ℚ := c.assigned.map Prod.snd ++ c.wait.toList

/-- No valid one-shot event is found expired. -/
def TimerAct.Quiet (s : Timer τ) : TimerAct τ → Prop
  | .handleExpiredEvents _ _ c =>
    ∀ e ∈ s.eventQueue, e.uid.toUInt32 ∈ s.validUid → e.isLoopEvent = false →
      ∀ now ∈ c.tests, now ≤ e.t + e.periodMs + 1 / 100
  | _ => True

/-- The clock does not go back during a call. -/
def TimerAct.Steady : TimerAct τ → Prop
  | .handleExpiredEvents _ _ c => c.readings.Pairwise (· ≤ ·)
  | _ => True

namespace Timer

/-- A cancellation of `uid` returned `true`. -/
def Cancelled (uid : UInt32) (h : List (TimerAct τ × Timer τ)) : Prop :=
  ∃ u, (.cancelEvent uid true, u) ∈ h

/-- What `valid_uid_` is for, at the end of the run `h` of a new timer. -/
structure Tracks (h : List (TimerAct τ × Timer τ)) : Prop where
  exact : ∀ uid, uid ∈ (stateAfter {} h).validUid ↔
    (∃ e ∈ (stateAfter {} h).eventQueue, e.uid.toUInt32 = uid) ∧ ¬ Cancelled uid h
  size : (stateAfter {} h).validUid.length ≤ (stateAfter {} h).eventQueue.card
  /-- A cancellation that would succeed would prevent a dispatch. -/
  prevents : ∀ uid, ((stateAfter {} h).cancelEvent uid).1 = true →
    ∃ c s, (stateAfter {} h).HandleExpiredEvents c s ∧ ∃ e ∈ c.events, e.uid.toUInt32 = uid

/-- Each valid uid has an event in the queue. -/
def Backed (s : Timer τ) : Prop := ∀ uid ∈ s.validUid, uid ∈ s.uids

section Steps

variable {s t : Timer τ} {c : Expiry τ} {l : TimerAct τ} {h : List (TimerAct τ × Timer τ)}

/-- Late enough, any valid event is dispatched. -/
theorem exists_dispatch {e : TimerEvent τ} (inside : e ∈ s.live) :
    ∃ c t, s.HandleExpiredEvents c t ∧ e ∈ c.events := by
  have nonempty : s.eventQueue ≠ 0 := fun empty => by simp [live, empty] at inside
  obtain ⟨last, _, largest⟩ := exists_least nonempty fun b => -b.threshold
  obtain ⟨c, t, call, n, readings⟩ := exists_handleExpiredEvents s fun _ => last.threshold + 1
  obtain ⟨q, done, _⟩ := call.loop
  have none : ∀ b, b ∉ q := by
    intro b waiting
    have early : b.threshold < last.threshold + 1 := by
      have le := largest b (Multiset.mem_of_le done.le waiting)
      linarith
    cases wait : c.wait with
    | none =>
        rw [done.drained wait] at waiting
        exact absurd waiting (Multiset.notMem_zero b)
    | some now =>
        have read : now ∈ c.readings := by simp [Expiry.readings, wait]
        rw [readings] at read
        obtain ⟨_, _, rfl⟩ := List.mem_map.mp read
        exact absurd (done.waits _ wait b waiting) (not_le_of_gt early)
  have all : s.live = ↑c.events + q.filter fun e => s.isValidUid e.uid.toUInt32 := done.live_eq
  rw [Multiset.eq_zero_of_forall_notMem none, Multiset.filter_zero, add_zero] at all
  exact ⟨c, t, call, Multiset.mem_coe.mp (all ▸ inside)⟩

/-- Where nothing goes back, a valid event that is found expired is dispatched. -/
theorem dispatched_of_expired (call : s.HandleExpiredEvents c t)
    (steady : c.readings.Pairwise (· ≤ ·)) {e : TimerEvent τ} (inside : e ∈ s.live) {now : ℚ}
    (tested : now ∈ c.tests) (expired : e.threshold < now) : e ∈ c.events := by
  obtain ⟨q, done, _⟩ := call.loop
  have all : s.live = ↑c.events + q.filter fun e => s.isValidUid e.uid.toUInt32 := done.live_eq
  rw [all, Multiset.mem_add] at inside
  refine inside.resolve_right fun left => ?_
  have waiting : e ∈ q := Multiset.mem_of_mem_filter left
  cases wait : c.wait with
  | none =>
      rw [done.drained wait] at waiting
      exact Multiset.notMem_zero e waiting
  | some last =>
      have le : now ≤ last := by
        rw [Expiry.tests, wait, List.mem_append] at tested
        cases tested with
        | inl test =>
            rw [Expiry.readings, wait, List.append_assoc] at steady
            have front := (List.pairwise_append.mp (List.pairwise_append.mp steady).1).2.2
            exact front now test last (by simp)
        | inr same => exact le_of_eq (List.mem_singleton.mp same)
      exact absurd (done.waits last wait e waiting) (not_le_of_gt (expired.trans_le le))

theorem Backed.issue {e : TimerEvent τ} (backed : Backed s)
    (new : e.uid.toUInt32 = s.uidForNextEvent) : Backed (s.issue e) := by
  intro uid inside
  rw [uids_issue, Multiset.mem_cons, new]
  cases List.mem_append.mp inside with
  | inl old => exact .inr (backed uid old)
  | inr new => exact .inl (List.mem_singleton.mp new)

theorem mem_live (inv : Inv s) {e : TimerEvent τ} :
    e ∈ s.live ↔ e ∈ s.eventQueue ∧ e.uid.toUInt32 ∈ s.validUid := by
  rw [live_eq inv.sorted, Multiset.mem_filter]

/-- A quiet call keeps what it dispatches. -/
theorem Backed.handle (inv : Inv s) (backed : Backed s) (call : s.HandleExpiredEvents c t)
    {start stop : ℚ} (quiet : (TimerAct.handleExpiredEvents start stop c).Quiet s) :
    Backed t := by
  intro uid valid
  obtain ⟨q, done, same, _, uids⟩ := call.uids
  rw [same] at valid
  obtain ⟨e, inside, rfl⟩ := Multiset.mem_map.mp (backed uid valid)
  have split : s.live = ↑c.events + q.filter fun e => s.isValidUid e.uid.toUInt32 := done.live_eq
  have live := (mem_live inv).mpr ⟨inside, valid⟩
  rw [split, Multiset.mem_add] at live
  rw [uids]
  refine Multiset.mem_map_of_mem _ (Multiset.mem_add.mpr ?_)
  cases live with
  | inr left => exact .inl (Multiset.mem_of_mem_filter left)
  | inl dispatched =>
      refine .inr (List.mem_filter.mpr ⟨dispatched, Bool.not_eq_false _ |>.mp fun once => ?_⟩)
      obtain ⟨x, assigned, rfl⟩ := List.mem_map.mp dispatched
      have tested : x.2 ∈ c.tests := List.mem_append_left _ (List.mem_map_of_mem assigned)
      exact absurd (done.expired x assigned) (not_lt_of_ge (quiet x.1 inside valid once x.2 tested))

/-- The uid of a dispatched one-shot event has lost its event. -/
theorem not_backed (inv : Inv s) (call : s.HandleExpiredEvents c t) {e : TimerEvent τ}
    (valid : e.uid.toUInt32 ∈ s.validUid) (dispatched : e ∈ c.events)
    (once : e.isLoopEvent = false) : ¬ Backed t := by
  intro backed
  obtain ⟨q, done, same, _, uids⟩ := call.uids
  obtain ⟨dropped, _, content⟩ := done.content
  have apart : e ∉ (↑c.poppedLoopEvents : Multiset (TimerEvent τ)) := fun popped => by
    have loops := (List.mem_filter.mp (Multiset.mem_coe.mp popped)).2
    exact absurd loops (by simp [once])
  have gone : e ::ₘ ↑c.poppedLoopEvents ≤ (↑c.events : Multiset (TimerEvent τ)) :=
    (Multiset.cons_le_of_notMem apart).mpr ⟨dispatched,
      Multiset.coe_le.mpr (List.filter_sublist).subperm⟩
  have within : e ::ₘ (q + ↑c.poppedLoopEvents) ≤ s.eventQueue := by
    rw [content, add_comm q, ← Multiset.cons_add, add_assoc]
    exact add_le_add gone (Multiset.le_add_left q dropped)
  have distinct := Multiset.nodup_of_le (Multiset.map_le_map within) inv.distinct
  rw [Multiset.map_cons, ← uids] at distinct
  exact (Multiset.nodup_cons.mp distinct).1 (backed _ (same.symm ▸ valid))

theorem Backed.step (inv : Inv s) (backed : Backed s) (step : TimerStep s l t)
    (quiet : l.Quiet s) : Backed t := by
  cases step with
  | setEvent task durationMs now => exact backed.issue (UInt32.toUInt32_toInt32 _)
  | setLoopEvent task periodMs now => exact backed.issue (UInt32.toUInt32_toInt32 _)
  | cancelEvent uid =>
      obtain ⟨_, valid, _, queue⟩ := cancelEvent_spec inv uid
      intro v inside
      rw [uids, queue]
      exact backed v ((valid v).mp inside).2
  | handleExpiredEvents _ _ call => exact backed.handle inv call quiet

end Steps

section Runs

variable {t : Timer τ} {h : List (TimerAct τ × Timer τ)}

theorem cancelled_cons {l : TimerAct τ} {u : Timer τ} {uid : UInt32}
    (other : ∀ v, l ≠ .cancelEvent v true) : Cancelled uid ((l, u) :: h) ↔ Cancelled uid h := by
  constructor
  · rintro ⟨v, inside⟩
    cases List.mem_cons.mp inside with
    | inl here => exact absurd (Prod.ext_iff.mp here).1.symm (other uid)
    | inr older => exact ⟨v, older⟩
  · exact fun ⟨v, older⟩ => ⟨v, List.mem_cons_of_mem _ older⟩

/-- A cancelled uid is gone, and an event whose uid is not valid was cancelled. -/
theorem known_of_run (run : Run (Restrict TimerStep HasUid) {} h t) :
    (∀ uid, Cancelled uid h → Gone uid t) ∧
      ∀ uid ∈ t.uids, uid ∈ t.validUid ∨ Cancelled uid h := by
  induction run with
  | nil =>
      constructor
      · rintro uid ⟨u, inside⟩
        cases inside
      · exact fun uid inside => absurd inside (Multiset.notMem_zero uid)
  | @step h t l u earlier last ih =>
      obtain ⟨gone, known⟩ := ih
      have goneAfter : ∀ uid, Cancelled uid h → Gone uid u := fun uid before =>
        (gone uid before).step last
      obtain ⟨e, creates, new, rfl⟩ | ⟨v, inside, rfl, rfl⟩ | ⟨-, other, valid, -, uids⟩ :=
        step_cases last.2
      · have other : ∀ v, l ≠ .cancelEvent v true := by
          rintro v rfl
          cases creates
        simp only [cancelled_cons other]
        refine ⟨goneAfter, fun uid within => ?_⟩
        rw [uids_issue, Multiset.mem_cons, new] at within
        cases within with
        | inl same => exact .inl (List.mem_append_right _ (List.mem_singleton.mpr same))
        | inr old => exact (known uid old).imp_left (List.mem_append_left _)
      · have inv := inv_of_run earlier
        have nodup : t.validUid.Nodup := inv.sorted.imp UInt32.ne_of_lt
        refine ⟨fun uid => ?_, fun uid within => ?_⟩
        · rintro ⟨w, cancelled⟩
          cases List.mem_cons.mp cancelled with
          | inl here =>
              cases here
              exact ⟨fun left => (nodup.mem_erase_iff.mp left).1 rfl, inv.valid_lt _ inside⟩
          | inr older => exact goneAfter uid ⟨w, older⟩
        · by_cases same : uid = v
          · subst same
            exact .inr ⟨_, List.mem_cons_self⟩
          · refine (known uid within).imp (fun valid => ?_) fun ⟨w, older⟩ =>
              ⟨w, List.mem_cons_of_mem _ older⟩
            exact nodup.mem_erase_iff.mpr ⟨same, valid⟩
      · simp only [cancelled_cons other]
        refine ⟨goneAfter, fun uid within => ?_⟩
        rw [valid]
        exact known uid (Multiset.mem_of_le uids within)

theorem Backed.tracks (run : Run (Restrict TimerStep HasUid) {} h t) (backed : Backed t) :
    Tracks h := by
  obtain ⟨gone, known⟩ := known_of_run run
  have inv := inv_of_run run
  have after : stateAfter {} h = t := run.stateAfter_eq
  refine ⟨fun uid => ?_, ?_, fun uid answer => ?_⟩
  · rw [after]
    constructor
    · intro valid
      exact ⟨Multiset.mem_map.mp (backed uid valid), fun cancelled => (gone uid cancelled).1 valid⟩
    · rintro ⟨scheduled, kept⟩
      exact (known uid (Multiset.mem_map.mpr scheduled)).resolve_right kept
  · have nodup : (↑t.validUid : Multiset UInt32).Nodup := inv.sorted.imp UInt32.ne_of_lt
    have within : (↑t.validUid : Multiset UInt32) ≤ t.uids :=
      (Multiset.le_iff_subset nodup).mpr fun uid valid => backed uid valid
    have count := Multiset.card_le_card within
    rw [Timer.uids, Multiset.card_map] at count
    rw [after]
    exact count
  · rw [after] at answer ⊢
    have valid := (cancelEvent_spec inv uid).1.mp answer
    obtain ⟨e, inside, rfl⟩ := Multiset.mem_map.mp (backed uid valid)
    obtain ⟨c, s, call, dispatched⟩ := exists_dispatch ((mem_live inv).mpr ⟨inside, valid⟩)
    exact ⟨c, s, call, e, dispatched, rfl⟩

theorem Tracks.backed (tracks : Tracks h) : Backed (stateAfter {} h) :=
  fun uid valid => Multiset.mem_map.mpr ((tracks.exact uid).mp valid).1

/-- If no call finds a valid one-shot event expired, the vector is at every moment what it
is for; with a clock that does not go back, only then. -/
theorem tracks_iff_quiet (run : Run TimerStep {} h t) (few : created h < 2 ^ 32) :
    ((∀ l u h', (l, u) :: h' <:+ h → l.Quiet (stateAfter {} h')) → ∀ h', h' <:+ h → Tracks h') ∧
    ((∀ l u h', (l, u) :: h' <:+ h → l.Steady) → (∀ h', h' <:+ h → Tracks h') →
      ∀ l u h', (l, u) :: h' <:+ h → l.Quiet (stateAfter {} h')) := by
  have run := restrict_of_run run few
  constructor
  · intro quiet h' suffix
    have quietRun : Run (Restrict (Restrict TimerStep HasUid) fun s l => l.Quiet s) {} h' _ :=
      (run.restrict quiet).prefix_run suffix
    have kept : Inv (stateAfter {} h') ∧ Backed (stateAfter {} h') := by
      refine quietRun.invariant (P := fun s => Inv s ∧ Backed s) ⟨inv_initial, nofun⟩ ?_
      rintro s l t ⟨inv, backed⟩ ⟨quiet, fits, step⟩
      exact ⟨inv.step ⟨fits, step⟩, backed.step inv step quiet⟩
    exact kept.2.tracks (run.prefix_run suffix)
  · intro steady tracks l u h' suffix
    cases run.prefix_run suffix with
    | step earlier last =>
        rw [earlier.stateAfter_eq]
        have inv := inv_of_run earlier
        have backed := (tracks _ suffix).backed
        cases last.2 with
        | handleExpiredEvents _ _ call =>
            intro e inside valid once now tested
            refine le_of_not_gt fun expired => ?_
            have live := (mem_live inv).mpr ⟨inside, valid⟩
            have dispatched := dispatched_of_expired call (steady _ _ _ suffix) live tested expired
            exact not_backed inv call valid dispatched once backed
        | _ => trivial

end Runs

/-- A loop event is created and dispatched. -/
theorem tracks_iff_quiet_loopEvent :
    ∃ (c : Expiry Unit) (s : Timer Unit),
      TimerStep {} (.setLoopEvent () 1 0) oneLoopEvent ∧
      TimerStep oneLoopEvent (.handleExpiredEvents 2 4 c) s ∧ c.events = [loopEvent] ∧
      Tracks [(.handleExpiredEvents 2 4 c, s), (.setLoopEvent () 1 0, oneLoopEvent)] := by
  have create : TimerStep {} (.setLoopEvent () 1 0) oneLoopEvent := .setLoopEvent () 1 0
  have expired : loopEvent.isNearExpired 2 = true := by decide +kernel
  have loop := AssignExpired.assign loopEvent_top loopEvent_valid expired .drained
  have call : oneLoopEvent.HandleExpiredEvents ⟨[(loopEvent, 2)], none, some 3, [4]⟩ _ :=
    .handle (Multiset.singleton_ne_zero _) loop rfl
  have handle : TimerStep oneLoopEvent (.handleExpiredEvents 2 4 _) _ :=
    .handleExpiredEvents (by decide +kernel) (by decide +kernel) call
  have run := (Run.nil.step create).step handle
  refine ⟨_, _, create, handle, rfl, (tracks_iff_quiet run (by decide)).1 ?_ _ List.suffix_rfl⟩
  refine forall_steps_cons.mpr ⟨?_, forall_steps_cons.mpr ⟨trivial, forall_steps_nil⟩⟩
  intro e inside _ once
  obtain rfl := Multiset.mem_singleton.mp inside
  cases once

/-- After a one-shot event was dispatched its uid is still valid, and it is cancelled with
success. -/
theorem cancel_dispatched_shot :
    ∃ (c : Expiry Unit) (s : Timer Unit), TimerStep {} (.setEvent () 1 0) oneShot ∧
      TimerStep oneShot (.handleExpiredEvents 2 3 c) s ∧ c.events = [shot] ∧
      s.eventQueue = 0 ∧ s.validUid = [0] ∧ (s.cancelEvent 0).1 = true ∧
      ¬ Tracks [(.handleExpiredEvents 2 3 c, s), (.setEvent () 1 0, oneShot)] := by
  have valid : oneShot.isValidUid shot.uid.toUInt32 = true :=
    (isValidUid_iff (List.pairwise_singleton _ _)).mpr (by decide)
  have expired : shot.isNearExpired 2 = true := by decide +kernel
  have loop := AssignExpired.assign shot_top valid expired .drained
  have call : oneShot.HandleExpiredEvents ⟨[(shot, 2)], none, some 3, []⟩ _ :=
    .handle (Multiset.singleton_ne_zero _) loop rfl
  have handle : TimerStep oneShot (.handleExpiredEvents 2 3 _) _ :=
    .handleExpiredEvents (by decide +kernel) (by decide +kernel) call
  refine ⟨_, _, create_shot, handle, rfl, rfl, rfl, rfl, fun tracks => ?_⟩
  obtain ⟨e, inside, _⟩ := ((tracks.exact 0).mp (List.mem_singleton.mpr rfl)).1
  exact absurd inside (Multiset.notMem_zero e)

end Timer

end Lra
