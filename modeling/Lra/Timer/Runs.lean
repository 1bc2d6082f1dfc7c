import Lra.Effect.Transition
import Lra.Timer.Expire

/-!
# Runs of the timer

A run is any sequence of operations. A uid is issued once as long as fewer than 2^32
events are created, and each uid in the vector was issued.
-/

namespace Lra

open Effect Search TimerEvent

variable {τ : Type}

/-- An operation, with its answer and what the clock showed. `start` and `stop` are times
between which a call of `HandleExpiredEvents` reads the clock. -/
inductive TimerAct (τ : Type) where
  | setEvent (task : τ) (durationMs now : ℚ)
  | setLoopEvent (task : τ) (periodMs now : ℚ)
  | cancelEvent (uid : UInt32) (ret : Bool)
  | handleExpiredEvents (start stop : ℚ) (c : Expiry τ)

inductive TimerStep : Timer τ → TimerAct τ → Timer τ → Prop where
  | setEvent {s} (task durationMs now) :
      TimerStep s (.setEvent task durationMs now) (s.setEvent task durationMs now).2
  | setLoopEvent {s} (task periodMs now) :
      TimerStep s (.setLoopEvent task periodMs now) (s.setLoopEvent task periodMs now).2
  | cancelEvent {s} (uid) :
      TimerStep s (.cancelEvent uid (s.cancelEvent uid).1) (s.cancelEvent uid).2
  | handleExpiredEvents {s s' start stop c} : start ≤ stop →
      (∀ now ∈ c.readings, start ≤ now ∧ now ≤ stop) → s.HandleExpiredEvents c s' →
      TimerStep s (.handleExpiredEvents start stop c) s'

/-- Does the operation create an event? -/
def TimerAct.creates : TimerAct τ → Bool
  | .setEvent _ _ _ | .setLoopEvent _ _ _ => true
  | _ => false

namespace Timer

/-- The number of events created in a run. -/
def created (h : List (TimerAct τ × Timer τ)) : Nat := h.countP (·.1.creates)

/-- The uid to be issued is not the last one. -/
def HasUid (s : Timer τ) (l : TimerAct τ) : Prop :=
  l.creates = true → s.uidForNextEvent.toNat + 1 < 2 ^ 32

theorem hasUid_of_quiet {s : Timer τ} {l : TimerAct τ} (quiet : l.creates = false) :
    HasUid s l := fun creates => nomatch quiet.symm.trans creates

/-- The uids of the events in the queue. -/
def uids (s : Timer τ) : Multiset UInt32 := s.eventQueue.map (·.uid.toUInt32)

/-- `e` was created and is in the queue. -/
def issue (s : Timer τ) (e : TimerEvent τ) : Timer τ where
  eventQueue := e ::ₘ s.eventQueue
  validUid := s.validUid ++ [s.uidForNextEvent]
  uidForNextEvent := s.uidForNextEvent + 1

theorem setEvent_eq (s : Timer τ) (task : τ) (durationMs now : ℚ) :
    (s.setEvent task durationMs now).2 =
      s.issue ⟨false, s.uidForNextEvent.toInt32, durationMs, now, task⟩ := rfl

theorem setLoopEvent_eq (s : Timer τ) (task : τ) (periodMs now : ℚ) :
    (s.setLoopEvent task periodMs now).2 =
      s.issue ⟨true, s.uidForNextEvent.toInt32, periodMs, now, task⟩ := rfl

theorem uids_issue (s : Timer τ) (e : TimerEvent τ) :
    (s.issue e).uids = e.uid.toUInt32 ::ₘ s.uids := Multiset.map_cons _ _ _

structure Inv (s : Timer τ) : Prop where
  sorted : s.validUid.Pairwise (· < ·)
  valid_lt : ∀ uid ∈ s.validUid, uid < s.uidForNextEvent
  issued : ∀ uid ∈ s.uids, uid < s.uidForNextEvent
  distinct : s.uids.Nodup

theorem inv_initial : Inv ({} : Timer τ) where
  sorted := .nil
  valid_lt := nofun
  issued _ inside := absurd inside (Multiset.notMem_zero _)
  distinct := Multiset.nodup_zero

section Steps

variable {s s' : Timer τ} {l : TimerAct τ} {c : Expiry τ}

/-- Only the queue changes: it keeps the events left and the dispatched loop events. -/
theorem HandleExpiredEvents.uids (call : s.HandleExpiredEvents c s') :
    ∃ q, Assigned s.isValidUid s.eventQueue c.assigned c.wait q ∧
      s'.validUid = s.validUid ∧ s'.uidForNextEvent = s.uidForNextEvent ∧
      s'.uids = (q + ↑c.poppedLoopEvents).map fun e => e.uid.toUInt32 := by
  obtain ⟨q, done, rfl, length⟩ := call.loop
  refine ⟨q, done, rfl, rfl, ?_⟩
  have back : (c.rearmed.map fun e => e.uid.toUInt32) =
      c.poppedLoopEvents.map fun e => e.uid.toUInt32 := by
    have uids := congrArg (List.map Int32.toUInt32) (map_uid_rearmed length)
    rwa [List.map_map, List.map_map] at uids
  change (q + ↑c.rearmed).map (fun e => e.uid.toUInt32) = _
  rw [Multiset.map_add, Multiset.map_add, Multiset.map_coe, Multiset.map_coe, back]

theorem HandleExpiredEvents.keeps (call : s.HandleExpiredEvents c s') :
    s'.validUid = s.validUid ∧ s'.uidForNextEvent = s.uidForNextEvent ∧ s'.uids ≤ s.uids := by
  obtain ⟨q, done, valid, next, uids⟩ := call.uids
  obtain ⟨dropped, _, content⟩ := done.content
  refine ⟨valid, next, ?_⟩
  have popped : (↑c.poppedLoopEvents : Multiset (TimerEvent τ)) ≤ ↑c.events :=
    Multiset.coe_le.mpr (List.filter_sublist).subperm
  rw [uids, Timer.uids, content]
  apply Multiset.map_le_map
  rw [add_comm, add_assoc]
  exact add_le_add popped (Multiset.le_add_left q dropped)

theorem cancelEvent_cases (s : Timer τ) (uid : UInt32) :
    (s.cancelEvent uid = (false, s) ∧ (uid < s.uidForNextEvent → uid ∉ s.validUid)) ∨
      (uid ∈ s.validUid ∧ uid < s.uidForNextEvent ∧
        s.cancelEvent uid = (true, { s with validUid := s.validUid.erase uid })) := by
  unfold cancelEvent removeUid
  split
  · next beyond => exact .inl ⟨rfl, fun below => absurd beyond (UInt32.not_le.mpr below)⟩
  · next below =>
      split
      · next inside => exact .inr ⟨inside, UInt32.not_le.mp below, rfl⟩
      · next outside => exact .inl ⟨rfl, fun _ => outside⟩

/-- What any operation makes of the vector and of the uids in the queue. -/
theorem step_cases (step : TimerStep s l s') :
    (∃ e : TimerEvent τ, l.creates = true ∧ e.uid.toUInt32 = s.uidForNextEvent ∧
      s' = s.issue e) ∨
    (∃ uid, uid ∈ s.validUid ∧ l = .cancelEvent uid true ∧
      s' = { s with validUid := s.validUid.erase uid }) ∨
    (l.creates = false ∧ (∀ uid, l ≠ .cancelEvent uid true) ∧ s'.validUid = s.validUid ∧
      s'.uidForNextEvent = s.uidForNextEvent ∧ s'.uids ≤ s.uids) := by
  cases step with
  | setEvent task durationMs now =>
      exact .inl ⟨_, rfl, UInt32.toUInt32_toInt32 _, setEvent_eq s task durationMs now⟩
  | setLoopEvent task periodMs now =>
      exact .inl ⟨_, rfl, UInt32.toUInt32_toInt32 _, setLoopEvent_eq s task periodMs now⟩
  | cancelEvent uid =>
      cases cancelEvent_cases s uid with
      | inl refused =>
          rw [refused.1]
          exact .inr (.inr ⟨rfl, nofun, rfl, rfl, le_refl _⟩)
      | inr removed =>
          obtain ⟨inside, _, answer⟩ := removed
          rw [answer]
          exact .inr (.inl ⟨uid, inside, rfl, rfl⟩)
  | handleExpiredEvents _ _ call => exact .inr (.inr ⟨rfl, nofun, call.keeps⟩)

theorem lt_add_one {uid : UInt32} (fits : uid.toNat + 1 < 2 ^ 32) : uid < uid + 1 := by
  rw [UInt32.lt_iff_toNat_lt, UInt32.toNat_add]
  have one : (1 : UInt32).toNat = 1 := rfl
  omega

theorem Inv.issue {e : TimerEvent τ} (inv : Inv s) (uid : e.uid.toUInt32 = s.uidForNextEvent)
    (fits : s.uidForNextEvent.toNat + 1 < 2 ^ 32) : Inv (s.issue e) := by
  have above := lt_add_one fits
  have fresh : s.uidForNextEvent ∉ s.uids := fun old => UInt32.lt_irrefl _ (inv.issued _ old)
  refine ⟨?_, ?_, ?_, ?_⟩
  · refine List.pairwise_append.mpr ⟨inv.sorted, List.pairwise_singleton _ _, ?_⟩
    intro a old b new
    rw [List.mem_singleton.mp new]
    exact inv.valid_lt a old
  · intro a inside
    cases List.mem_append.mp inside with
    | inl old => exact UInt32.lt_trans (inv.valid_lt a old) above
    | inr new => exact List.mem_singleton.mp new ▸ above
  · rw [uids_issue, uid]
    exact Multiset.forall_mem_cons.mpr
      ⟨above, fun a old => UInt32.lt_trans (inv.issued a old) above⟩
  · rw [uids_issue, uid]
    exact Multiset.nodup_cons.mpr ⟨fresh, inv.distinct⟩

theorem Inv.step (inv : Inv s) (step : Restrict TimerStep HasUid s l s') : Inv s' := by
  obtain ⟨fits, step⟩ := step
  obtain ⟨e, creates, uid, rfl⟩ | ⟨uid, inside, -, rfl⟩ | ⟨-, -, valid, next, uids⟩ :=
    step_cases step
  · exact inv.issue uid (fits creates)
  · refine ⟨inv.sorted.sublist List.erase_sublist, fun a kept => ?_, inv.issued, inv.distinct⟩
    exact inv.valid_lt a (List.mem_of_mem_erase kept)
  · refine ⟨valid ▸ inv.sorted, ?_, ?_, Multiset.nodup_of_le uids inv.distinct⟩
    · rw [valid, next]
      exact inv.valid_lt
    · rw [next]
      exact fun a inside => inv.issued a (Multiset.mem_of_le uids inside)

end Steps

/-! ### Whole runs -/

section Whole

variable {s t : Timer τ} {h : List (TimerAct τ × Timer τ)}

theorem created_cons (l : TimerAct τ) (u : Timer τ) (h : List (TimerAct τ × Timer τ)) :
    created ((l, u) :: h) = created h + if l.creates then 1 else 0 := by
  rw [created, List.countP_cons]
  rfl

/-- The next uid counts the events created, as long as it has not wrapped around. -/
theorem uidForNextEvent_of_run (run : Run TimerStep s h t)
    (few : s.uidForNextEvent.toNat + created h < 2 ^ 32) :
    t.uidForNextEvent.toNat = s.uidForNextEvent.toNat + created h ∧
      Run (Restrict TimerStep HasUid) s h t := by
  induction run with
  | nil => exact ⟨rfl, .nil⟩
  | @step h t l u earlier last ih =>
      rw [created_cons] at few ⊢
      obtain ⟨next, run⟩ := ih (by omega)
      have fits : HasUid t l := by
        intro creates
        rw [if_pos creates] at few
        omega
      refine ⟨?_, run.step ⟨fits, last⟩⟩
      obtain ⟨e, creates, -, rfl⟩ | ⟨uid, -, rfl, rfl⟩ | ⟨quiet, -, -, same, -⟩ := step_cases last
      · have one : (1 : UInt32).toNat = 1 := rfl
        rw [if_pos creates] at few ⊢
        change (t.uidForNextEvent + 1).toNat = _
        rw [UInt32.toNat_add]
        omega
      · exact next
      · rw [same, next, quiet]
        rfl

/-- With fewer than 2^32 events every uid is issued once. -/
theorem restrict_of_run (run : Run TimerStep {} h t) (few : created h < 2 ^ 32) :
    Run (Restrict TimerStep HasUid) {} h t :=
  (uidForNextEvent_of_run run (by simpa using few)).2

theorem inv_of_run (run : Run (Restrict TimerStep HasUid) {} h t) : Inv t :=
  run.invariant inv_initial fun inv step => inv.step step

end Whole

end Timer

end Lra
