import Lra.Timer.Runs
import Mathlib.Data.Multiset.Basic

/-!
# What a cancellation changes

A cancelled uid is never valid again, so none of its events is dispatched. All else goes
on as if it had not been cancelled: a timer in which the uid is valid and one in which it
is not can match each other's steps and dispatch the same other events.
-/

namespace Lra

open Effect Search TimerEvent

variable {τ : Type}

/-- Does the event have another uid? -/
def TimerEvent.other (uid : UInt32) (e : TimerEvent τ) : Bool := e.uid.toUInt32 != uid

@[simp] theorem TimerEvent.other_rearm (uid : UInt32) (e : TimerEvent τ) (now : ℚ) :
    (e.rearm now).other uid = e.other uid := rfl

/-- The dispatched events of other uids. -/
def Expiry.others (uid : UInt32) (c : Expiry τ) : List (TimerEvent τ) :=
  c.events.filter (·.other uid)

/-- The same operation, with the same answer and dispatching the same events as far as other
uids are concerned. -/
inductive TimerAct.Matches (uid : UInt32) : TimerAct τ → TimerAct τ → Prop where
  | setEvent (task durationMs now) :
      Matches uid (.setEvent task durationMs now) (.setEvent task durationMs now)
  | setLoopEvent (task periodMs now) :
      Matches uid (.setLoopEvent task periodMs now) (.setLoopEvent task periodMs now)
  | cancelEvent {uid' ret ret'} : (uid' ≠ uid → ret = ret') →
      Matches uid (.cancelEvent uid' ret) (.cancelEvent uid' ret')
  | handleExpiredEvents {start stop c c'} : c.others uid = c'.others uid →
      (c.readings.Pairwise (· ≤ ·) → c'.readings.Pairwise (· ≤ ·)) →
      Matches uid (.handleExpiredEvents start stop c) (.handleExpiredEvents start stop c')

namespace Timer

/-- The events of other uids. -/
def others (uid : UInt32) (q : Multiset (TimerEvent τ)) : Multiset (TimerEvent τ) :=
  q.filter fun e => e.other uid

/-! ### Merging and putting back -/

/-- A sorted list and others are sorted together, keeping the order of the first. -/
theorem exists_merge {α : Type} {p : α → Bool} (key : α → ℚ) {first more : List α}
    (ordered : first.Pairwise fun a b => key a ≤ key b) (inside : ∀ a ∈ first, p a = true)
    (outside : ∀ a ∈ more, p a = false) :
    ∃ merged : List α, merged.Perm (first ++ more) ∧
      merged.Pairwise (fun a b => key a ≤ key b) ∧ merged.filter p = first := by
  have trans : ∀ a b c : α, decide (key a ≤ key b) → decide (key b ≤ key c) →
      decide (key a ≤ key c) := fun a b c hab hbc =>
    decide_eq_true ((of_decide_eq_true hab).trans (of_decide_eq_true hbc))
  have total : ∀ a b : α, decide (key a ≤ key b) || decide (key b ≤ key a) := fun a b => by
    simpa using le_total (key a) (key b)
  refine ⟨(first ++ more).mergeSort fun a b => decide (key a ≤ key b),
    List.mergeSort_perm _ _, ?_, ?_⟩
  · exact (List.pairwise_mergeSort trans total _).imp of_decide_eq_true
  · have kept : (first ++ more).filter p = first := by
      rw [List.filter_append, List.filter_eq_self.mpr inside,
        List.filter_eq_nil_iff.mpr fun a within => by simp [outside a within], List.append_nil]
    have sub := (List.sublist_mergeSort trans total (ordered.imp decide_eq_true)
      (List.sublist_append_left first more)).filter p
    rw [List.filter_eq_self.mpr inside] at sub
    have size := ((List.mergeSort_perm (first ++ more) fun a b => decide (key a ≤ key b)).filter
      p).length_eq
    rw [kept] at size
    exact (sub.eq_of_length size.symm).symm

section Rearm

variable {p : TimerEvent τ → Bool} {events merged : List (TimerEvent τ)} {readings : List ℚ}

/-- The readings with which the events of a kind are put back. -/
theorem exists_rearm_filter (kind : ∀ (e : TimerEvent τ) now, p (e.rearm now) = p e)
    (length : readings.length = events.length) :
    ∃ part : List ℚ, part.Sublist readings ∧ part.length = (events.filter p).length ∧
      List.zipWith TimerEvent.rearm (events.filter p) part =
        (List.zipWith TimerEvent.rearm events readings).filter p := by
  induction events generalizing readings with
  | nil => exact ⟨[], List.nil_sublist _, rfl, rfl⟩
  | cons e events ih =>
      cases readings with
      | nil => cases length
      | cons r readings =>
          obtain ⟨part, sub, size, same⟩ := ih (Nat.succ.inj length)
          cases own : p e with
          | true =>
              refine ⟨r :: part, sub.cons_cons r, ?_, ?_⟩
              · rw [List.filter_cons_of_pos own, List.length_cons, List.length_cons, size]
              · rw [List.filter_cons_of_pos own, List.zipWith_cons_cons, List.zipWith_cons_cons,
                  List.filter_cons_of_pos ((kind e r).trans own), same]
          | false =>
              refine ⟨part, sub.cons r, ?_, ?_⟩
              · rw [List.filter_cons_of_neg (by simp [own]), size]
              · rw [List.filter_cons_of_neg (by simp [own]), List.zipWith_cons_cons,
                  List.filter_cons_of_neg (by simp [kind, own]), same]

/-- Events of another kind can be put back in between. -/
theorem exists_rearm_extend (kind : ∀ (e : TimerEvent τ) now, p (e.rearm now) = p e) {now : ℚ}
    (length : readings.length = (merged.filter p).length) :
    ∃ all : List ℚ, all.length = merged.length ∧
      (List.zipWith TimerEvent.rearm merged all).filter p =
        List.zipWith TimerEvent.rearm (merged.filter p) readings ∧
      (∀ r ∈ all, r ∈ now :: readings) ∧
      ((now :: readings).Pairwise (· ≤ ·) → (now :: all).Pairwise (· ≤ ·)) := by
  induction merged generalizing now readings with
  | nil =>
      obtain rfl := List.length_eq_zero_iff.mp length
      exact ⟨[], rfl, rfl, nofun, id⟩
  | cons e merged ih =>
      cases own : p e with
      | true =>
          rw [List.filter_cons_of_pos own] at length ⊢
          cases readings with
          | nil => cases length
          | cons r readings =>
              obtain ⟨all, size, same, within, clock⟩ := @ih readings r (Nat.succ.inj length)
              refine ⟨r :: all, congrArg Nat.succ size, ?_, ?_, fun ordered => ?_⟩
              · rw [List.zipWith_cons_cons, List.zipWith_cons_cons,
                  List.filter_cons_of_pos ((kind e r).trans own), same]
              · exact List.forall_mem_cons.mpr ⟨by simp, fun a inside =>
                  List.mem_cons_of_mem now (within a inside)⟩
              · obtain ⟨first, rest⟩ := List.pairwise_cons.mp ordered
                refine List.pairwise_cons.mpr ⟨?_, clock rest⟩
                have least := first r List.mem_cons_self
                exact List.forall_mem_cons.mpr ⟨least, fun a inside =>
                  least.trans ((List.pairwise_cons.mp (clock rest)).1 a inside)⟩
      | false =>
          rw [List.filter_cons_of_neg (by simp [own])] at length ⊢
          obtain ⟨all, size, same, within, clock⟩ := @ih readings now length
          refine ⟨now :: all, congrArg Nat.succ size, ?_, ?_, fun ordered => ?_⟩
          · rw [List.zipWith_cons_cons, List.filter_cons_of_neg (by simp [kind, own]), same]
          · exact List.forall_mem_cons.mpr ⟨List.mem_cons_self, within⟩
          · have rest := clock ordered
            exact List.pairwise_cons.mpr ⟨List.forall_mem_cons.mpr
              ⟨le_refl now, (List.pairwise_cons.mp rest).1⟩, rest⟩

end Rearm

/-! ### Matching a call -/

section Call

variable {s s' t : Timer τ} {c : Expiry τ} {q : Multiset (TimerEvent τ)} {start stop : ℚ}
variable {uid : UInt32}

/-- Moments at which another call may read the clock: `now` for each test that succeeds, `w`
for the one that fails, `after` behind the loop. -/
structure Moments (c : Expiry τ) (q : Multiset (TimerEvent τ)) (start stop now w after : ℚ) :
    Prop where
  range : ∀ r ∈ [now, w, after], start ≤ r ∧ r ≤ stop
  tested : ∀ x ∈ c.assigned, x.2 ≤ now
  le_now : w ≤ now
  waits : ∀ e ∈ q, w ≤ e.threshold
  clock : c.readings.Pairwise (· ≤ ·) → now ≤ w ∧ w ≤ after ∧ (after :: c.rearm).Pairwise (· ≤ ·)

theorem exists_moments (call : s.HandleExpiredEvents c t)
    (done : Assigned s.isValidUid s.eventQueue c.assigned c.wait q) (le : start ≤ stop)
    (range : ∀ r ∈ c.readings, start ≤ r ∧ r ≤ stop) :
    ∃ now w after, Moments c q start stop now w after := by
  cases call with
  | empty empty =>
      refine ⟨start, start, start, ?_, by simp, le_refl start, ?_,
        fun _ => ⟨le_refl _, le_refl _, ?_⟩⟩
      · simpa using le
      · rw [done.drained rfl]
        exact fun e inside => absurd inside (Multiset.notMem_zero e)
      · exact List.pairwise_singleton _ _
  | @handle assigned wait after rearm _ _ loop length =>
      let c : Expiry τ := { assigned, wait, tNow := some after, rearm }
      have whole : c.readings =
          assigned.map Prod.snd ++ (wait.toList ++ (after :: rearm)) := by simp [c, Expiry.readings]
      have lastTest : wait.getD after ∈ wait.toList ++ (after :: rearm) := by
        cases wait <;> simp
      have nonempty : (↑(wait.getD after :: assigned.map Prod.snd) : Multiset ℚ) ≠ 0 := by simp
      obtain ⟨now, inside, largest⟩ := exists_least nonempty fun r : ℚ => -r
      have largest : ∀ r ∈ wait.getD after :: assigned.map Prod.snd, r ≤ now :=
        fun r within => neg_le_neg_iff.mp (largest r within)
      have inside : now ∈ wait.getD after :: assigned.map Prod.snd := inside
      obtain ⟨last, tests⟩ := List.forall_mem_cons.mp largest
      have read : ∀ r ∈ [now, wait.getD after, after], r ∈ c.readings := by
        rw [whole]
        simp only [List.forall_mem_cons, List.mem_append]
        refine ⟨?_, .inr (List.mem_append.mp lastTest), by simp⟩
        cases List.mem_cons.mp inside with
        | inl same => exact same ▸ .inr (List.mem_append.mp lastTest)
        | inr tested => exact .inl tested
      refine ⟨now, wait.getD after, after, fun r listed => range r (read r listed), ?_, last, ?_,
        fun clock => ?_⟩
      · exact fun x tested => tests x.2 (List.mem_map_of_mem tested)
      · intro e waiting
        cases wait with
        | none =>
            rw [done.drained rfl] at waiting
            exact absurd waiting (Multiset.notMem_zero e)
        | some r => exact done.waits r rfl e waiting
      · rw [show Expiry.readings _ = c.readings from rfl, whole] at clock
        obtain ⟨_, rest, cross⟩ := List.pairwise_append.mp clock
        obtain ⟨_, tail, ahead⟩ := List.pairwise_append.mp rest
        refine ⟨?_, ?_, tail⟩
        · cases List.mem_cons.mp inside with
          | inl same => exact le_of_eq same
          | inr tested => exact cross now tested _ lastTest
        · cases wait with
          | none => exact le_refl after
          | some r => exact ahead r (by simp) after List.mem_cons_self

/-- The other call reads the clock within the same bounds and goes back no more often. -/
theorem readings_of_moments {now w after : ℚ} (moments : Moments c q start stop now w after)
    (range : ∀ r ∈ c.readings, start ≤ r ∧ r ≤ stop) {merged : List (TimerEvent τ)}
    {wait : Option ℚ} (reading : ∀ r, wait = some r → r = w) {part all : List ℚ}
    (sub : part.Sublist c.rearm) (within : ∀ r ∈ all, r ∈ after :: part)
    (clock : (after :: part).Pairwise (· ≤ ·) → (after :: all).Pairwise (· ≤ ·)) {c' : Expiry τ}
    (same : c'.readings = merged.map (fun _ => now) ++ (wait.toList ++ (after :: all))) :
    (∀ r ∈ c'.readings, start ≤ r ∧ r ≤ stop) ∧
      (c.readings.Pairwise (· ≤ ·) → c'.readings.Pairwise (· ≤ ·)) := by
  obtain ⟨nowRange, wRange, afterRange⟩ : (start ≤ now ∧ now ≤ stop) ∧ (start ≤ w ∧ w ≤ stop) ∧
      (start ≤ after ∧ after ≤ stop) := by simpa using moments.range
  have rearmRange : ∀ r ∈ after :: part, start ≤ r ∧ r ≤ stop :=
    List.forall_mem_cons.mpr ⟨afterRange, fun r inside =>
      range r (List.mem_append_right _ (sub.mem inside))⟩
  have tests : ∀ r ∈ merged.map (fun _ => now), r = now := by
    intro r inside
    obtain ⟨_, _, rfl⟩ := List.mem_map.mp inside
    rfl
  have waits : ∀ r ∈ wait.toList, r = w := fun r inside => reading r (Option.mem_toList.mp inside)
  constructor
  · intro r inside
    rw [same] at inside
    cases List.mem_append.mp inside with
    | inl test => exact tests r test ▸ nowRange
    | inr later =>
        cases List.mem_append.mp later with
        | inl waiting => exact waits r waiting ▸ wRange
        | inr last =>
            cases List.mem_cons.mp last with
            | inl first => exact first ▸ afterRange
            | inr back => exact rearmRange r (within r back)
  · intro ordered
    obtain ⟨test, behind, rearm⟩ := moments.clock ordered
    have tail := clock (rearm.sublist (sub.cons_cons after))
    have afterLe : ∀ r ∈ after :: all, after ≤ r :=
      List.forall_mem_cons.mpr ⟨le_refl after, (List.pairwise_cons.mp tail).1⟩
    have wLe : ∀ r ∈ wait.toList ++ (after :: all), w ≤ r := by
      intro r inside
      cases List.mem_append.mp inside with
      | inl waiting => exact ge_of_eq (waits r waiting)
      | inr last => exact behind.trans (afterLe r last)
    rw [same]
    refine List.pairwise_append.mpr ⟨?_, List.pairwise_append.mpr ⟨?_, tail, ?_⟩, ?_⟩
    · exact List.pairwise_map.mpr (List.pairwise_of_forall fun _ _ => le_refl now)
    · cases wait with
      | none => exact .nil
      | some r => exact List.pairwise_singleton _ _
    · exact fun a waiting b last => waits a waiting ▸ behind.trans (afterLe b last)
    · exact fun a first b later => tests a first ▸ test.trans (wLe b later)

/-- What another timer dispatches where this one dispatches `named` and keeps `kept` of the
other uids: the events of `uid` that are due come in between. -/
theorem exists_plan {all kept : Multiset (TimerEvent τ)} {named : List (TimerEvent τ)}
    {now w : ℚ} (same : others uid all = ↑named + kept)
    (ordered : named.Pairwise fun a b => a.deadline ≤ b.deadline)
    (least : ∀ a ∈ named, ∀ b ∈ kept, a.deadline ≤ b.deadline)
    (expired : ∀ e ∈ named, e.threshold < now) (le : w ≤ now)
    (waits : ∀ e ∈ kept, w ≤ e.threshold) :
    ∃ (merged : List (TimerEvent τ)) (rest : Multiset (TimerEvent τ)), all = ↑merged + rest ∧
      merged.Pairwise (fun a b => a.deadline ≤ b.deadline) ∧
      merged.filter (·.other uid) = named ∧ others uid rest = kept ∧
      (∀ a ∈ merged, ∀ b ∈ rest, a.deadline ≤ b.deadline) ∧
      (∀ e ∈ merged, e.threshold < now) ∧ ∀ e ∈ rest, w ≤ e.threshold := by
  classical
  have isOther : ∀ e ∈ (↑named + kept : Multiset (TimerEvent τ)), e.other uid = true := by
    intro e inside
    rw [← same] at inside
    exact (Multiset.mem_filter.mp inside).2
  obtain ⟨namedOther, keptOther⟩ : (∀ e ∈ named, e.other uid = true) ∧
      ∀ e ∈ kept, e.other uid = true :=
    ⟨fun e inside => isOther e (Multiset.mem_add.mpr (.inl inside)),
      fun e inside => isOther e (Multiset.mem_add.mpr (.inr inside))⟩
  let due (e : TimerEvent τ) : Prop := e.threshold < w ∨ ∃ n ∈ named, e.deadline ≤ n.deadline
  let own := all.filter fun e => ¬ e.other uid
  let early := own.filter due
  let late := own.filter fun e => ¬ due e
  have ownOf : ∀ e ∈ own, e.other uid = false := fun e inside => by
    simpa using (Multiset.mem_filter.mp inside).2
  obtain ⟨merged, perm, sorted, filtered⟩ := exists_merge TimerEvent.deadline ordered namedOther
    fun e (inside : e ∈ early.toList) =>
      ownOf e (Multiset.mem_of_mem_filter (Multiset.mem_toList.mp inside))
  have content : (↑merged : Multiset (TimerEvent τ)) = ↑named + early := by
    rw [Multiset.coe_eq_coe.mpr perm, ← Multiset.coe_add, Multiset.coe_toList]
  have mergedDue : ∀ e ∈ merged, due e ∧ e.threshold < now := by
    intro e inside
    rw [← Multiset.mem_coe, content, Multiset.mem_add] at inside
    cases inside with
    | inl old => exact ⟨.inr ⟨e, old, le_refl _⟩, expired e old⟩
    | inr new =>
        have isDue : due e := (Multiset.mem_filter.mp new).2
        refine ⟨isDue, ?_⟩
        cases isDue with
        | inl before => exact before.trans_le le
        | inr ahead =>
            obtain ⟨n, old, before⟩ := ahead
            exact (threshold_le.mpr before).trans_lt (expired n old)
  have restLate : ∀ e ∈ kept + late,
      w ≤ e.threshold ∧ ∀ n ∈ named, n.deadline ≤ e.deadline := by
    intro e inside
    cases Multiset.mem_add.mp inside with
    | inl old => exact ⟨waits e old, fun n before => least n before e old⟩
    | inr new =>
        have notDue : ¬ due e := (Multiset.mem_filter.mp new).2
        obtain ⟨notBefore, notAhead⟩ := not_or.mp notDue
        refine ⟨not_lt.mp notBefore, fun n before => le_of_not_ge fun ahead => ?_⟩
        exact notAhead ⟨n, before, ahead⟩
  refine ⟨merged, kept + late, ?_, sorted, filtered, ?_, ?_, fun e inside => (mergedDue e inside).2,
    fun e inside => (restLate e inside).1⟩
  · calc all = others uid all + own := (Multiset.filter_add_not _ all).symm
      _ = (↑named + kept) + (early + late) := by rw [same, Multiset.filter_add_not due own]
      _ = (↑named + early) + (kept + late) := add_add_add_comm _ _ _ _
      _ = ↑merged + (kept + late) := by rw [content]
  · have noOther : others uid late = 0 := Multiset.filter_eq_nil.mpr fun e inside => by
      simp [ownOf e (Multiset.mem_of_mem_filter inside)]
    have allOther : others uid kept = kept := Multiset.filter_eq_self.mpr keptOther
    rw [others, Multiset.filter_add]
    exact (congrArg₂ (· + ·) allOther noOther).trans (add_zero kept)
  · intro a inMerged b inRest
    obtain ⟨wait, behind⟩ := restLate b inRest
    cases (mergedDue a inMerged).1 with
    | inl before => exact threshold_le.mp (before.le.trans wait)
    | inr ahead =>
        obtain ⟨n, old, before⟩ := ahead
        exact before.trans (behind n old)

theorem others_add (uid : UInt32) (q q' : Multiset (TimerEvent τ)) :
    others uid (q + q') = others uid q + others uid q' := Multiset.filter_add _ _ _

theorem others_filter (uid : UInt32) (p : TimerEvent τ → Prop) [DecidablePred p]
    (q : Multiset (TimerEvent τ)) : others uid (q.filter p) = (others uid q).filter p :=
  Multiset.filter_comm _ _ _

theorem others_coe (uid : UInt32) (l : List (TimerEvent τ)) :
    others uid ↑l = (↑(l.filter fun e => e.other uid) : Multiset (TimerEvent τ)) := by
  simp [others]

/-- Only the others among the popped loop events decide which others are put back. -/
theorem others_rearmed_nil (length : c.rearm.length = c.poppedLoopEvents.length)
    (none : c.others uid = []) : c.rearmed.filter (·.other uid) = [] := by
  obtain ⟨part, _, _, same⟩ := exists_rearm_filter (other_rearm uid) length
  have nonePopped : c.poppedLoopEvents.filter (·.other uid) = [] := by
    rw [Expiry.poppedLoopEvents, List.filter_comm]
    exact congrArg (List.filter _) none
  rw [nonePopped] at same
  exact same.symm

theorem exists_matching_call (agree : others uid s'.live = others uid s.live)
    (call : s.HandleExpiredEvents c t) (le : start ≤ stop)
    (range : ∀ r ∈ c.readings, start ≤ r ∧ r ≤ stop) :
    ∃ c' t', s'.HandleExpiredEvents c' t' ∧ (∀ r ∈ c'.readings, start ≤ r ∧ r ≤ stop) ∧
      c.others uid = c'.others uid ∧
      (c.readings.Pairwise (· ≤ ·) → c'.readings.Pairwise (· ≤ ·)) ∧
      others uid t'.live = others uid t.live := by
  obtain ⟨q, done, after, length⟩ := call.loop
  obtain ⟨now, w, tNow, moments⟩ := exists_moments call done le range
  subst after
  let kept := others uid (q.filter fun e => s.isValidUid e.uid.toUInt32)
  have split : others uid s'.live = ↑(c.others uid) + kept := by
    have live : s.live = ↑c.events + q.filter fun e => s.isValidUid e.uid.toUInt32 := done.live_eq
    rw [agree, live, others_add, others_coe]
    rfl
  rw [live_after done length, others_add, others_coe]
  by_cases empty : s'.eventQueue = 0
  · have count : (c.others uid).length + kept.card = 0 := by
      have nothing : others uid s'.live = 0 := by simp [live, empty, others]
      simpa [nothing] using (congrArg Multiset.card split).symm
    have none := List.length_eq_zero_iff.mp (Nat.eq_zero_of_add_eq_zero_right count)
    refine ⟨{}, s', .empty empty, nofun, none, fun _ => .nil, ?_⟩
    rw [split, none, others_rearmed_nil length none]
    exact add_comm _ _
  · have ordered : (c.others uid).Pairwise fun a b => a.deadline ≤ b.deadline :=
      done.ordered.sublist List.filter_sublist
    have inEvents : ∀ e ∈ c.others uid, e ∈ c.events := fun e => List.mem_of_mem_filter
    have inQueue : ∀ e ∈ kept, e ∈ q := fun e inside =>
      Multiset.mem_of_mem_filter (Multiset.mem_of_mem_filter inside)
    have expired : ∀ e ∈ c.others uid, e.threshold < now := by
      intro e inside
      obtain ⟨x, tested, rfl⟩ := List.mem_map.mp (inEvents e inside)
      exact (done.expired x tested).trans_le (moments.tested x tested)
    obtain ⟨merged, rest, content, sorted, named, restOthers, least, due, waits⟩ :=
      exists_plan split ordered (fun a first b second => done.least a (inEvents a first) b
        (inQueue b second)) expired moments.le_now fun e inside =>
          moments.waits e (inQueue e inside)
    obtain ⟨wait, q', loop, left, reading⟩ := exists_loop merged content sorted least due waits
    obtain ⟨part, sub, size, back⟩ := exists_rearm_filter (other_rearm uid) length
    have popped : (merged.filter (·.isLoopEvent)).filter (·.other uid) =
        c.poppedLoopEvents.filter (·.other uid) := by
      rw [List.filter_comm, named, Expiry.poppedLoopEvents, Expiry.others, List.filter_comm]
    obtain ⟨all, allSize, allBack, within, clock⟩ := @exists_rearm_extend τ _ _ part
      (other_rearm uid) tNow (size.trans (congrArg List.length popped.symm))
    let c' : Expiry τ :=
      { assigned := merged.map fun e => (e, now), wait, tNow := some tNow, rearm := all }
    have events : c'.events = merged := by simp [c', Expiry.events, Function.comp_def]
    have length' : c'.rearm.length = c'.poppedLoopEvents.length := by
      rw [Expiry.poppedLoopEvents, events]
      exact allSize
    have back' : c'.rearmed.filter (·.other uid) = c.rearmed.filter (·.other uid) := by
      rw [Expiry.rearmed, Expiry.poppedLoopEvents, events, allBack, popped, back]
      rfl
    have readings : c'.readings = merged.map (fun _ => now) ++ (wait.toList ++ (tNow :: all)) := by
      simp [c', Expiry.readings, Function.comp_def]
    obtain ⟨range', clock'⟩ := readings_of_moments moments range reading sub within clock readings
    refine ⟨c', { s' with eventQueue := q' + c'.rearmed }, .handle empty loop length', range', ?_,
      clock', ?_⟩
    · rw [eq_comm, Expiry.others, events, named]
    · rw [live_after loop.spec length', others_add, left, restOthers, others_coe, back']

end Call

/-! ### Timers that agree on the other uids -/

section Agree

variable {s s' t : Timer τ} {l : TimerAct τ} {uid : UInt32}

/-- Two timers that differ at most in whether `uid` is valid and in its events. -/
structure Agree (uid : UInt32) (s s' : Timer τ) : Prop where
  inv : Inv s
  inv' : Inv s'
  issued : uid < s.uidForNextEvent
  next : s'.uidForNextEvent = s.uidForNextEvent
  valid : ∀ v, v ≠ uid → (v ∈ s'.validUid ↔ v ∈ s.validUid)
  live : others uid s'.live = others uid s.live

theorem Agree.symm (agree : Agree uid s s') : Agree uid s' s where
  inv := agree.inv'
  inv' := agree.inv
  issued := agree.next ▸ agree.issued
  next := agree.next.symm
  valid v other := (agree.valid v other).symm
  live := agree.live.symm

theorem live_issue {e : TimerEvent τ} (inv : Inv s) (new : e.uid.toUInt32 = s.uidForNextEvent)
    (inv' : Inv (s.issue e)) : (s.issue e).live = e ::ₘ s.live := by
  rw [live_eq inv'.sorted, live_eq inv.sorted]
  have old : ∀ a ∈ s.eventQueue, (a.uid.toUInt32 ∈ s.validUid ++ [s.uidForNextEvent] ↔
      a.uid.toUInt32 ∈ s.validUid) := by
    intro a inside
    have below := inv.issued _ (Multiset.mem_map_of_mem _ inside)
    rw [List.mem_append, List.mem_singleton]
    exact or_iff_left fun same => UInt32.lt_irrefl _ (same ▸ below)
  rw [issue, Multiset.filter_cons_of_pos _ (by simp [new]), Multiset.filter_congr old]

theorem Agree.issue {e : TimerEvent τ} (agree : Agree uid s s')
    (new : e.uid.toUInt32 = s.uidForNextEvent) (fits : s.uidForNextEvent.toNat + 1 < 2 ^ 32) :
    Agree uid (s.issue e) (s'.issue e) := by
  have new' : e.uid.toUInt32 = s'.uidForNextEvent := new.trans agree.next.symm
  have inv := agree.inv.issue new fits
  have inv' := agree.inv'.issue new' (agree.next.symm ▸ fits)
  refine ⟨inv, inv', ?_, ?_, fun v other => ?_, ?_⟩
  · exact UInt32.lt_trans agree.issued (lt_add_one fits)
  · exact congrArg (· + 1) agree.next
  · simp only [Timer.issue, List.mem_append, agree.valid v other, agree.next]
  · rw [live_issue agree.inv new inv, live_issue agree.inv' new' inv', others, others,
      Multiset.filter_cons, Multiset.filter_cons]
    exact congrArg _ agree.live

theorem cancelEvent_spec (inv : Inv s) (v : UInt32) :
    ((s.cancelEvent v).1 = true ↔ v ∈ s.validUid) ∧
      (∀ w, w ∈ (s.cancelEvent v).2.validUid ↔ w ≠ v ∧ w ∈ s.validUid) ∧
      (s.cancelEvent v).2.uidForNextEvent = s.uidForNextEvent ∧
      (s.cancelEvent v).2.eventQueue = s.eventQueue := by
  cases cancelEvent_cases s v with
  | inl refused =>
      obtain ⟨answer, unknown⟩ := refused
      have outside : v ∉ s.validUid := fun inside => unknown (inv.valid_lt v inside) inside
      rw [answer]
      refine ⟨by simp [outside], fun w => ?_, rfl, rfl⟩
      exact ⟨fun inside => ⟨fun same => outside (same ▸ inside), inside⟩, fun both => both.2⟩
  | inr removed =>
      obtain ⟨inside, _, answer⟩ := removed
      have nodup : s.validUid.Nodup := inv.sorted.imp UInt32.ne_of_lt
      rw [answer]
      exact ⟨by simp [inside], fun w => nodup.mem_erase_iff, rfl, rfl⟩

theorem Inv.cancelEvent (inv : Inv s) (v : UInt32) : Inv (s.cancelEvent v).2 :=
  inv.step ⟨hasUid_of_quiet rfl, .cancelEvent v⟩

theorem live_cancelEvent (inv : Inv s) (v : UInt32) :
    (s.cancelEvent v).2.live = s.live.filter fun e => e.uid.toUInt32 ≠ v := by
  obtain ⟨_, valid, _, queue⟩ := cancelEvent_spec inv v
  rw [live_eq (inv.cancelEvent v).sorted, live_eq inv.sorted, Multiset.filter_filter, queue]
  exact Multiset.filter_congr fun e _ => valid _

theorem Agree.cancelEvent (agree : Agree uid s s') (v : UInt32) :
    (v ≠ uid → (s.cancelEvent v).1 = (s'.cancelEvent v).1) ∧
      Agree uid (s.cancelEvent v).2 (s'.cancelEvent v).2 := by
  obtain ⟨answer, valid, next, _⟩ := cancelEvent_spec agree.inv v
  obtain ⟨answer', valid', next', _⟩ := cancelEvent_spec agree.inv' v
  refine ⟨fun other => ?_, agree.inv.cancelEvent v, agree.inv'.cancelEvent v, ?_, ?_,
    fun w other => ?_, ?_⟩
  · rw [Bool.eq_iff_iff, answer, answer', agree.valid v other]
  · rw [next]
    exact agree.issued
  · rw [next, next', agree.next]
  · rw [valid, valid', agree.valid w other]
  · rw [live_cancelEvent agree.inv, live_cancelEvent agree.inv', others_filter, others_filter,
      agree.live]

/-- Cancelling `uid` changes nothing else. -/
theorem agree_cancelEvent (inv : Inv s) (issued : uid < s.uidForNextEvent) :
    Agree uid s (s.cancelEvent uid).2 := by
  obtain ⟨_, valid, next, _⟩ := cancelEvent_spec inv uid
  refine ⟨inv, inv.cancelEvent uid, issued, next, fun v other => ?_, ?_⟩
  · rw [valid]
    exact and_iff_right other
  · rw [live_cancelEvent inv, others, Multiset.filter_filter]
    exact Multiset.filter_congr fun e _ => and_iff_left_of_imp fun isOther => by
      simpa [other] using isOther

theorem exists_matching_step (agree : Agree uid s s') (step : Restrict TimerStep HasUid s l t) :
    ∃ l' t', Restrict TimerStep HasUid s' l' t' ∧ l.Matches uid l' ∧ Agree uid t t' := by
  obtain ⟨fits, step⟩ := step
  have fits' : HasUid s' l := by
    rw [HasUid, agree.next]
    exact fits
  cases step with
  | setEvent task durationMs now =>
      have event : (s'.setEvent task durationMs now).2 =
          s'.issue ⟨false, s.uidForNextEvent.toInt32, durationMs, now, task⟩ := by
        rw [setEvent_eq, agree.next]
      refine ⟨_, _, ⟨fits', .setEvent task durationMs now⟩, .setEvent task durationMs now, ?_⟩
      rw [event, setEvent_eq]
      exact agree.issue (UInt32.toUInt32_toInt32 _) (fits rfl)
  | setLoopEvent task periodMs now =>
      have event : (s'.setLoopEvent task periodMs now).2 =
          s'.issue ⟨true, s.uidForNextEvent.toInt32, periodMs, now, task⟩ := by
        rw [setLoopEvent_eq, agree.next]
      refine ⟨_, _, ⟨fits', .setLoopEvent task periodMs now⟩, .setLoopEvent task periodMs now, ?_⟩
      rw [event, setLoopEvent_eq]
      exact agree.issue (UInt32.toUInt32_toInt32 _) (fits rfl)
  | cancelEvent v =>
      obtain ⟨answer, after⟩ := agree.cancelEvent v
      exact ⟨_, _, ⟨hasUid_of_quiet rfl, .cancelEvent v⟩, .cancelEvent answer, after⟩
  | @handleExpiredEvents _ start stop c le range call =>
      obtain ⟨c', t', call', range', same, clock, live⟩ :=
        exists_matching_call agree.live call le range
      obtain ⟨valid, next, _⟩ := call.keeps
      obtain ⟨valid', next', _⟩ := call'.keeps
      have step : TimerStep s (.handleExpiredEvents start stop c) t :=
        .handleExpiredEvents le range call
      have step' : TimerStep s' (.handleExpiredEvents start stop c') t' :=
        .handleExpiredEvents le range' call'
      refine ⟨_, t', ⟨hasUid_of_quiet rfl, step'⟩, .handleExpiredEvents same clock,
        agree.inv.step ⟨hasUid_of_quiet rfl, step⟩, agree.inv'.step ⟨hasUid_of_quiet rfl, step'⟩,
        ?_, ?_, fun v other => ?_, live⟩
      · rw [next]
        exact agree.issued
      · rw [next', next, agree.next]
      · rw [valid', valid, agree.valid v other]

end Agree

/-! ### Runs -/

section Runs

variable {s t : Timer τ} {h : List (TimerAct τ × Timer τ)} {uid : UInt32}

theorem matches_self (l : TimerAct τ) : l.Matches uid l := by
  cases l with
  | setEvent task durationMs now => exact .setEvent task durationMs now
  | setLoopEvent task periodMs now => exact .setLoopEvent task periodMs now
  | cancelEvent v ret => exact .cancelEvent fun _ => rfl
  | handleExpiredEvents start stop c => exact .handleExpiredEvents rfl id

/-- A run goes on after a cancellation as it does without, and the other way round. -/
theorem exists_matching_run (inv : Inv s) {s₁ s₂ : Timer τ}
    (both : s₁ = s ∧ s₂ = (s.cancelEvent uid).2 ∨ s₁ = (s.cancelEvent uid).2 ∧ s₂ = s)
    (run : Run (Restrict TimerStep HasUid) s₁ h t) :
    ∃ h' t', Run TimerStep s₂ h' t' ∧ List.Forall₂ (fun x y => x.1.Matches uid y.1) h h' := by
  by_cases issued : uid < s.uidForNextEvent
  · have agree : Agree uid s₁ s₂ := by
      have cancelled := agree_cancelEvent inv issued
      obtain ⟨rfl, rfl⟩ | ⟨rfl, rfl⟩ := both
      · exact cancelled
      · exact cancelled.symm
    obtain ⟨h', t', run, same, _⟩ := run.simulate agree exists_matching_step
    exact ⟨h', t', run.mono And.right, same⟩
  · have refused : (s.cancelEvent uid).2 = s := by
      rw [cancelEvent, if_pos (UInt32.not_lt.mp issued)]
    have same : s₁ = s₂ := by
      rw [refused] at both
      obtain ⟨rfl, rfl⟩ | ⟨rfl, rfl⟩ := both <;> rfl
    exact ⟨h, t, same ▸ run.mono And.right, List.forall₂_same.mpr fun x _ => matches_self x.1⟩

/-- The uid was issued and is no longer valid. -/
def Gone (uid : UInt32) (s : Timer τ) : Prop := uid ∉ s.validUid ∧ uid < s.uidForNextEvent

theorem Gone.step {l : TimerAct τ} (gone : Gone uid s) (step : Restrict TimerStep HasUid s l t) :
    Gone uid t := by
  obtain ⟨outside, issued⟩ := gone
  obtain ⟨fits, step⟩ := step
  obtain ⟨e, creates, -, rfl⟩ | ⟨v, -, -, rfl⟩ | ⟨-, -, valid, next, -⟩ := step_cases step
  · refine ⟨fun inside => ?_, UInt32.lt_trans issued (lt_add_one (fits creates))⟩
    cases List.mem_append.mp inside with
    | inl old => exact outside old
    | inr new => exact UInt32.lt_irrefl _ (List.mem_singleton.mp new ▸ issued)
  · exact ⟨fun inside => outside (List.mem_of_mem_erase inside), issued⟩
  · exact ⟨valid.symm ▸ outside, next.symm ▸ issued⟩

theorem gone_cancelEvent (inv : Inv s) (answer : (s.cancelEvent uid).1 = true) :
    Gone uid (s.cancelEvent uid).2 := by
  obtain ⟨ret, valid, next, _⟩ := cancelEvent_spec inv uid
  refine ⟨fun inside => ((valid uid).mp inside).1 rfl, ?_⟩
  rw [next]
  exact inv.valid_lt uid (ret.mp answer)

theorem not_dispatched_of_run (run : Run (Restrict TimerStep HasUid) s h t) (inv : Inv s)
    (gone : Gone uid s) {start stop : ℚ} {c : Expiry τ} {v : Timer τ}
    (call : (.handleExpiredEvents start stop c, v) ∈ h) :
    ∀ e ∈ c.events, e.uid.toUInt32 ≠ uid := by
  induction run with
  | nil => cases call
  | @step h t l u earlier last ih =>
      cases List.mem_cons.mp call with
      | inr older => exact ih older
      | inl here =>
          cases here
          intro e dispatched same
          have atCall : Gone uid t := earlier.invariant gone fun gone step => gone.step step
          have invAt : Inv t := earlier.invariant inv fun inv step => inv.step step
          cases last.2 with
          | handleExpiredEvents _ _ call =>
              obtain ⟨q, done, _⟩ := call.loop
              have valid := done.valid e dispatched
              rw [isValidUid_iff invAt.sorted, same] at valid
              exact atCall.1 valid

theorem cancel_of_run {ret : Bool} {u : Timer τ}
    (run : Run (Restrict TimerStep HasUid) {} ((.cancelEvent uid ret, u) :: h) t) :
    Inv (stateAfter {} h) ∧ ret = ((stateAfter {} h).cancelEvent uid).1 ∧
      u = ((stateAfter {} h).cancelEvent uid).2 := by
  cases run with
  | step before cancel =>
      rw [before.stateAfter_eq]
      refine ⟨inv_of_run before, ?_⟩
      cases cancel.2
      exact ⟨rfl, rfl⟩

/-- In every run `IsValidUid` decides membership, a cancelled event is never dispatched, and
whether a cancellation is made does not change which events of other uids can be. -/
theorem cancelEvent_exact (run : Run TimerStep {} h t) (few : created h < 2 ^ 32) :
    (∀ h', h' <:+ h → (stateAfter {} h').validUid.Pairwise (· < ·) ∧
      ∀ uid, (stateAfter {} h').isValidUid uid = true ↔ uid ∈ (stateAfter {} h').validUid) ∧
    (∀ uid later u earlier, later ++ (.cancelEvent uid true, u) :: earlier = h →
      ∀ start stop c v, (.handleExpiredEvents start stop c, v) ∈ later →
        ∀ e ∈ c.events, e.uid.toUInt32 ≠ uid) ∧
    (∀ uid ret later u earlier, later ++ (.cancelEvent uid ret, u) :: earlier = h →
      ∃ later' t', Run TimerStep (stateAfter {} earlier) later' t' ∧
        List.Forall₂ (fun x y => x.1.Matches uid y.1) later later') ∧
    ∀ uid later earlier, later ++ earlier = h →
      ∃ later' t', Run TimerStep ((stateAfter {} earlier).cancelEvent uid).2 later' t' ∧
        List.Forall₂ (fun x y => x.1.Matches uid y.1) later later' := by
  have run := restrict_of_run run few
  refine ⟨fun h' suffix => ?_, ?_, ?_, ?_⟩
  · have sorted := (inv_of_run (run.prefix_run suffix)).sorted
    exact ⟨sorted, fun uid => isValidUid_iff sorted⟩
  · intro uid later u earlier whole start stop c v call
    obtain ⟨first, rest⟩ := (whole ▸ run).split
    obtain ⟨inv, answer, after⟩ := cancel_of_run first
    have gone : Gone uid u := after ▸ gone_cancelEvent inv answer.symm
    exact not_dispatched_of_run rest (inv_of_run first) gone call
  · intro uid ret later u earlier whole
    obtain ⟨first, rest⟩ := (whole ▸ run).split
    obtain ⟨inv, _, after⟩ := cancel_of_run first
    exact exists_matching_run inv (.inr ⟨after, rfl⟩) rest
  · intro uid later earlier whole
    obtain ⟨first, rest⟩ := (whole ▸ run).split
    exact exists_matching_run (inv_of_run first) (.inl ⟨rfl, rfl⟩) rest

end Runs

/-- A one-shot event set at time 0, and the timer that has it. -/
def shot : TimerEvent Unit := ⟨false, 0, 1, 0, ()⟩

def oneShot : Timer Unit := ⟨{shot}, [0], 1⟩

theorem create_shot : TimerStep {} (.setEvent () 1 0) oneShot := .setEvent () 1 0

theorem shot_top : Top shot oneShot.eventQueue 0 := ⟨rfl, by simp⟩

/-- One that is due a little later, and the timer with both, before and after the first one is
cancelled. -/
def laterShot : TimerEvent Unit := ⟨false, 1, 2, 0, ()⟩

def twoShots : Timer Unit := ⟨laterShot ::ₘ {shot}, [0, 1], 2⟩

def cancelledShot : Timer Unit := ⟨laterShot ::ₘ {shot}, [1], 2⟩

theorem not_shot_lt_laterShot : ¬ shot < laterShot := by
  rw [TimerEvent.lt_iff]
  decide +kernel

/-- Of two events one is cancelled, and the next call dispatches the other one only. -/
theorem cancelEvent_exact_shots :
    ∃ (h : List (TimerAct Unit × Timer Unit)) (c : Expiry Unit) (s : Timer Unit),
      Run TimerStep {} ((.handleExpiredEvents 3 4 c, s) :: (.cancelEvent 0 true, cancelledShot) :: h)
        s ∧ c.events = [laterShot] ∧ s.eventQueue = 0 ∧ (∀ e ∈ c.events, e.uid.toUInt32 ≠ 0) ∧
      ∃ later' t', Run TimerStep twoShots later' t' ∧
        List.Forall₂ (fun (x y : TimerAct Unit × Timer Unit) => x.1.Matches 0 y.1)
          [(.handleExpiredEvents 3 4 c, s)] later' := by
  have create : TimerStep oneShot (.setEvent () 2 0) twoShots := .setEvent () 2 0
  have cancel : TimerStep twoShots (.cancelEvent 0 true) cancelledShot := .cancelEvent 0
  have sorted : cancelledShot.validUid.Pairwise (· < ·) := by decide
  have invalid : cancelledShot.isValidUid shot.uid.toUInt32 = false :=
    Bool.eq_false_iff.mpr fun valid => absurd ((isValidUid_iff sorted).mp valid) (by decide)
  have valid : cancelledShot.isValidUid laterShot.uid.toUInt32 = true :=
    (isValidUid_iff sorted).mpr (by decide)
  have expired : laterShot.isNearExpired 3 = true := by decide +kernel
  have top : Top laterShot {laterShot} 0 := ⟨rfl, by simp⟩
  have first : Top shot cancelledShot.eventQueue {laterShot} :=
    ⟨Multiset.cons_swap laterShot shot 0, by simpa using not_shot_lt_laterShot⟩
  have loop := AssignExpired.cancelled first invalid (.assign top valid expired .drained)
  have filled : laterShot ::ₘ {shot} ≠ 0 := Multiset.cons_ne_zero
  have call : cancelledShot.HandleExpiredEvents ⟨[(laterShot, 3)], none, some 4, []⟩ _ :=
    .handle filled loop rfl
  have handle : TimerStep cancelledShot (.handleExpiredEvents 3 4 _) _ :=
    .handleExpiredEvents (by decide +kernel) (by decide +kernel) call
  have run := (((Run.nil.step create_shot).step create).step cancel).step handle
  obtain ⟨_, silent, matched, _⟩ := cancelEvent_exact run (by decide)
  exact ⟨_, _, _, run, rfl, rfl, silent 0 [_] _ _ rfl _ _ _ _ List.mem_cons_self,
    matched 0 true [_] _ _ rfl⟩

end Timer

end Lra
