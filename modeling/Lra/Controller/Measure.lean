import Lra.Effect.Transition
import Lra.Host.Interface
import Mathlib.Logic.Function.Basic

/-!
# The deque of samples

`AccMeasureTask` appends a sample and drops the oldest one when there are too many;
other threads remove samples from the same end. The calls that hold the mutex are single
steps, but the sizes that `AccMeasureTask` and `AccPopAll` act on are read without it.
-/

namespace Lra

open Effect

/-! ### Calls on the deque -/

namespace Adxl355

def accPushBack (accData : Acc3) (data : List Acc3) : List Acc3 := data ++ [accData]

/-- There is no front of an empty deque. -/
def accPopFront : List Acc3 → Option (Acc3 × List Acc3)
  | [] => none
  | tmp :: data => some (tmp, data)

/-- `while (n--)`, with the samples collected so far. -/
def popWhile : Nat → List Acc3 → List Acc3 → Option (List Acc3 × List Acc3)
  | 0, tmp, data => some (tmp, data)
  | n + 1, tmp, data => do
    let (front, data) ← accPopFront data
    popWhile n (tmp ++ [front]) data

def accPopFrontN (n : Nat) (data : List Acc3) : Option (List Acc3 × List Acc3) :=
  if n ≤ 0 then some ([], data)
  else popWhile (if data.length < n then data.length else n) [] data

theorem popWhile_eq {n : Nat} {data : List Acc3} (enough : n ≤ data.length) (tmp : List Acc3) :
    popWhile n tmp data = some (tmp ++ data.take n, data.drop n) := by
  induction n generalizing tmp data with
  | zero => simp [popWhile]
  | succ n ih =>
      cases data with
      | nil => simp at enough
      | cons front data =>
          have rest : n ≤ data.length := Nat.le_of_succ_le_succ enough
          calc popWhile (n + 1) tmp (front :: data)
              = popWhile n (tmp ++ [front]) data := rfl
            _ = some (tmp ++ (front :: data).take (n + 1), (front :: data).drop (n + 1)) := by
              rw [ih rest]
              simp

/-- The oldest samples, `n` of them or as many as there are. -/
theorem accPopFrontN_eq (n : Nat) (data : List Acc3) :
    accPopFrontN n data = some (data.take n, data.drop n) := by
  rw [accPopFrontN]
  by_cases none : n ≤ 0
  · obtain rfl := Nat.le_zero.mp none
    simp
  · rw [if_neg none]
    split
    · next fewer =>
        rw [popWhile_eq (Nat.le_refl _), List.take_length, List.drop_length,
          List.take_of_length_le (Nat.le_of_lt fewer), List.drop_of_length_le (Nat.le_of_lt fewer)]
        rfl
    · next enough =>
        rw [popWhile_eq (Nat.not_lt.mp enough)]
        rfl

end Adxl355

/-! ### The threads -/

/-- `max_number_in_deque_`; a sample has 16 bytes. -/
def maxNumberInDeque : Nat := 1024 * 1024 * 5 / 16

/-- Where the measure task is. -/
inductive AccMeasureTask where
  | waiting
  /-- A sample has been appended and the size is to be tested. -/
  | testing
  | trimming
  deriving DecidableEq

/-- The deque, the measure task, and for each consumer within an `AccPopAll` the size it
has read. -/
structure AccState where
  data : List Acc3 := []
  task : AccMeasureTask := .waiting
  sizes : Nat → Option Nat := fun _ => none

/-- Steps of the measure task, and of the consumer `k` with what it got. -/
inductive AccEvent where
  | pushBack (a : Acc3)
  | testSize
  | popFront (a : Acc3)
  | popFrontN (k n : Nat) (out : List Acc3)
  /-- `AccPopAll` reads the size. -/
  | readSize (k : Nat)
  | popAll (k : Nat) (out : List Acc3)

/-- `popFront` is a step only where the deque is not empty. -/
inductive AccStep : AccState → AccEvent → AccState → Prop where
  | pushBack {s} (a) : s.task = .waiting →
      AccStep s (.pushBack a) { s with data := Adxl355.accPushBack a s.data, task := .testing }
  | testSize {s} : s.task = .testing →
      AccStep s .testSize
        { s with task := if s.data.length > maxNumberInDeque then .trimming else .waiting }
  | popFront {s a data} : s.task = .trimming → Adxl355.accPopFront s.data = some (a, data) →
      AccStep s (.popFront a) { s with data, task := .waiting }
  | popFrontN {s out data} (k n) : s.sizes k = none →
      Adxl355.accPopFrontN n s.data = some (out, data) →
      AccStep s (.popFrontN k n out) { s with data }
  | readSize {s} (k) : s.sizes k = none →
      AccStep s (.readSize k) { s with sizes := Function.update s.sizes k (some s.data.length) }
  | popAll {s n out data} (k) : s.sizes k = some n →
      Adxl355.accPopFrontN n s.data = some (out, data) →
      AccStep s (.popAll k out) { s with data, sizes := Function.update s.sizes k none }

namespace AccEvent

def pushed : AccEvent → List Acc3
  | pushBack a => [a]
  | _ => []

def removed : AccEvent → List Acc3
  | popFront a => [a]
  | popFrontN _ _ out => out
  | popAll _ out => out
  | _ => []

end AccEvent

/-! ### What holds at every moment -/

theorem AccStep.conserves {s t : AccState} {l : AccEvent} (step : AccStep s l t) :
    s.data ++ l.pushed = l.removed ++ t.data := by
  have split : ∀ {n out data}, Adxl355.accPopFrontN n s.data = some (out, data) →
      s.data = out ++ data := by
    intro n out data popped
    rw [Adxl355.accPopFrontN_eq] at popped
    cases popped
    exact (List.take_append_drop n s.data).symm
  cases step with
  | pushBack a _ => rfl
  | testSize _ => exact List.append_nil _
  | @popFront a data _ popped =>
      cases content : s.data with
      | nil => simp [content, Adxl355.accPopFront] at popped
      | cons front rest =>
          rw [content] at popped
          cases popped
          exact List.append_nil _
  | popFrontN k n _ popped =>
      exact (List.append_nil _).trans (split popped)
  | readSize k _ => exact List.append_nil _
  | popAll k _ popped =>
      exact (List.append_nil _).trans (split popped)

/-- The size is one over the limit at most, and while the task waits not over it. -/
def AccState.Bounded (s : AccState) : Prop :=
  s.data.length ≤ maxNumberInDeque + 1 ∧ (s.task = .waiting → s.data.length ≤ maxNumberInDeque)

theorem AccState.Bounded.shrink {s t : AccState} (bounded : s.Bounded)
    (fewer : t.data.length ≤ s.data.length) (task : t.task = s.task) : t.Bounded := by
  obtain ⟨size, waiting⟩ := bounded
  constructor
  · omega
  · intro at_
    rw [task] at at_
    exact Nat.le_trans fewer (waiting at_)

theorem AccState.Bounded.step {s t : AccState} {l : AccEvent} (bounded : s.Bounded)
    (step : AccStep s l t) : t.Bounded := by
  have conserved := congrArg List.length step.conserves
  simp only [List.length_append] at conserved
  cases step with
  | pushBack a at_ =>
      have size := bounded.2 at_
      constructor
      · simpa [Adxl355.accPushBack] using size
      · exact fun at_ => nomatch at_
  | testSize at_ =>
      refine ⟨bounded.1, fun waiting => ?_⟩
      apply Nat.le_of_not_lt
      intro large
      have trimming : (if s.data.length > maxNumberInDeque then AccMeasureTask.trimming
        else .waiting) = .waiting := waiting
      rw [if_pos large] at trimming
      cases trimming
  | popFront at_ popped =>
      have size := bounded.1
      simp only [AccEvent.pushed, AccEvent.removed, List.length_nil, List.length_singleton]
        at conserved
      exact ⟨by dsimp only; omega, fun _ => by dsimp only; omega⟩
  | popFrontN k n _ popped =>
      simp only [AccEvent.pushed, List.length_nil] at conserved
      exact bounded.shrink (by dsimp only; omega) rfl
  | readSize k _ => exact bounded
  | popAll k _ popped =>
      simp only [AccEvent.pushed, List.length_nil] at conserved
      exact bounded.shrink (by dsimp only; omega) rfl

/-- Every sample pushed has been removed in its turn or is still in the deque, the deque is
never more than one sample over its limit, and a call that removes `n` samples gets the
oldest ones. -/
theorem accMeasure_conserves {h : List (AccEvent × AccState)} {s : AccState}
    (run : Run AccStep {} h s) :
    emitted AccEvent.pushed h = emitted AccEvent.removed h ++ s.data ∧
      s.data.length ≤ maxNumberInDeque + 1 ∧
      ∀ n, Adxl355.accPopFrontN n s.data = some (s.data.take n, s.data.drop n) ∧
        (s.data.take n).length = min n s.data.length := by
  have bounded : s.Bounded :=
    run.invariant ⟨Nat.zero_le _, fun _ => Nat.zero_le _⟩ fun bounded step => bounded.step step
  have conserved := run.conserved (fun step => step.conserves)
  exact ⟨conserved, bounded.1, fun n => ⟨Adxl355.accPopFrontN_eq n s.data, List.length_take⟩⟩

/-- An `AccPopFrontN` between the two halves of another thread's `AccPopAll`, which then
finds the deque empty. -/
theorem accMeasure_conserves_popAll :
    ∃ h s, Run AccStep {} h s ∧ h.length = 4 ∧
      emitted AccEvent.pushed h = emitted AccEvent.removed h ++ s.data ∧
      s.data.length ≤ maxNumberInDeque + 1 ∧
      ∀ n, Adxl355.accPopFrontN n s.data = some (s.data.take n, s.data.drop n) ∧
        (s.data.take n).length = min n s.data.length := by
  let a : Acc3 := ⟨1, 2, 3, 4⟩
  have pushed : Run AccStep {} _ _ := .step .nil (.pushBack a rfl)
  have sized := Run.step pushed (.readSize 0 rfl)
  have popped := Run.step sized (@AccStep.popFrontN _ [a] [] 1 7 rfl rfl)
  have run := Run.step popped (@AccStep.popAll _ 1 [] [] 0 rfl rfl)
  exact ⟨_, _, run, rfl, accMeasure_conserves run⟩

/-! ### Trimming -/

/-- The task is about to take the front of an empty deque. -/
def AccState.PopsEmpty (s : AccState) : Prop :=
  s.task = .trimming ∧ Adxl355.accPopFront s.data = none

/-- A consumer takes all samples while the task is about to drop the oldest. -/
def AccState.Drained (s : AccState) : AccEvent → Prop
  | .popFrontN _ n _ => s.task = .trimming ∧ s.data.length ≤ n
  | .popAll k _ => s.task = .trimming ∧ ∃ n, s.sizes k = some n ∧ s.data.length ≤ n
  | _ => False

theorem accPopFront_eq_none {data : List Acc3} : Adxl355.accPopFront data = none ↔ data = [] := by
  cases data with
  | nil => exact iff_of_true rfl rfl
  | cons a data => exact iff_of_false nofun nofun

/-- From a nonempty deque, or one that is not trimmed, only a consumer that drains it leads to
an empty one that is. -/
theorem AccStep.popsEmpty_iff {s t : AccState} {e : AccEvent} (full : ¬ s.PopsEmpty)
    (step : AccStep s e t) : t.PopsEmpty ↔ s.Drained e := by
  have dropped : ∀ {n out data}, Adxl355.accPopFrontN n s.data = some (out, data) →
      (Adxl355.accPopFront data = none ↔ s.data.length ≤ n) := by
    intro n out data popped
    rw [Adxl355.accPopFrontN_eq] at popped
    cases popped
    rw [accPopFront_eq_none, List.drop_eq_nil_iff]
  cases step with
  | pushBack a _ => exact iff_of_false (fun empty => nomatch empty.1) id
  | testSize _ =>
      refine iff_of_false ?_ id
      rintro ⟨trimming, empty⟩
      have large : s.data.length > maxNumberInDeque := by
        by_contra small
        rw [if_neg small] at trimming
        cases trimming
      have empty : s.data = [] := accPopFront_eq_none.mp empty
      rw [empty] at large
      exact Nat.not_lt_zero _ large
  | popFront _ _ => exact iff_of_false (fun empty => nomatch empty.1) id
  | popFrontN k n _ popped => exact and_congr_right fun _ => dropped popped
  | readSize k _ => exact iff_of_false full id
  | @popAll n _ _ k size popped =>
      refine and_congr_right fun _ => (dropped popped).trans ⟨fun all => ⟨n, size, all⟩, ?_⟩
      rintro ⟨n', size', all⟩
      rw [size] at size'
      cases size'
      exact all

/-- In no moment of a run is the front of an empty deque about to be taken exactly if no
consumer drains the deque between the test of the size and the removal. -/
theorem accPopFront_nonempty_iff {h : List (AccEvent × AccState)} {s : AccState}
    (run : Run AccStep {} h s) :
    (∀ h', h' <:+ h → ¬ (stateAfter {} h').PopsEmpty) ↔
      ∀ e u h', (e, u) :: h' <:+ h → ¬ (stateAfter {} h').Drained e := by
  refine run.always_iff (fun empty => nomatch empty.1) fun earlier full last => ?_
  rw [earlier.stateAfter_eq] at full ⊢
  exact not_congr (last.popsEmpty_iff full)

/-- No consumer drains the deque at a wrong moment of the run. -/
def Undrained (h : List (AccEvent × AccState)) : Prop :=
  ∀ e u h', (e, u) :: h' <:+ h → ¬ (stateAfter {} h').Drained e

theorem Undrained.cons {h : List (AccEvent × AccState)} {e : AccEvent} (before : Undrained h)
    (here : ¬ (stateAfter {} h).Drained e) (u : AccState) : Undrained ((e, u) :: h) :=
  forall_steps_cons.mpr ⟨here, before⟩

/-- The task fills the deque up to its limit. -/
theorem exists_filled (n : Nat) (few : n ≤ maxNumberInDeque) :
    ∃ h data, Run AccStep {} h { data } ∧ data.length = n ∧ Undrained h := by
  induction n with
  | zero => exact ⟨[], [], .nil, rfl, forall_steps_nil⟩
  | succ n ih =>
      obtain ⟨h, data, run, length, undrained⟩ := ih (Nat.le_of_succ_le few)
      have pushed := run.step (.pushBack ⟨0, 0, 0, 0⟩ rfl)
      have tested := pushed.step (.testSize rfl)
      have size : (Adxl355.accPushBack ⟨0, 0, 0, 0⟩ data).length = n + 1 := by
        rw [Adxl355.accPushBack, List.length_append, length]
        rfl
      have small : ¬ (Adxl355.accPushBack ⟨0, 0, 0, 0⟩ data).length > maxNumberInDeque := by
        omega
      simp only [if_neg small] at tested
      exact ⟨_, _, tested, size, (undrained.cons id _).cons id _⟩

/-- The task has found one sample too many and is about to drop the oldest. -/
theorem exists_trimming :
    ∃ h data, Run AccStep {} h { data, task := .trimming } ∧
      data.length = maxNumberInDeque + 1 ∧ Undrained h := by
  obtain ⟨h, data, run, length, undrained⟩ := exists_filled maxNumberInDeque (Nat.le_refl _)
  have pushed := run.step (.pushBack ⟨0, 0, 0, 0⟩ rfl)
  have tested := pushed.step (.testSize rfl)
  have size : (Adxl355.accPushBack ⟨0, 0, 0, 0⟩ data).length = maxNumberInDeque + 1 := by
    rw [Adxl355.accPushBack, List.length_append, length]
    rfl
  have large : (Adxl355.accPushBack ⟨0, 0, 0, 0⟩ data).length > maxNumberInDeque := by omega
  simp only [if_pos large] at tested
  exact ⟨_, _, tested, size, (undrained.cons id _).cons id _⟩

/-- Between the test and the removal a consumer takes seven samples, which leaves enough. -/
theorem accPopFront_nonempty_iff_trimmed :
    ∃ h s a, Run AccStep {} h s ∧ h.head?.map Prod.fst = some (.popFront a) ∧
      s.data.length + 7 = maxNumberInDeque ∧
      ∀ h', h' <:+ h → ¬ (stateAfter {} h').PopsEmpty := by
  obtain ⟨h, data, run, length, undrained⟩ := exists_trimming
  have many : 8 ≤ data.length := by
    rw [length]
    decide
  have taken := run.step (.popFrontN 0 7 rfl (Adxl355.accPopFrontN_eq 7 data))
  have kept : ¬ (stateAfter {} h).Drained (.popFrontN 0 7 (data.take 7)) := by
    rw [run.stateAfter_eq]
    rintro ⟨-, few⟩
    exact absurd many (Nat.not_le_of_lt (Nat.lt_succ_of_le few))
  match rest : data.drop 7 with
  | [] => exact absurd (List.drop_eq_nil_iff.mp rest) (by omega)
  | a :: left =>
      have popped : Adxl355.accPopFront (data.drop 7) = some (a, left) := by rw [rest]; rfl
      have size : left.length + 7 = maxNumberInDeque := by
        have lengths := congrArg List.length rest
        rw [List.length_drop, List.length_cons] at lengths
        omega
      have trimmed := taken.step (.popFront rfl popped)
      refine ⟨_, _, a, trimmed, rfl, size, (accPopFront_nonempty_iff trimmed).mpr ?_⟩
      exact (undrained.cons kept _).cons id _

/-- With the deque one sample over its limit, a consumer takes everything between the test and
the removal. -/
theorem accPopFront_empty :
    ∃ h s, Run AccStep {} h s ∧ ¬ ∀ h', h' <:+ h → ¬ (stateAfter {} h').PopsEmpty := by
  obtain ⟨h, data, run, _⟩ := exists_trimming
  have drained := run.step (.popFrontN 0 data.length rfl (Adxl355.accPopFrontN_eq _ _))
  refine ⟨_, _, drained, fun full => full _ List.suffix_rfl ⟨rfl, ?_⟩⟩
  exact accPopFront_eq_none.mpr List.drop_length

end Lra
