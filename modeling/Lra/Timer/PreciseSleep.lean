import Lra.Number.RunningMean
import Mathlib.Algebra.Order.Floor.Semiring
import Mathlib.Analysis.Real.Sqrt
import Mathlib.Tactic.Linarith

/-!
# Sleeping precisely

`PreciseSleepms` sleeps in short pieces while the time left exceeds its estimate of a piece,
and spins for the rest. The estimate comes from a mean and a spread that are kept from call to
call. Times are exact, in milliseconds; what the clock and the flag show is given.
-/

namespace Lra

/-- The static variables of `PreciseSleepms`. Those of type `double` are `none` from the moment
on at which they are no number. -/
structure SleepStats (K : Type) where
  mean : Option K
  estimate : Option K
  m2 : Option K
  count : UInt64

/-- What the sleeping loop meets in one round: `push_flag_` when it is tested, and how long the
sleep took. -/
structure SleepRound (K : Type) where
  pushFlag : Bool := false
  observed : K

/-- What the spin lock meets in one round: the time since its start, and `push_flag_`. -/
structure SpinRound (K : Type) where
  elapsed : K
  pushFlag : Bool := false

structure SleepCall (K : Type) where
  ms : K
  enableInterruptedByNewEvent : Bool := false
  rounds : List (SleepRound K)
  spins : List (SpinRound K) := []

/-- Where the sleeping loop is when it has met its rounds. -/
structure SleepLoop (K : Type) where
  /-- Whether it was interrupted, if it has ended. -/
  interrupted : Option Bool
  ms : K
  stats : SleepStats K
  /-- The statistics after each sleep. -/
  passed : List (SleepStats K)

/-- The loop with one more sleep before it. -/
def SleepLoop.after {K : Type} (rest : SleepLoop K) (s : SleepStats K) : SleepLoop K :=
  { rest with passed := s :: rest.passed }

namespace PreciseSleep

variable {K : Type} [Field K] [LinearOrder K]

/-! ### The code -/

/-- Division by a counter; nothing divided by 0 is a number. -/
def perCount (x : K) (n : UInt64) : Option K := if n = 0 then none else some (x / n.toNat)

/-- `m2 / (count - 1)`. -/
def radicand (s : SleepStats K) : Option K := s.m2.bind (perCount · (s.count - 1))

/-- `ms > estimate`, which is false where the estimate is no number. -/
def exceeds (ms : K) : Option K → Bool
  | some estimate => ms > estimate
  | none => false

section Code

variable (sqrt : K → K)

/-- The square root of a number that is not negative. -/
def root (x : K) : Option K := if x < 0 then none else some (sqrt x)

/-- What a sleep that took `observed` does to the statistics. -/
def observe (X observed : K) (s : SleepStats K) : SleepStats K :=
  let count := s.count + 1
  let delta := s.mean.map (observed - ·)
  let mean := do return (← s.mean) + (← perCount (← delta) count)
  let m2 := do return (← s.m2) + (← delta) * (observed - (← mean))
  let s := { s with mean, m2, count }
  let stddev := (radicand s).bind (root sqrt)
  { s with estimate := do return (← mean) + X * (← stddev) }

def sleepLoop (enable : Bool) (X : K) : K → SleepStats K → List (SleepRound K) → SleepLoop K
  | ms, s, [] => ⟨if exceeds ms s.estimate then none else some false, ms, s, []⟩
  | ms, s, r :: rounds =>
    if exceeds ms s.estimate then
      if enable && r.pushFlag then ⟨some true, ms, s, []⟩
      else
        (sleepLoop enable X (ms - r.observed) (observe sqrt X r.observed s) rounds).after
          (observe sqrt X r.observed s)
    else ⟨some false, ms, s, []⟩

/-- Whether the spin lock was interrupted, if its rounds are enough for it to end. -/
def spinLock (enable : Bool) (ms : K) : List (SpinRound K) → Option Bool
  | [] => none
  | r :: rounds =>
    if r.elapsed < ms then
      if enable && r.pushFlag then some true else spinLock enable ms rounds
    else some false

/-- The static variables at the start of the loop. The first call sets them up. -/
def enter (largerThan7ms : Bool) (statics : Option (SleepStats K)) : SleepStats K :=
  let s := statics.getD ⟨some 0, some (if largerThan7ms then 5 else 1 / 2), some 0, 1⟩
  { s with mean := s.estimate }

/-- The sleeping loop of a call. -/
def loopOf (statics : Option (SleepStats K)) (c : SleepCall K) : SleepLoop K :=
  let largerThan7ms : Bool := c.ms ≥ 7
  let X := if largerThan7ms then 1 else 2
  sleepLoop sqrt c.enableInterruptedByNewEvent X c.ms (enter largerThan7ms statics) c.rounds

/-- `PreciseSleepms`: what it returns, if it does, and the static variables afterwards. -/
def preciseSleepms (statics : Option (SleepStats K)) (c : SleepCall K) :
    Option Bool × Option (SleepStats K) :=
  if c.ms < 0 then (some false, statics)
  else
    let loop := loopOf sqrt statics c
    match loop.interrupted with
    | some false => (spinLock c.enableInterruptedByNewEvent loop.ms c.spins, some loop.stats)
    | ended => (ended, some loop.stats)

/-- The static variables after some calls. -/
def staticsAfter (calls : List (SleepCall K)) : Option (SleepStats K) :=
  calls.foldl (fun statics c => (preciseSleepms sqrt statics c).2) none

/-- How many times a call sleeps. -/
def sleeps (statics : Option (SleepStats K)) (c : SleepCall K) : Nat :=
  if c.ms < 0 then 0 else (loopOf sqrt statics c).passed.length

/-- How many times some calls sleep. -/
def sleepsIn : Option (SleepStats K) → List (SleepCall K) → Nat
  | _, [] => 0
  | statics, c :: calls =>
    sleeps sqrt statics c + sleepsIn (preciseSleepms sqrt statics c).2 calls

end Code

/-! ### One sleep -/

/-- The statistics after `n` sleeps, while the counter has not run over. -/
structure Live (n : Nat) (s : SleepStats K) : Prop where
  few : n < 2 ^ 64 - 1
  count : s.count.toNat = n + 1
  mean : ∃ m, s.mean = some m ∧ 0 < m
  estimate : ∃ e, s.estimate = some e ∧ 0 < e
  m2 : ∃ v, s.m2 = some v ∧ 0 ≤ v

/-- The statistics after `n` sleeps. Once the counter has run over there is no estimate, and
without one there is no more sleep. -/
def Reached (n : Nat) (s : SleepStats K) : Prop :=
  Live n s ∨ n = 2 ^ 64 - 1 ∧ s.estimate = none

section Observe

variable {sqrt : K → K} {X observed m v : K} {s : SleepStats K} {n : Nat}

theorem count_observe : (observe sqrt X observed s).count - 1 = s.count :=
  UInt64.add_sub_cancel s.count 1

variable (sqrt X observed) in
/-- Without a division by 0 the variables are the running mean and spread. -/
theorem observe_eq (hm : s.mean = some m) (hv : s.m2 = some v) (more : s.count + 1 ≠ 0)
    (some_before : s.count ≠ 0) :
    (observe sqrt X observed s).mean
        = some (RunningMean.next m observed ((s.count + 1).toNat : K)) ∧
      (observe sqrt X observed s).m2
        = some (v + RunningMean.spread m observed ((s.count + 1).toNat : K)) ∧
      radicand (observe sqrt X observed s)
        = some ((v + RunningMean.spread m observed ((s.count + 1).toNat : K)) / s.count.toNat) := by
  have divides (x : K) : perCount x (s.count + 1) = some (x / (s.count + 1).toNat) := if_neg more
  have mean : (observe sqrt X observed s).mean
      = some (RunningMean.next m observed ((s.count + 1).toNat : K)) := by
    simp only [observe, hm, Option.map_some, divides]
    rfl
  have m2 : (observe sqrt X observed s).m2
      = some (v + RunningMean.spread m observed ((s.count + 1).toNat : K)) := by
    simp only [observe, hm, hv, Option.map_some, divides]
    rfl
  refine ⟨mean, m2, ?_⟩
  rw [radicand, m2, count_observe]
  exact if_neg some_before

theorem estimate_observe {r : K} (mean : (observe sqrt X observed s).mean = some m)
    (radicand_eq : radicand (observe sqrt X observed s) = some r) (nonneg : 0 ≤ r) :
    (observe sqrt X observed s).estimate = some (m + X * sqrt r) := by
  have computed : (observe sqrt X observed s).estimate = do
      return (← (observe sqrt X observed s).mean) +
        X * (← (radicand (observe sqrt X observed s)).bind (root sqrt)) := rfl
  have taken : root sqrt r = some (sqrt r) := if_neg nonneg.not_gt
  rw [computed, mean, radicand_eq, Option.bind_some, taken]
  rfl

theorem Live.count_ne_zero (live : Live n s) : s.count ≠ 0 := by
  intro zero
  have count := live.count
  rw [zero] at count
  cases count

theorem Live.count_succ (live : Live n s) (few : n + 1 < 2 ^ 64 - 1) :
    (s.count + 1).toNat = n + 2 := by
  have one : (1 : UInt64).toNat = 1 := rfl
  rw [UInt64.toNat_add, live.count, one]
  exact Nat.mod_eq_of_lt (by omega)

theorem Live.count_succ_ne_zero (live : Live n s) (few : n + 1 < 2 ^ 64 - 1) :
    s.count + 1 ≠ 0 := by
  intro zero
  have count := live.count_succ few
  rw [zero] at count
  cases count

/-- The sleep after which the counter is 0 leaves no estimate. -/
theorem Live.observe_last (live : Live n s) (last : n + 1 = 2 ^ 64 - 1) :
    (observe sqrt X observed s).estimate = none := by
  have zero : s.count + 1 = 0 := by
    rw [← UInt64.toNat_inj, UInt64.toNat_add, live.count, last]
    rfl
  have divides (x : K) : perCount x (s.count + 1) = none := if_pos zero
  obtain ⟨m, hm, _⟩ := live.mean
  simp only [observe, hm, Option.map_some, divides]
  rfl

variable [IsStrictOrderedRing K]

/-- Every other sleep keeps the mean and the estimate positive, and takes no root of a negative
number. -/
theorem Live.observe (live : Live n s) (roots : ∀ x, 0 ≤ sqrt x) (X_nonneg : 0 ≤ X)
    (observed_pos : 0 < observed) (few : n + 1 < 2 ^ 64 - 1) :
    Live (n + 1) (observe sqrt X observed s) ∧
      ∃ r, radicand (observe sqrt X observed s) = some r ∧ 0 ≤ r := by
  obtain ⟨m, hm, m_pos⟩ := live.mean
  obtain ⟨v, hv, v_nonneg⟩ := live.m2
  have count := live.count_succ few
  have more := live.count_succ_ne_zero few
  have one_le : (1 : K) ≤ ((s.count + 1).toNat : K) := by
    rw [count, Nat.one_le_cast]
    exact Nat.le_add_left 1 (n + 1)
  obtain ⟨mean, m2, radicand_eq⟩ := observe_eq sqrt X observed hm hv more live.count_ne_zero
  have m2_nonneg : 0 ≤ v + RunningMean.spread m observed ((s.count + 1).toNat : K) :=
    add_nonneg v_nonneg (RunningMean.spread_nonneg one_le)
  have r_nonneg := div_nonneg m2_nonneg (Nat.cast_nonneg (α := K) s.count.toNat)
  have m_pos' := RunningMean.next_pos m_pos observed_pos one_le
  refine ⟨⟨few, count, ⟨_, mean, m_pos'⟩, ⟨_, estimate_observe mean radicand_eq r_nonneg, ?_⟩,
    ⟨_, m2, m2_nonneg⟩⟩, ⟨_, radicand_eq, r_nonneg⟩⟩
  exact add_pos_of_pos_of_nonneg m_pos' (mul_nonneg X_nonneg (roots _))

end Observe

/-! ### The loop -/

section Loop

variable [IsStrictOrderedRing K] {sqrt : K → K} {enable : Bool} {X ms d : K} {s : SleepStats K}
  {rounds : List (SleepRound K)} {n : Nat}

/-- The estimate is positive, and it was computed from a number that is not negative. -/
def Sound (s : SleepStats K) : Prop :=
  (∃ e, s.estimate = some e ∧ 0 < e) ∧ ∃ r, radicand s = some r ∧ 0 ≤ r

omit [IsStrictOrderedRing K] in
/-- The loop goes on only while the counter has not run over and there is time left. -/
theorem Reached.of_exceeds (reached : Reached n s) (exceeded : exceeds ms s.estimate = true) :
    Live n s ∧ 0 < ms := by
  rcases reached with live | ⟨_, none⟩
  · obtain ⟨e, he, e_pos⟩ := live.estimate
    rw [he] at exceeded
    exact ⟨live, e_pos.trans (decide_eq_true_iff.mp exceeded)⟩
  · rw [none] at exceeded
    cases exceeded

/-- A sleep that the loop reaches. -/
theorem Live.reached_observe {observed : K} (live : Live n s) (roots : ∀ x, 0 ≤ sqrt x)
    (X_nonneg : 0 ≤ X) (observed_pos : 0 < observed) :
    Reached (n + 1) (PreciseSleep.observe sqrt X observed s) := by
  have few := live.few
  by_cases last : n + 1 = 2 ^ 64 - 1
  · exact .inr ⟨last, live.observe_last last⟩
  · exact .inl (live.observe roots X_nonneg observed_pos (by omega)).1

/-- A loop that began after `n` sleeps: the state in which it is, and those its sleeps left. -/
structure LoopReached (n : Nat) (l : SleepLoop K) : Prop where
  stats : Reached (n + l.passed.length) l.stats
  divisors : ∀ t ∈ l.passed, t.count - 1 ≠ 0
  sounds : n + l.passed.length < 2 ^ 64 - 1 → ∀ t ∈ l.passed, Sound t

omit [IsStrictOrderedRing K] in
theorem Reached.loopReached (reached : Reached n s) (interrupted : Option Bool) (ms : K) :
    LoopReached n ⟨interrupted, ms, s, []⟩ := ⟨reached, by simp, by simp⟩

omit [IsStrictOrderedRing K] in
/-- One more sleep before the loop. -/
theorem LoopReached.after {l : SleepLoop K} (rest : LoopReached (n + 1) l)
    (divisor : s.count - 1 ≠ 0) (sound : n + 1 < 2 ^ 64 - 1 → Sound s) :
    LoopReached n (l.after s) := by
  have length : n + (l.after s).passed.length = n + 1 + l.passed.length := by
    rw [SleepLoop.after, List.length_cons]
    omega
  constructor
  · rw [length]
    exact rest.stats
  · intro t member
    rcases List.mem_cons.mp member with rfl | later
    · exact divisor
    · exact rest.divisors t later
  · rw [length]
    intro few t member
    rcases List.mem_cons.mp member with rfl | later
    · exact sound (by omega)
    · exact rest.sounds few t later

theorem loopReached (roots : ∀ x, 0 ≤ sqrt x) (X_nonneg : 0 ≤ X) (reached : Reached n s)
    (observed_pos : ∀ r ∈ rounds, 0 < r.observed) :
    LoopReached n (sleepLoop sqrt enable X ms s rounds) := by
  fun_induction sleepLoop sqrt enable X ms s rounds generalizing n with
  | case1 ms s => exact reached.loopReached _ ms
  | case2 ms s => exact reached.loopReached _ ms
  | case3 ms s r rounds exceeded goesOn ih =>
      obtain ⟨live, _⟩ := reached.of_exceeds exceeded
      have here_pos := observed_pos r List.mem_cons_self
      have rest := ih (live.reached_observe roots X_nonneg here_pos)
        fun r' member => observed_pos r' (List.mem_cons_of_mem _ member)
      refine rest.after ?_ ?_
      · rw [count_observe]
        exact live.count_ne_zero
      · intro few
        obtain ⟨live', taken⟩ := live.observe roots X_nonneg here_pos few
        exact ⟨live'.estimate, taken⟩
  | case4 ms s => exact reached.loopReached _ ms

/-- Each sleep takes its share of the time, and so does each round of a loop that goes on. -/
theorem time_of_sleepLoop (roots : ∀ x, 0 ≤ sqrt x) (X_nonneg : 0 ≤ X) (reached : Reached n s)
    (d_pos : 0 < d) (slow : ∀ r ∈ rounds, d ≤ r.observed) :
    (∀ k < (sleepLoop sqrt enable X ms s rounds).passed.length, (k : K) * d < ms) ∧
      ((sleepLoop sqrt enable X ms s rounds).interrupted = none →
        (rounds.length : K) * d < ms) := by
  fun_induction sleepLoop sqrt enable X ms s rounds generalizing n with
  | case1 ms s =>
      refine ⟨nofun, ?_⟩
      intro goesOn
      have exceeded : exceeds ms s.estimate = true := by
        by_contra stops
        rw [if_neg stops] at goesOn
        cases goesOn
      rw [List.length_nil, Nat.cast_zero, zero_mul]
      exact (reached.of_exceeds exceeded).2
  | case2 => exact ⟨nofun, nofun⟩
  | case3 ms s r rounds exceeded goesOn ih =>
      obtain ⟨live, ms_pos⟩ := reached.of_exceeds exceeded
      have here := slow r List.mem_cons_self
      obtain ⟨sleeps, endless⟩ := ih
        (live.reached_observe roots X_nonneg (d_pos.trans_le here))
        fun r' member => slow r' (List.mem_cons_of_mem _ member)
      have one_more {k : Nat} (within : (k : K) * d < ms - r.observed) :
          ((k + 1 : Nat) : K) * d < ms := by
        rw [Nat.cast_succ, add_mul, one_mul]
        linarith
      refine ⟨?_, fun goesOn => one_more (endless goesOn)⟩
      intro k within
      cases k with
      | zero =>
          rw [Nat.cast_zero, zero_mul]
          exact ms_pos
      | succ k => exact one_more (sleeps k (Nat.lt_of_succ_lt_succ within))
  | case4 => exact ⟨nofun, nofun⟩

end Loop

/-! ### Calls -/

section Calls

variable {sqrt : K → K} {statics : Option (SleepStats K)} {c : SleepCall K}
  {calls : List (SleepCall K)} {n : Nat}

/-- The static variables after `n` sleeps. -/
def StaticsReached (n : Nat) : Option (SleepStats K) → Prop
  | none => n = 0
  | some s => Reached n s

theorem sleepsIn_concat (statics : Option (SleepStats K)) (calls : List (SleepCall K))
    (c : SleepCall K) :
    sleepsIn sqrt statics (calls ++ [c]) = sleepsIn sqrt statics calls +
      sleeps sqrt (calls.foldl (fun statics c => (preciseSleepms sqrt statics c).2) statics) c := by
  induction calls generalizing statics with
  | nil => exact Nat.add_comm ..
  | cons c' calls ih =>
      rw [List.cons_append, sleepsIn, ih, sleepsIn, Nat.add_assoc]
      rfl

theorem length_passed_le (enable : Bool) (X ms : K) (s : SleepStats K)
    (rounds : List (SleepRound K)) :
    (sleepLoop sqrt enable X ms s rounds).passed.length ≤ rounds.length := by
  induction rounds generalizing ms s with
  | nil => exact Nat.le_refl 0
  | cons r rounds ih =>
      rw [sleepLoop]
      split
      · split
        · exact Nat.zero_le _
        · exact Nat.succ_le_succ (ih _ _)
      · exact Nat.zero_le _

/-- The calls sleep at most once for each of their rounds. -/
theorem sleepsIn_le (statics : Option (SleepStats K)) (calls : List (SleepCall K)) :
    sleepsIn sqrt statics calls ≤ (calls.map (·.rounds.length)).sum := by
  induction calls generalizing statics with
  | nil => exact Nat.le_refl 0
  | cons c calls ih =>
      have here : sleeps sqrt statics c ≤ c.rounds.length := by
        rw [sleeps]
        split
        · exact Nat.zero_le _
        · exact length_passed_le ..
      rw [sleepsIn, List.map_cons, List.sum_cons]
      exact Nat.add_le_add here (ih _)

theorem preciseSleepms_statics (nonneg : 0 ≤ c.ms) :
    (preciseSleepms sqrt statics c).2 = some (loopOf sqrt statics c).stats := by
  rw [preciseSleepms, if_neg nonneg.not_gt]
  dsimp only
  split <;> rfl

variable [IsStrictOrderedRing K]

theorem X_nonneg (largerThan7ms : Bool) : (0 : K) ≤ if largerThan7ms then 1 else 2 := by
  cases largerThan7ms <;> norm_num

/-- The mean begins as the estimate of the calls before. -/
theorem StaticsReached.enter (reached : StaticsReached n statics) (largerThan7ms : Bool) :
    Reached n (enter largerThan7ms statics) := by
  cases statics with
  | none =>
      have zero : n = 0 := reached
      subst zero
      have first : ∃ e : K, some (if largerThan7ms then 5 else 1 / 2) = some e ∧ 0 < e := by
        refine ⟨_, rfl, ?_⟩
        cases largerThan7ms <;> norm_num
      exact .inl ⟨by decide, rfl, first, first, ⟨0, rfl, le_rfl⟩⟩
  | some s =>
      rcases reached with live | ⟨last, none⟩
      · exact .inl ⟨live.few, live.count, live.estimate, live.estimate, live.m2⟩
      · exact .inr ⟨last, none⟩

theorem StaticsReached.loopReached (reached : StaticsReached n statics) (roots : ∀ x, 0 ≤ sqrt x)
    (observed_pos : ∀ r ∈ c.rounds, 0 < r.observed) :
    LoopReached n (loopOf sqrt statics c) := by
  exact PreciseSleep.loopReached roots (X_nonneg _) (reached.enter _) observed_pos

theorem StaticsReached.after_call (reached : StaticsReached n statics) (roots : ∀ x, 0 ≤ sqrt x)
    (observed_pos : ∀ r ∈ c.rounds, 0 < r.observed) :
    StaticsReached (n + sleeps sqrt statics c) (preciseSleepms sqrt statics c).2 := by
  by_cases negative : c.ms < 0
  · rw [sleeps, if_pos negative, preciseSleepms, if_pos negative]
    exact reached
  · rw [sleeps, if_neg negative, preciseSleepms_statics (not_lt.mp negative)]
    exact (reached.loopReached roots observed_pos).stats

theorem StaticsReached.after_calls (reached : StaticsReached n statics) (roots : ∀ x, 0 ≤ sqrt x)
    (observed_pos : ∀ c ∈ calls, ∀ r ∈ c.rounds, 0 < r.observed) :
    StaticsReached (n + sleepsIn sqrt statics calls)
      (calls.foldl (fun statics c => (preciseSleepms sqrt statics c).2) statics) := by
  induction calls generalizing n statics with
  | nil => exact reached
  | cons c calls ih =>
      rw [sleepsIn, ← Nat.add_assoc]
      exact ih (reached.after_call roots (observed_pos c List.mem_cons_self))
        fun c' member => observed_pos c' (List.mem_cons_of_mem _ member)

theorem staticsReached_staticsAfter (roots : ∀ x, 0 ≤ sqrt x)
    (observed_pos : ∀ c ∈ calls, ∀ r ∈ c.rounds, 0 < r.observed) :
    StaticsReached (sleepsIn sqrt none calls) (staticsAfter sqrt calls) := by
  have start : StaticsReached 0 (none : Option (SleepStats K)) := rfl
  have reached := start.after_calls roots observed_pos
  rwa [Nat.zero_add] at reached

/-- A call sleeps at most `⌈ms / d⌉` times, and that many rounds are enough for its loop to
end. -/
structure Ends [FloorSemiring K] (d : K) (c : SleepCall K) (l : SleepLoop K) : Prop where
  few : l.passed.length ≤ ⌈c.ms / d⌉₊
  ends : ⌈c.ms / d⌉₊ ≤ c.rounds.length → l.interrupted ≠ none

/-- The estimate is positive in every state, and computed from a number that is not negative. -/
structure Holds (l : SleepLoop K) : Prop where
  estimate : ∃ e, l.stats.estimate = some e ∧ 0 < e
  passed : ∀ s ∈ l.passed, Sound s

theorem StaticsReached.ends [FloorSemiring K] {d : K} (reached : StaticsReached n statics)
    (roots : ∀ x, 0 ≤ sqrt x) (d_pos : 0 < d) (slow : ∀ r ∈ c.rounds, d ≤ r.observed) :
    Ends d c (loopOf sqrt statics c) := by
  obtain ⟨sleeps, endless⟩ :
      (∀ k < (loopOf sqrt statics c).passed.length, (k : K) * d < c.ms) ∧
        ((loopOf sqrt statics c).interrupted = none → (c.rounds.length : K) * d < c.ms) :=
    time_of_sleepLoop roots (X_nonneg _) (reached.enter _) d_pos slow
  have spent : c.ms ≤ (⌈c.ms / d⌉₊ : K) * d := (div_le_iff₀ d_pos).mp (Nat.le_ceil _)
  constructor
  · by_contra many
    exact (sleeps _ (not_le.mp many)).not_ge spent
  · intro enough goesOn
    have more : (⌈c.ms / d⌉₊ : K) * d ≤ c.rounds.length * d :=
      mul_le_mul_of_nonneg_right (Nat.cast_le.mpr enough) d_pos.le
    exact (endless goesOn).not_ge (spent.trans more)

end Calls

/-! ### With real times -/

section Real

variable {earlier : List (SleepCall ℝ)} {c : SleepCall ℝ} {d : ℝ}

/-- After any calls, a loop ends in time and never divides by 0 sleeps. Its estimates are
positive, and no root is taken of a negative number, exactly as long as the 64 bits of the
counter have sufficed. -/
theorem holds_iff (earlier_pos : ∀ c' ∈ earlier, ∀ r ∈ c'.rounds, 0 < r.observed)
    (nonneg : 0 ≤ c.ms) (d_pos : 0 < d) (slow : ∀ r ∈ c.rounds, d ≤ r.observed) :
    Ends d c (loopOf Real.sqrt (staticsAfter Real.sqrt earlier) c) ∧
      (∀ s ∈ (loopOf Real.sqrt (staticsAfter Real.sqrt earlier) c).passed, s.count - 1 ≠ 0) ∧
      (Holds (loopOf Real.sqrt (staticsAfter Real.sqrt earlier) c) ↔
        sleepsIn Real.sqrt none (earlier ++ [c]) < 2 ^ 64 - 1) := by
  have reached := staticsReached_staticsAfter Real.sqrt_nonneg earlier_pos
  have observed_pos : ∀ r ∈ c.rounds, 0 < r.observed :=
    fun r member => d_pos.trans_le (slow r member)
  have loop := reached.loopReached Real.sqrt_nonneg observed_pos
  have total : sleepsIn Real.sqrt none (earlier ++ [c]) = sleepsIn Real.sqrt none earlier +
      (loopOf Real.sqrt (staticsAfter Real.sqrt earlier) c).passed.length := by
    rw [sleepsIn_concat, sleeps, if_neg nonneg.not_gt]
    rfl
  rw [total]
  refine ⟨reached.ends Real.sqrt_nonneg d_pos slow, loop.divisors, ?_⟩
  constructor
  · intro holds
    rcases loop.stats with live | ⟨_, none⟩
    · exact live.few
    · obtain ⟨e, some, _⟩ := holds.estimate
      rw [none] at some
      cases some
  · intro few
    rcases loop.stats with live | ⟨last, _⟩
    · exact ⟨live.estimate, loop.sounds few⟩
    · exact absurd last few.ne

/-- A call that sleeps twice, with a spread of 2 at its end. -/
def spreadCall : SleepCall ℝ where
  ms := 10
  rounds := [⟨false, 3⟩, ⟨false, 7⟩]
  spins := [⟨1, false⟩]

theorem staticsAfter_spreadCall :
    staticsAfter Real.sqrt [spreadCall] = some ⟨some 5, some 7, some 8, 3⟩ := by
  have first : observe Real.sqrt 1 3 ⟨some 5, some 5, some 0, 1⟩ =
      ⟨some 4, some (4 + √2), some 2, 2⟩ := by
    simp [observe, perCount, radicand, root]
    norm_num
  have second : observe Real.sqrt 1 7 ⟨some 4, some (4 + √2), some 2, 2⟩ =
      ⟨some 5, some 7, some 8, 3⟩ := by
    have spread : √8 / √2 = 2 := by
      rw [← Real.sqrt_div (by norm_num), Real.sqrt_eq_iff_mul_self_eq] <;> norm_num
    simp [observe, perCount, radicand, root]
    norm_num [spread]
  have more : 4 + √2 < 7 := by
    have root : √2 < 3 := (Real.sqrt_lt' (by norm_num)).mpr (by norm_num)
    linarith
  have nonneg : 0 ≤ spreadCall.ms := by norm_num [spreadCall]
  rw [staticsAfter, List.foldl_cons, List.foldl_nil, preciseSleepms_statics nonneg]
  norm_num [loopOf, spreadCall, sleepLoop, enter, exceeds, first, second, more, SleepLoop.after]

/-- The call begins with the statistics of an earlier one. -/
theorem holds_iff_spreadCall :
    let c : SleepCall ℝ := ⟨20, false, [⟨false, 3⟩, ⟨false, 5⟩], []⟩
    Ends 3 c (loopOf Real.sqrt (staticsAfter Real.sqrt [spreadCall]) c) ∧
      (loopOf Real.sqrt (staticsAfter Real.sqrt [spreadCall]) c).passed.map (·.count) = [4, 5] ∧
      Holds (loopOf Real.sqrt (staticsAfter Real.sqrt [spreadCall]) c) := by
  intro c
  have earlier_pos : ∀ c' ∈ [spreadCall], ∀ r ∈ c'.rounds, 0 < r.observed := by
    norm_num [spreadCall]
  have slow : ∀ r ∈ c.rounds, 3 ≤ r.observed := by norm_num [c]
  obtain ⟨ends, -, holds⟩ := holds_iff earlier_pos (by norm_num [c]) (by norm_num) slow
  refine ⟨ends, ?_, holds.mpr ?_⟩
  · have first : observe Real.sqrt 1 3 ⟨some 7, some 7, some 8, 3⟩ =
        ⟨some 6, some (6 + √(20 / 3)), some 20, 4⟩ := by
      simp [observe, perCount, radicand, root]
      norm_num
    have more : 6 + √20 / √3 < 17 := by
      have root : √(20 / 3) < 5 := (Real.sqrt_lt' (by norm_num)).mpr (by norm_num)
      rw [← Real.sqrt_div (by norm_num)]
      linarith
    rw [staticsAfter_spreadCall]
    norm_num [loopOf, c, sleepLoop, enter, exceeds, first, more, SleepLoop.after]
    rfl
  · exact (sleepsIn_le none _).trans_lt (by decide)

end Real

/-! ### The counter runs over -/

section Overflow

variable [IsStrictOrderedRing K] {sqrt : K → K} {X ms m : K} {s : SleepStats K} {n : Nat}

/-- The statistics when every sleep took `m`. -/
structure Steady (m : K) (n : Nat) (s : SleepStats K) : Prop extends Live n s where
  mean_eq : s.mean = some m
  estimate_eq : s.estimate = some m
  m2_eq : s.m2 = some 0

omit [IsStrictOrderedRing K] in
theorem Steady.pos (steady : Steady m n s) : 0 < m := by
  obtain ⟨_, mean, pos⟩ := steady.mean
  rw [steady.mean_eq] at mean
  cases mean
  exact pos

omit [IsStrictOrderedRing K] in
/-- One more such sleep changes nothing but the counter. -/
theorem Steady.observe (steady : Steady m n s) (few : n + 1 < 2 ^ 64 - 1) (zero : sqrt 0 = 0) :
    Steady m (n + 1) (observe sqrt X m s) := by
  have pos := steady.pos
  obtain ⟨mean, m2, taken⟩ := observe_eq sqrt X m steady.mean_eq steady.m2_eq
    (steady.count_succ_ne_zero few) steady.count_ne_zero
  rw [RunningMean.next_self] at mean
  rw [RunningMean.spread_self, add_zero] at m2 taken
  rw [zero_div] at taken
  have estimate := estimate_observe mean taken le_rfl
  rw [zero, mul_zero, add_zero] at estimate
  exact ⟨⟨few, steady.count_succ few, ⟨m, mean, pos⟩, ⟨m, estimate, pos⟩, ⟨0, m2, le_rfl⟩⟩,
    mean, estimate, m2⟩

theorem Steady.exceeds {k : Nat} (steady : Steady m n s) (time : ((k + 1 : Nat) : K) * m < ms) :
    exceeds ms s.estimate = true := by
  rw [steady.estimate_eq]
  refine decide_eq_true_iff.mpr (lt_of_le_of_lt ?_ time)
  rw [Nat.cast_succ, add_mul, one_mul]
  exact le_add_of_nonneg_left (mul_nonneg (Nat.cast_nonneg k) steady.pos.le)

/-- Enough such sleeps, and there is no estimate. -/
theorem Steady.estimate_eq_none {k : Nat} (steady : Steady m n s)
    (last : n + k + 1 = 2 ^ 64 - 1) (zero : sqrt 0 = 0) (time : ((k + 1 : Nat) : K) * m < ms) :
    (sleepLoop sqrt false X ms s (List.replicate (k + 1) ⟨false, m⟩)).stats.estimate = none := by
  induction k generalizing n s ms with
  | zero =>
      rw [List.replicate_succ, sleepLoop, if_pos (steady.exceeds time), if_neg (by simp)]
      exact steady.observe_last last
  | succ k ih =>
      rw [List.replicate_succ, sleepLoop, if_pos (steady.exceeds time), if_neg (by simp)]
      refine ih (steady.observe (by omega) zero) (by omega) ?_
      rw [Nat.cast_succ, add_mul, one_mul] at time
      linarith

/-- A call that is always woken after 5 ms. -/
def longCall (sleeps : Nat) : SleepCall K where
  ms := 5 * 2 ^ 64
  rounds := List.replicate sleeps ⟨false, 5⟩

/-- It runs out of estimates. -/
theorem not_holds_longCall : 0 ≤ (longCall (2 ^ 64 - 1) : SleepCall ℝ).ms ∧
    (∀ r ∈ (longCall (2 ^ 64 - 1) : SleepCall ℝ).rounds, 5 ≤ r.observed) ∧
    ¬ Holds (loopOf Real.sqrt (staticsAfter Real.sqrt []) (longCall (2 ^ 64 - 1))) := by
  refine ⟨by norm_num [longCall], ?_, ?_⟩
  · intro r member
    rw [List.eq_of_mem_replicate member]
  · intro holds
    obtain ⟨e, estimate, _⟩ := holds.estimate
    have larger : decide ((longCall (2 ^ 64 - 1) : SleepCall ℝ).ms ≥ 7) = true := by
      norm_num [longCall]
    have steady : Steady (5 : ℝ) 0 (enter true none) := by
      have five : ∃ e : ℝ, some 5 = some e ∧ 0 < e := ⟨5, rfl, by norm_num⟩
      exact ⟨⟨by decide, rfl, five, five, ⟨0, rfl, le_rfl⟩⟩, rfl, rfl, rfl⟩
    have time : ((2 ^ 64 - 2 + 1 : Nat) : ℝ) * 5 < (longCall (2 ^ 64 - 1) : SleepCall ℝ).ms := by
      norm_num [longCall]
    have overflown := steady.estimate_eq_none (X := 1) (by decide) Real.sqrt_zero time
    rw [loopOf, larger] at estimate
    exact absurd (estimate.symm.trans overflown) (Option.some_ne_none e)

end Overflow

end PreciseSleep

end Lra
