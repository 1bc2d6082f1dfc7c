import Lra.Usb.PwmPlay
import Mathlib.Algebra.Order.Archimedean.Basic
import Mathlib.Algebra.Order.Field.Rat

/-!
# Laps of a recursive task

A command goes back to the queue with the time it had, counted from the first start. So
only the first lap is paced: later ones find every time already reached.
-/

namespace Lra

namespace PwmPlay

/-- The reading is at least `k` times the time stamp. -/
def NotBefore (count : Int64) (k : Nat) (tMs : UInt32) : Prop :=
  ∀ v ∈ Binary32.value (Float32.ofBits tMs).toModel.unpack, (k : Rat) * v ≤ count.toInt

/-- Whenever the last row is sent for the `k`-th time, it is not before `k` times its time. -/
def Paced (rows : List CsvRow) (clock : Clock) : Prop :=
  ∀ n s, play true rows clock n = some s → ∀ k, 0 < k →
    ∀ call, s.calls[k * (commands rows).length - 1]? = some call →
      ∀ last ∈ (commands rows).getLast?, NotBefore call.2 k last.tMs

section Laps

variable {rows : List CsvRow} {clock : Clock} {n : Nat} {s : PwmPlay}

theorem call_nonneg {call : RcwsPwmInfo × Int64} (at_ : play true rows clock n = some s)
    (mem : call ∈ s.calls) : 0 ≤ call.2 := by
  obtain ⟨i, read⟩ := play_clocked at_ call mem
  rw [read]
  exact clock.count_nonneg i

/-- A time that is not positive is never too early. -/
theorem notBefore_of_not_pos {count : Int64} {tMs : UInt32} (nonneg : 0 ≤ count)
    (stands : ¬ 0 < Float32.ofBits tMs) (k : Nat) : NotBefore count k tMs := by
  intro v value
  have small : v ≤ 0 := by
    apply le_of_not_gt
    intro pos
    exact stands (Binary32.pos_iff.mpr (.inr ⟨v, value, pos⟩))
  have positive : (0 : Rat) ≤ count.toInt := Int.cast_nonneg (Int64.le_iff_toInt_le.mp nonneg)
  exact le_trans (mul_nonpos_of_nonneg_of_nonpos (Nat.cast_nonneg k) small) positive

/-- After a lap the clock has reached every command's time. -/
theorem reached_of_lap (nonempty : rows ≠ []) (at_ : play true rows clock n = some s) {k : Nat}
    (lap : 0 < k) {call : RcwsPwmInfo × Int64}
    (sent : s.calls[k * (commands rows).length - 1]? = some call) {cmd : RcwsPwmCmd}
    (mem : cmd ∈ commands rows) : ∃ i, cmd.Reached (clock.count i) := by
  obtain ⟨i, inside, rfl⟩ := List.getElem_of_mem mem
  have whole : (commands rows).length ≤ k * (commands rows).length :=
    Nat.le_mul_of_pos_left _ lap
  have enough := (List.getElem?_eq_some_iff.mp sent).1
  have early : i < s.calls.length := by omega
  obtain ⟨cmd, turn, _, reached⟩ := (play_played_at nonempty at_).row i _ _
    (List.getElem?_eq_getElem early) (.inl rfl)
  rw [Nat.mod_eq_of_lt inside, List.getElem?_eq_getElem inside] at turn
  cases turn
  obtain ⟨j, read⟩ := play_clocked at_ _ (List.getElem_mem early)
  have sent : RcwsPwmCmd.Reached _ (s.calls[i]).2 := reached
  rw [read] at sent
  exact ⟨j, sent⟩

/-- On a clock the laps keep their pace exactly if the last row's time is not positive, or if
the clock never reaches the time of some row. -/
theorem paced_iff (nonempty : rows ≠ []) (clock : Clock) :
    Paced rows clock ↔
      (∀ last ∈ (commands rows).getLast?, ¬ 0 < Float32.ofBits last.tMs) ∨
        ∃ cmd ∈ commands rows, ∀ i, ¬ cmd.Reached (clock.count i) := by
  constructor
  · intro paced
    by_contra neither
    obtain ⟨positive, reachable⟩ := not_or.mp neither
    simp only [not_forall, not_not, not_exists, not_and] at positive reachable
    obtain ⟨last, isLast, pos⟩ := positive
    obtain ⟨i, passes⟩ := reachable last (List.mem_of_getLast? isLast)
    have finite : ∃ v ∈ Binary32.value (Float32.ofBits last.tMs).toModel.unpack, 0 < v := by
      refine (Binary32.pos_iff.mp pos).resolve_left fun infinite => ?_
      exact passes (Binary32.ofInt64_lt_infinity (clock.count_nonneg i) infinite)
    obtain ⟨v, value, above⟩ := finite
    -- enough laps for the last one to be due only after the highest reading any clock can show
    obtain ⟨k, enough⟩ := exists_nat_gt (((Int64.maxValue.toInt : Int) : Rat) / v)
    have late : ((Int64.maxValue.toInt : Int) : Rat) < k * v := (div_lt_iff₀ above).mp enough
    have lap : 0 < k := by
      apply Nat.pos_of_ne_zero
      rintro rfl
      rw [Nat.cast_zero, zero_mul] at late
      exact absurd late (not_lt_of_ge (Int.cast_nonneg (by decide)))
    obtain ⟨n, s, at_, ended⟩ := @play_progress rows nonempty true clock reachable
      (k * (commands rows).length)
    have played := play_played_at nonempty at_
    have many := ended.resolve_left fun finished => absurd (played.done.mp finished).1 (by decide)
    have rowCount := List.length_pos_iff.mpr (commands_ne_nil nonempty)
    have inside : k * (commands rows).length - 1 < s.calls.length := by
      have := Nat.mul_pos lap rowCount
      omega
    have kept := paced n s at_ k lap _ (List.getElem?_eq_getElem inside) last isLast v value
    have most : (((s.calls[k * (commands rows).length - 1]).2.toInt : Int) : Rat) ≤
        ((Int64.maxValue.toInt : Int) : Rat) :=
      Int.cast_le.mpr (Int64.le_iff_toInt_le.mp (Int64.le_maxValue _))
    exact absurd (le_trans kept most) (not_le_of_gt late)
  · intro condition n s at_ k lap call sent last isLast
    cases condition with
    | inl stands =>
        have nonneg := call_nonneg at_ (List.mem_of_getElem? sent)
        exact notBefore_of_not_pos nonneg (stands last isLast) k
    | inr beyond =>
        obtain ⟨cmd, mem, never⟩ := beyond
        obtain ⟨i, reached⟩ := reached_of_lap nonempty at_ lap sent mem
        exact absurd reached (never i)

/-- The second lap of a file that takes a second ends where the first one does. -/
theorem second_lap_at_once :
    ¬ Paced secondApart (.still 1000 (by decide)) ∧
      ∃ n s last, play true secondApart (.still 1000 (by decide)) n = some s ∧
        (commands secondApart).getLast? = some last ∧
        Float32.ofBits last.tMs = 1000 ∧ s.calls[3]? = some (stopInfo, 1000) := by
  have laps : (play true secondApart (.still 1000 (by decide)) 40).map (fun s => s.calls[3]?) =
      some (some (stopInfo, 1000)) := by decide +kernel
  obtain ⟨s, at_, call⟩ := Option.map_eq_some_iff.mp laps
  have isLast : (commands secondApart).getLast? = some ⟨0x447A0000, stopInfo⟩ := by decide +kernel
  refine ⟨fun paced => ?_, 40, s, _, at_, isLast, by decide +kernel, call⟩
  have second := paced 40 s at_ 2 (by decide) _ call _ isLast 1000 (by decide +kernel)
  revert second
  decide +kernel

/-- On a clock that stops before the second row the pace is kept, on one that starts at its time
it is not. -/
theorem paced_iff_secondApart :
    Paced secondApart (.still 999 (by decide)) ∧ ¬ Paced secondApart (.still 1000 (by decide)) := by
  have nonempty : secondApart ≠ [] := by decide
  have early : ∃ cmd ∈ commands secondApart, ¬ cmd.Reached 999 := by decide +kernel
  have late : ∃ last ∈ (commands secondApart).getLast?, 0 < Float32.ofBits last.tMs :=
    ⟨⟨0x447A0000, stopInfo⟩, by decide +kernel, by decide +kernel⟩
  have reached : ∀ cmd ∈ commands secondApart, cmd.Reached 1000 := by decide +kernel
  constructor
  · obtain ⟨cmd, mem, waits⟩ := early
    exact (paced_iff nonempty _).mpr (.inr ⟨cmd, mem, fun _ => waits⟩)
  · rw [paced_iff nonempty]
    rintro (stands | ⟨cmd, mem, never⟩)
    · obtain ⟨last, isLast, pos⟩ := late
      exact stands last isLast pos
    · exact never 0 (reached cmd mem)

end Laps

end PwmPlay

end Lra
