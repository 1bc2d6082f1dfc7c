import Lra.Effect.Drive
import Lra.Number.Binary32
import Lra.Usb.PwmCommand
import Lra.Usb.PwmTask
import Mathlib.Data.List.Rotate

/-!
# Playing a file of PWM commands

`PwmCmdTask` one access at a time to the queue and the flags it shares with the user's
thread. A command waits until the milliseconds since the start, converted to a `float`,
are not below its `t_ms`.
-/

namespace Lra

open Effect

/-- A row of the file: a time in seconds and the parameters. -/
structure CsvRow where
  currentTime : UInt32
  info : RcwsPwmInfo
  deriving DecidableEq

/-- `cmd.t_ms`; the first row finds no `time_bias` yet. -/
def CsvRow.tMs (timeBias : Option UInt32) (row : CsvRow) : UInt32 :=
  match timeBias with
  | none => 0
  | some timeBias =>
    ((Float32.ofBits row.currentTime - Float32.ofBits timeBias) * 1000).toBits

/-- The commands of the rows that are still to be read. -/
def playList : Option UInt32 → List CsvRow → List RcwsPwmCmd
  | _, [] => []
  | timeBias, row :: rows =>
    ⟨row.tMs timeBias, row.info⟩ :: playList (some (timeBias.getD row.currentTime)) rows

/-- The commands of a file. -/
def commands (rows : List CsvRow) : List RcwsPwmCmd := playList none rows

/-- The condition that ends the wait. -/
def RcwsPwmCmd.Reached (cmd : RcwsPwmCmd) (count : Int64) : Prop :=
  ¬ Binary32.ofInt64 count < Float32.ofBits cmd.tMs

instance (cmd : RcwsPwmCmd) (count : Int64) : Decidable (cmd.Reached count) :=
  inferInstanceAs (Decidable (¬ _))

/-- A later reading has reached what an earlier one has. -/
theorem RcwsPwmCmd.Reached.of_le {cmd : RcwsPwmCmd} {a b : Int64} (reached : cmd.Reached a)
    (nonneg : 0 ≤ a) (le : a ≤ b) : cmd.Reached b :=
  fun early => reached (Binary32.ofInt64_lt_of_le nonneg le early)

/-- The milliseconds since the start that are read at the task's steps; they never go back. -/
structure Clock where
  count : Nat → Int64
  nonneg : 0 ≤ count 0
  mono : ∀ {i j}, i ≤ j → count i ≤ count j

theorem Clock.count_nonneg (clock : Clock) (i : Nat) : 0 ≤ clock.count i :=
  Int64.le_trans clock.nonneg (clock.mono (Nat.zero_le i))

/-- A clock that stands still. -/
def Clock.still (count : Int64) (nonneg : 0 ≤ count) : Clock where
  count _ := count
  nonneg := nonneg
  mono _ := Int64.le_refl count

/-- What a `PwmCmdTask` does next. -/
inductive PwmCmdPoint where
  | loading (timeBias : Option UInt32) (rows : List CsvRow)
  /-- `q_total_len` is taken. -/
  | sizing
  /-- The size is taken again to be printed. -/
  | printing
  | testingQueue
  | testingExit
  | fetching
  | spinning (nextPwmCmd : RcwsPwmCmd)
  | sending (nextPwmCmd : RcwsPwmCmd)
  | testingRecursive (nextPwmCmd : RcwsPwmCmd)
  | pushing (nextPwmCmd : RcwsPwmCmd)
  /-- The remaining percentage is computed. -/
  | computing
  | popping
  | stopping
  | done
  deriving DecidableEq

/-- The steps until the next call, at most. -/
def PwmCmdPoint.rank : PwmCmdPoint → Nat
  | .loading _ rows => rows.length + 20
  | .sizing => 19
  | .printing => 18
  | .testingRecursive _ => 12
  | .pushing _ => 11
  | .computing => 11
  | .popping => 10
  | .testingQueue => 9
  | .testingExit => 8
  | .fetching => 7
  | .spinning _ => 6
  | .sending _ => 5
  | .stopping => 3
  | .done => 0

/-- The members of `Rcws` a `PwmCmdTask` works on, the task, and the calls of `DevPwmCmd`
it has made, each with the milliseconds since the start. -/
structure PwmPlay where
  pwmCmdQ : List RcwsPwmCmd := []
  pwmCmdThreadExit : Bool := false
  recursiveFlag : Bool := false
  point : PwmCmdPoint
  qTotalLen : Nat := 0
  lastPercentagePrint : Int := -1
  calls : List (RcwsPwmInfo × Int64) := []
  deriving DecidableEq

/-- `_stop_info`: amplitude 500 and frequency 5 on every axis. -/
def stopInfo : RcwsPwmInfo :=
  ⟨⟨0x43FA0000, 0x40A00000⟩, ⟨0x43FA0000, 0x40A00000⟩, ⟨0x43FA0000, 0x40A00000⟩⟩

namespace PwmPlay

/-- The task at its start. -/
def start (rows : List CsvRow) (recursiveFlag : Bool) : PwmPlay :=
  { recursiveFlag, point := .loading none rows }

/-- `DevPwmCmd` in its `try` block; `sent` is its outcome. -/
def devPwmCmd (s : PwmPlay) (info : RcwsPwmInfo) (count : Int64) (sent : Bool) : PwmPlay :=
  { s with
    pwmCmdThreadExit := s.pwmCmdThreadExit || !sent
    calls := s.calls ++ [(info, count)] }

/-- `(pwm_cmd_q_.size() * 100) / q_total_len`; there is no division by zero. -/
def percentage (s : PwmPlay) : Option Nat :=
  if s.qTotalLen = 0 then none else some (s.pwmCmdQ.length * 100 % 2 ^ 64 / s.qTotalLen)

/-- The next step of the task, when the clock shows `count`; `sent` is the outcome of a
`DevPwmCmd`. It is undefined where the front of an empty queue is used or removed, and
where a division is by zero. -/
def pwmCmdTask (count : Int64) (sent : Bool) (s : PwmPlay) : Option PwmPlay :=
  match s.point with
  | .loading timeBias (row :: rows) =>
    some { s with
      pwmCmdQ := s.pwmCmdQ ++ [⟨row.tMs timeBias, row.info⟩]
      point := .loading (some (timeBias.getD row.currentTime)) rows }
  | .loading _ [] => some { s with point := .sizing }
  | .sizing => some { s with qTotalLen := s.pwmCmdQ.length, point := .printing }
  | .printing => some { s with point := .testingQueue }
  | .testingQueue =>
    some { s with point := if s.pwmCmdQ.isEmpty then .stopping else .testingExit }
  | .testingExit => some { s with point := if s.pwmCmdThreadExit then .stopping else .fetching }
  | .fetching => do
    let nextPwmCmd ← s.pwmCmdQ.head?
    return { s with point := .spinning nextPwmCmd }
  | .spinning nextPwmCmd =>
    some (if nextPwmCmd.Reached count then { s with point := .sending nextPwmCmd } else s)
  | .sending nextPwmCmd =>
    some { s.devPwmCmd nextPwmCmd.info count sent with point := .testingRecursive nextPwmCmd }
  | .testingRecursive nextPwmCmd =>
    some { s with point := if s.recursiveFlag then .pushing nextPwmCmd else .computing }
  | .pushing nextPwmCmd =>
    some { s with pwmCmdQ := s.pwmCmdQ ++ [nextPwmCmd], point := .popping }
  | .computing => do
    let percentage ← s.percentage
    return { s with
      lastPercentagePrint :=
        if percentage % 5 = 0 ∧ percentage ≠ s.lastPercentagePrint then percentage
        else s.lastPercentagePrint
      point := .popping }
  | .popping =>
    match s.pwmCmdQ with
    | [] => none
    | _ :: pwmCmdQ => some { s with pwmCmdQ, point := .testingQueue }
  | .stopping => some { s.devPwmCmd stopInfo count sent with point := .done }
  | .done => some s

/-- The task `n` steps after its start, if all commands are sent. -/
def play (recursiveFlag : Bool) (rows : List CsvRow) (clock : Clock) (n : Nat) :
    Option PwmPlay :=
  drive (fun count s => pwmCmdTask count true s) clock.count (start rows recursiveFlag) n

/-! ### What a run keeps -/

section Playing

variable {cmds : List RcwsPwmCmd} {calls : List (RcwsPwmInfo × Int64)} {cmd : RcwsPwmCmd}

/-- The calls follow the commands, from the first again behind the last, each at a reading
that its time does not exceed. -/
def Answers (cmds : List RcwsPwmCmd) (calls : List (RcwsPwmInfo × Int64)) : Prop :=
  ∀ i info count, calls[i]? = some (info, count) →
    ∃ cmd, cmds[i % cmds.length]? = some cmd ∧ info = cmd.info ∧ cmd.Reached count

/-- The queue after `n` iterations. -/
def upcoming (recursiveFlag : Bool) (cmds : List RcwsPwmCmd) (n : Nat) : List RcwsPwmCmd :=
  if recursiveFlag then cmds.rotate n else cmds.drop n

theorem answers_nil : Answers cmds [] := by
  intro i info count call
  cases call

theorem Answers.concat (answers : Answers cmds calls) {count : Int64}
    (due : cmds[calls.length % cmds.length]? = some cmd) (reached : cmd.Reached count) :
    Answers cmds (calls ++ [(cmd.info, count)]) := by
  intro i info count' call
  by_cases last : i = calls.length
  · subst last
    rw [List.getElem?_concat_length] at call
    cases call
    exact ⟨cmd, due, rfl, reached⟩
  · have before : i < calls.length := by
      have inside := (List.getElem?_eq_some_iff.mp call).1
      rw [List.length_append, List.length_singleton] at inside
      omega
    rw [List.getElem?_append_left before] at call
    exact answers i info count' call

/-- The front of the queue is the command whose turn it is. -/
theorem getElem?_of_upcoming {recursiveFlag : Bool} {n : Nat} {rest : List RcwsPwmCmd}
    (queue : upcoming recursiveFlag cmds n = cmd :: rest) :
    cmds[n % cmds.length]? = some cmd := by
  cases recursiveFlag with
  | true =>
      have rotated : cmds.rotate n = cmd :: rest := queue
      have inside : 0 < cmds.length := by
        rw [← List.length_rotate cmds n, rotated]
        exact Nat.succ_pos _
      have front := List.getElem?_rotate (n := n) inside
      rw [rotated, Nat.zero_add] at front
      exact front.symm
  | false =>
      have dropped : cmds.drop n = cmd :: rest := queue
      have inside : n < cmds.length := by
        have length := congrArg List.length dropped
        rw [List.length_drop, List.length_cons] at length
        omega
      have front : (cmds.drop n)[0]? = some cmd := by
        rw [dropped]
        rfl
      rw [List.getElem?_drop] at front
      rw [Nat.mod_eq_of_lt inside]
      exact front

/-- One iteration takes the front away, or to the end. -/
theorem upcoming_succ {recursiveFlag : Bool} {n : Nat} {rest : List RcwsPwmCmd}
    (queue : upcoming recursiveFlag cmds n = cmd :: rest) :
    upcoming recursiveFlag cmds (n + 1) = if recursiveFlag then rest ++ [cmd] else rest := by
  cases recursiveFlag with
  | true =>
      have rotated : cmds.rotate n = cmd :: rest := queue
      change cmds.rotate (n + 1) = rest ++ [cmd]
      rw [← List.rotate_rotate, rotated, List.rotate_cons_succ, List.rotate_zero]
  | false =>
      have dropped : cmds.drop n = cmd :: rest := queue
      change cmds.drop (n + 1) = rest
      rw [← List.tail_drop, dropped]
      rfl

/-- The calls so far, and the queue `next` with which the next iteration is to begin. -/
def Follows (cmds next : List RcwsPwmCmd) (s : PwmPlay) : Prop :=
  s.qTotalLen = cmds.length ∧ Answers cmds s.calls ∧
    (s.recursiveFlag = false → s.calls.length ≤ cmds.length) ∧
    upcoming s.recursiveFlag cmds s.calls.length = next

/-- What holds at each point; `due` says which commands may be sent. -/
def Consistent (cmds : List RcwsPwmCmd) (due : RcwsPwmCmd → Prop) (s : PwmPlay) : Prop :=
  match s.point with
  | .loading timeBias rows => s.calls = [] ∧ s.pwmCmdQ ++ playList timeBias rows = cmds
  | .sizing => s.calls = [] ∧ s.pwmCmdQ = cmds
  | .printing | .testingQueue => Follows cmds s.pwmCmdQ s
  | .testingExit | .fetching => Follows cmds s.pwmCmdQ s ∧ s.pwmCmdQ ≠ []
  | .spinning cmd => Follows cmds s.pwmCmdQ s ∧ s.pwmCmdQ.head? = some cmd
  | .sending cmd => (Follows cmds s.pwmCmdQ s ∧ s.pwmCmdQ.head? = some cmd) ∧ due cmd
  | .testingRecursive cmd => s.calls ≠ [] ∧ ∃ rest, s.pwmCmdQ = cmd :: rest ∧
      Follows cmds (if s.recursiveFlag then rest ++ [cmd] else rest) s
  | .pushing cmd => s.recursiveFlag = true ∧ ∃ rest, s.pwmCmdQ = cmd :: rest ∧
      Follows cmds (rest ++ [cmd]) s
  | .computing => (s.recursiveFlag = false ∧ s.calls ≠ []) ∧
      ∃ cmd rest, s.pwmCmdQ = cmd :: rest ∧ Follows cmds rest s
  | .popping => ∃ cmd rest, s.pwmCmdQ = cmd :: rest ∧ Follows cmds rest s
  | .stopping => s.recursiveFlag = false ∧ s.calls.length = cmds.length ∧ Answers cmds s.calls
  | .done => s.recursiveFlag = false ∧ ∃ calls count, s.calls = calls ++ [(stopInfo, count)] ∧
      calls.length = cmds.length ∧ Answers cmds calls

/-- Where the percentage is computed the queue is not longer than the file. -/
theorem computing_percentage (nonempty : cmds ≠ []) {due : RcwsPwmCmd → Prop} {s : PwmPlay}
    (computing : s.point = .computing) (consistent : Consistent cmds due s) :
    ∃ p, s.percentage = some p ∧ p ≤ 100 := by
  rw [Consistent, computing] at consistent
  obtain ⟨⟨single, called⟩, cmd, rest, queue, total, _, once, next⟩ := consistent
  have positive : 0 < s.qTotalLen := by
    rw [total]
    exact List.length_pos_iff.mpr nonempty
  have le : s.pwmCmdQ.length ≤ s.qTotalLen := by
    have after := congrArg List.length next
    have one := List.length_pos_iff.mpr called
    have all := once single
    rw [single, upcoming, if_neg Bool.false_ne_true, List.length_drop] at after
    rw [queue, List.length_cons, total]
    omega
  refine ⟨_, if_neg (Nat.ne_of_gt positive), ?_⟩
  calc s.pwmCmdQ.length * 100 % 2 ^ 64 / s.qTotalLen
      ≤ s.qTotalLen * 100 / s.qTotalLen :=
        Nat.div_le_div_right (Nat.le_trans (Nat.mod_le _ _) (Nat.mul_le_mul_right 100 le))
    _ = 100 := Nat.mul_div_cancel_left 100 positive

theorem pwmCmdTask_computing {s : PwmPlay} {p : Nat} (computed : s.percentage = some p)
    (computing : s.point = .computing) (count : Int64) (sent : Bool) :
    pwmCmdTask count sent s = some { s with
      lastPercentagePrint :=
        if p % 5 = 0 ∧ (p : Int) ≠ s.lastPercentagePrint then p else s.lastPercentagePrint
      point := .popping } := by
  rw [pwmCmdTask, computing]
  simp only [computed]
  rfl

/-- A step that computes the percentage changes nothing but the last one printed. -/
theorem computing_step {count : Int64} {sent : Bool} {s t : PwmPlay}
    (computing : s.point = .computing) (step : pwmCmdTask count sent s = some t) :
    ∃ last, t = { s with lastPercentagePrint := last, point := .popping } := by
  cases computed : s.percentage with
  | none =>
      rw [pwmCmdTask, computing] at step
      simp [computed] at step
  | some p =>
      rw [pwmCmdTask_computing computed computing] at step
      cases step
      exact ⟨_, rfl⟩

theorem spinning_step {count : Int64} {sent : Bool} {s t : PwmPlay}
    (spinning : s.point = .spinning cmd) (step : pwmCmdTask count sent s = some t) :
    t = { s with point := .sending cmd } ∨ t = s := by
  rw [pwmCmdTask, spinning] at step
  by_cases reached : cmd.Reached count
  · exact .inl (Option.some.inj ((congrArg some (if_pos reached)).symm.trans step)).symm
  · exact .inr (Option.some.inj ((congrArg some (if_neg reached)).symm.trans step)).symm

/-- A time that was reached stays reached. -/
theorem reached_later {clock : Clock} {i j : Nat} (reached : cmd.Reached (clock.count i))
    (le : i ≤ j) : cmd.Reached (clock.count j) :=
  reached.of_le (clock.count_nonneg i) (clock.mono le)

/-- What holds `n` steps after the start. -/
structure Kept (cmds : List RcwsPwmCmd) (recursiveFlag : Bool) (clock : Clock) (n : Nat)
    (s : PwmPlay) : Prop where
  exit : s.pwmCmdThreadExit = false
  flag : s.recursiveFlag = recursiveFlag
  consistent : Consistent cmds (fun cmd => cmd.Reached (clock.count n)) s

variable {recursiveFlag : Bool} {clock : Clock}

theorem Kept.step (nonempty : cmds ≠ []) {n : Nat} {s : PwmPlay}
    (kept : Kept cmds recursiveFlag clock n s) :
    ∃ t, pwmCmdTask (clock.count n) true s = some t ∧
      Kept cmds recursiveFlag clock (n + 1) t := by
  obtain ⟨q, exit, flag, point, total, last, calls⟩ := s
  obtain ⟨rfl, rfl, consistent⟩ := kept
  cases point with
  | loading timeBias rows =>
      obtain ⟨none, file⟩ := consistent
      cases rows with
      | nil =>
          rw [playList, List.append_nil] at file
          exact ⟨_, rfl, rfl, rfl, none, file⟩
      | cons row rows =>
          rw [playList, List.append_cons] at file
          exact ⟨_, rfl, rfl, rfl, none, file⟩
  | sizing =>
      obtain ⟨none, file⟩ := consistent
      dsimp only at none file
      subst none file
      refine ⟨_, rfl, rfl, rfl, rfl, ?_, fun _ => Nat.zero_le _, ?_⟩
      · exact answers_nil
      · cases flag with
        | true => exact List.rotate_zero q
        | false => rfl
  | printing => exact ⟨_, rfl, rfl, rfl, consistent⟩
  | testingQueue =>
      cases q with
      | nil =>
          obtain ⟨_, answers, once, next⟩ := consistent
          refine ⟨_, rfl, rfl, rfl, ?_⟩
          cases flag with
          | true => exact absurd (List.rotate_eq_nil_iff.mp next) nonempty
          | false =>
              have le : cmds.length ≤ calls.length := List.drop_eq_nil_iff.mp next
              exact ⟨rfl, Nat.le_antisymm (once rfl) le, answers⟩
      | cons cmd rest => exact ⟨_, rfl, rfl, rfl, consistent, List.cons_ne_nil _ _⟩
  | testingExit => exact ⟨_, rfl, rfl, rfl, consistent⟩
  | fetching =>
      obtain ⟨follows, filled⟩ := consistent
      cases q with
      | nil => exact absurd rfl filled
      | cons cmd rest => exact ⟨_, rfl, rfl, rfl, follows, rfl⟩
  | spinning cmd =>
      obtain ⟨follows, front⟩ := consistent
      by_cases reached : cmd.Reached (clock.count n)
      · refine ⟨_, congrArg some (if_pos reached), rfl, rfl, ⟨follows, front⟩, ?_⟩
        exact reached_later reached (Nat.le_succ n)
      · exact ⟨_, congrArg some (if_neg reached), rfl, rfl, follows, front⟩
  | sending cmd =>
      obtain ⟨⟨⟨full, answers, once, next⟩, front⟩, reached⟩ := consistent
      obtain ⟨rest, rfl⟩ := List.head?_eq_some_iff.mp front
      refine ⟨_, rfl, rfl, rfl, List.concat_ne_nil _ _, rest, rfl, full, ?_, ?_, ?_⟩
      · exact answers.concat (getElem?_of_upcoming next) reached
      · intro single
        obtain rfl : flag = false := single
        have dropped : cmds.drop calls.length = cmd :: rest := next
        have length := congrArg List.length dropped
        rw [List.length_drop, List.length_cons] at length
        rw [devPwmCmd, List.length_append, List.length_singleton]
        dsimp only
        omega
      · rw [devPwmCmd, List.length_append, List.length_singleton]
        exact upcoming_succ next
  | testingRecursive cmd =>
      obtain ⟨called, rest, queue, follows⟩ := consistent
      cases flag with
      | true => exact ⟨_, rfl, rfl, rfl, rfl, rest, queue, follows⟩
      | false => exact ⟨_, rfl, rfl, rfl, ⟨rfl, called⟩, cmd, rest, queue, follows⟩
  | pushing cmd =>
      obtain ⟨_, rest, queue, follows⟩ := consistent
      dsimp only at queue
      subst queue
      exact ⟨_, rfl, rfl, rfl, cmd, rest ++ [cmd], rfl, follows⟩
  | computing =>
      have defined := computing_percentage nonempty rfl consistent
      obtain ⟨single, cmd, rest, queue, follows⟩ := consistent
      obtain ⟨p, computed, _⟩ := defined
      exact ⟨_, pwmCmdTask_computing computed rfl _ _, rfl, rfl, cmd, rest, queue, follows⟩
  | popping =>
      obtain ⟨cmd, rest, queue, follows⟩ := consistent
      dsimp only at queue
      subst queue
      exact ⟨_, rfl, rfl, rfl, follows⟩
  | stopping =>
      obtain ⟨single, all, answers⟩ := consistent
      exact ⟨_, rfl, rfl, rfl, single, calls, clock.count n, rfl, all, answers⟩
  | done =>
      obtain ⟨single, ended⟩ := consistent
      exact ⟨_, rfl, rfl, rfl, single, ended⟩

theorem map_info_playList (timeBias : Option UInt32) (rows : List CsvRow) :
    (playList timeBias rows).map RcwsPwmCmd.info = rows.map CsvRow.info := by
  induction rows generalizing timeBias with
  | nil => rfl
  | cons row rows ih => rw [playList, List.map_cons, List.map_cons, ih]

theorem commands_ne_nil {rows : List CsvRow} (nonempty : rows ≠ []) : commands rows ≠ [] := by
  cases rows with
  | nil => exact absurd rfl nonempty
  | cons row rows => exact List.cons_ne_nil _ _

/-- The task is never undefined, and what it has done so far is as it should be. -/
theorem play_kept {rows : List CsvRow} (nonempty : rows ≠ []) (recursiveFlag : Bool)
    (clock : Clock) (n : Nat) :
    ∃ s, play recursiveFlag rows clock n = some s ∧
      Kept (commands rows) recursiveFlag clock n s := by
  apply drive_invariant
  · exact ⟨rfl, rfl, rfl, List.nil_append _⟩
  · intro n s kept
    exact kept.step (commands_ne_nil nonempty)

/-! ### Progress -/

/-- Twenty steps for each of `k` calls that are not made yet, and those until the next. -/
def variant (k : Nat) (s : PwmPlay) : Nat := (k - s.calls.length) * 20 + s.point.rank

/-- Every step but a wait leads nearer to the next call. -/
theorem variant_lt {k : Nat} {count : Int64} {s t : PwmPlay}
    (step : pwmCmdTask count true s = some t) (fewer : s.calls.length < k)
    (goes : s.point ≠ .done) (ready : ∀ cmd, s.point ≠ .spinning cmd) :
    variant k t < variant k s := by
  obtain ⟨q, exit, flag, point, total, last, calls⟩ := s
  dsimp only at fewer
  cases point with
  | loading timeBias rows =>
      cases rows <;> cases step <;> simp [variant, PwmCmdPoint.rank]
  | sizing | printing | pushing =>
      cases step
      simp [variant, PwmCmdPoint.rank]
  | testingQueue =>
      cases step
      cases q <;> simp [variant, PwmCmdPoint.rank]
  | testingExit =>
      cases step
      cases exit <;> simp [variant, PwmCmdPoint.rank]
  | fetching =>
      cases q with
      | nil => cases step
      | cons cmd rest =>
          cases step
          simp [variant, PwmCmdPoint.rank]
  | spinning cmd => exact absurd rfl (ready cmd)
  | sending cmd | stopping =>
      cases step
      simp only [variant, PwmCmdPoint.rank, devPwmCmd, List.length_append, List.length_singleton]
      omega
  | testingRecursive cmd =>
      cases step
      cases flag <;> simp [variant, PwmCmdPoint.rank]
  | computing =>
      obtain ⟨last, rfl⟩ := computing_step rfl step
      simp [variant, PwmCmdPoint.rank]
  | popping =>
      cases q with
      | nil => cases step
      | cons cmd rest =>
          cases step
          simp [variant, PwmCmdPoint.rank]
  | done => exact absurd rfl goes

/-- If the clock reaches the time of every command, any number of calls is made, unless the
task ends. -/
theorem play_progress {rows : List CsvRow} (nonempty : rows ≠ []) {recursiveFlag : Bool}
    {clock : Clock} (reaches : ∀ cmd ∈ commands rows, ∃ i, cmd.Reached (clock.count i)) (k : Nat) :
    ∃ n s, play recursiveFlag rows clock n = some s ∧ (s.point = .done ∨ k ≤ s.calls.length) := by
  apply drive_variant (μ := variant k)
  intro n s reached short
  obtain ⟨goes, fewer⟩ := not_or.mp short
  obtain ⟨s', same, kept⟩ := play_kept nonempty recursiveFlag clock n
  obtain rfl := Option.some.inj (same.symm.trans reached)
  by_cases waits : ∃ cmd, s'.point = .spinning cmd
  · obtain ⟨cmd, spins⟩ := waits
    have consistent := kept.consistent
    rw [Consistent, spins] at consistent
    obtain ⟨⟨_, _, _, next⟩, front⟩ := consistent
    obtain ⟨rest, queue⟩ := List.head?_eq_some_iff.mp front
    have turn := getElem?_of_upcoming (next.trans queue)
    obtain ⟨i, passes⟩ := reaches cmd (List.mem_of_getElem? turn)
    have later : cmd.Reached (clock.count (n + i)) := reached_later passes (Nat.le_add_left i n)
    obtain ⟨m, sends⟩ := drive_wait (u := { s' with point := .sending cmd }) reached later
      (fun count early => by rw [pwmCmdTask, spins]; exact congrArg some (if_neg early))
      (fun count due => by rw [pwmCmdTask, spins]; exact congrArg some (if_pos due))
    refine ⟨m, _, sends, ?_⟩
    simp [variant, PwmCmdPoint.rank, spins]
  · obtain ⟨t, next, _⟩ := play_kept nonempty recursiveFlag clock (n + 1)
    have step : pwmCmdTask (clock.count n) true s' = some t := (drive_succ reached).symm.trans next
    refine ⟨n + 1, t, next, variant_lt step (Nat.lt_of_not_le fewer) goes ?_⟩
    intro cmd spins
    exact waits ⟨cmd, spins⟩

/-! ### What the task does -/

/-- A step makes one call at most, at the reading of its time; only a failed call raises the
flag. -/
theorem pwmCmdTask_calls {count : Int64} {sent : Bool} {s t : PwmPlay}
    (step : pwmCmdTask count sent s = some t) :
    t.calls = s.calls ∧ t.pwmCmdThreadExit = s.pwmCmdThreadExit ∨
      ∃ info, t.calls = s.calls ++ [(info, count)] ∧
        t.pwmCmdThreadExit = (s.pwmCmdThreadExit || !sent) := by
  obtain ⟨q, exit, flag, point, total, last, calls⟩ := s
  cases point with
  | loading timeBias rows =>
      cases rows <;> cases step <;> exact .inl ⟨rfl, rfl⟩
  | sizing | printing | testingQueue | testingExit | testingRecursive | pushing | done =>
      cases step
      exact .inl ⟨rfl, rfl⟩
  | fetching | popping =>
      cases q with
      | nil => cases step
      | cons cmd rest =>
          cases step
          exact .inl ⟨rfl, rfl⟩
  | spinning cmd =>
      cases spinning_step rfl step with
      | inl sends =>
          subst sends
          exact .inl ⟨rfl, rfl⟩
      | inr waits =>
          subst waits
          exact .inl ⟨rfl, rfl⟩
  | sending cmd =>
      cases step
      exact .inr ⟨cmd.info, rfl, rfl⟩
  | computing =>
      obtain ⟨last, rfl⟩ := computing_step rfl step
      exact .inl ⟨rfl, rfl⟩
  | stopping =>
      cases step
      exact .inr ⟨stopInfo, rfl, rfl⟩

/-- The readings of the calls are readings of the clock. -/
theorem play_clocked {rows : List CsvRow} {n : Nat} {s : PwmPlay}
    (at_ : play recursiveFlag rows clock n = some s) :
    ∀ call ∈ s.calls, ∃ i, call.2 = clock.count i := by
  refine drive_preserves (I := fun s => ∀ call ∈ s.calls, ∃ i, call.2 = clock.count i) ?_ ?_ at_
  · intro call mem
    cases mem
  · intro n t u clocked step call mem
    cases pwmCmdTask_calls step with
    | inl same =>
        rw [same.1] at mem
        exact clocked call mem
    | inr one =>
        obtain ⟨info, calls, _⟩ := one
        rw [calls, List.mem_append, List.mem_singleton] at mem
        cases mem with
        | inl earlier => exact clocked call earlier
        | inr last =>
            subst last
            exact ⟨n, rfl⟩

theorem Consistent.answers {due : RcwsPwmCmd → Prop} {s : PwmPlay}
    (consistent : Consistent cmds due s) (goes : s.point ≠ .done) :
    Answers cmds s.calls ∧ (s.recursiveFlag = false → s.calls.length ≤ cmds.length) := by
  have none : s.calls = [] → Answers cmds s.calls ∧
      (s.recursiveFlag = false → s.calls.length ≤ cmds.length) := by
    intro empty
    rw [empty]
    exact ⟨answers_nil, fun _ => Nat.zero_le _⟩
  have some_ : ∀ {next}, Follows cmds next s → Answers cmds s.calls ∧
      (s.recursiveFlag = false → s.calls.length ≤ cmds.length) :=
    fun follows => ⟨follows.2.1, follows.2.2.1⟩
  unfold Consistent at consistent
  split at consistent
  · exact none consistent.1
  · exact none consistent.1
  · exact some_ consistent
  · exact some_ consistent
  · exact some_ consistent.1
  · exact some_ consistent.1
  · exact some_ consistent.1
  · exact some_ consistent.1.1
  · obtain ⟨_, rest, _, follows⟩ := consistent
    exact some_ follows
  · obtain ⟨_, rest, _, follows⟩ := consistent
    exact some_ follows
  · obtain ⟨_, cmd, rest, _, follows⟩ := consistent
    exact some_ follows
  · obtain ⟨cmd, rest, _, follows⟩ := consistent
    exact some_ follows
  · exact ⟨consistent.2.2, fun _ => Nat.le_of_eq consistent.2.1⟩
  · next ended => exact absurd ended goes

/-- The calls of a task so far: the commands in their order, each at a reading that its time
does not exceed; once, and then a stop, or over and over with a queue that turns. -/
structure Played (cmds : List RcwsPwmCmd) (recursiveFlag : Bool) (clock : Clock) (s : PwmPlay) :
    Prop where
  clocked : ∀ call ∈ s.calls, ∃ i, call.2 = clock.count i
  row : ∀ i info count, s.calls[i]? = some (info, count) →
    (recursiveFlag = true ∨ i < cmds.length) →
    ∃ cmd, cmds[i % cmds.length]? = some cmd ∧ info = cmd.info ∧ cmd.Reached count
  stop : recursiveFlag = false → ∀ i info count, s.calls[i]? = some (info, count) →
    cmds.length ≤ i → i = cmds.length ∧ info = stopInfo
  done : s.point = .done ↔ recursiveFlag = false ∧ s.calls.length = cmds.length + 1
  rotated : recursiveFlag = true → s.point = .testingQueue →
    s.pwmCmdQ = cmds.rotate s.calls.length
  percentage : s.point = .computing → ∃ p, s.percentage = some p ∧ p ≤ 100

theorem play_played_at {rows : List CsvRow} (nonempty : rows ≠ []) {n : Nat} {s : PwmPlay}
    (at_ : play recursiveFlag rows clock n = some s) :
    Played (commands rows) recursiveFlag clock s := by
  have clocked := play_clocked at_
  obtain ⟨s', same, kept⟩ := play_kept nonempty recursiveFlag clock n
  obtain rfl := Option.some.inj (same.symm.trans at_)
  obtain ⟨_, rfl, consistent⟩ := kept
  clear at_ same
  have percentage : s'.point = .computing → ∃ p, s'.percentage = some p ∧ p ≤ 100 :=
    fun computing => computing_percentage (commands_ne_nil nonempty) computing consistent
  by_cases ended : s'.point = .done
  · rw [Consistent, ended] at consistent
    obtain ⟨single, calls, count, all, length, answers⟩ := consistent
    refine ⟨clocked, ?_, ?_, iff_of_true ended ⟨single, ?_⟩, fun again => ?_, percentage⟩
    · intro i info count call inside
      have row : i < calls.length := by
        rw [length]
        exact inside.resolve_left (by simp [single])
      rw [all, List.getElem?_append_left row] at call
      exact answers i info count call
    · intro _ i info count call behind
      have inside := (List.getElem?_eq_some_iff.mp call).1
      rw [all, List.length_append, length, List.length_singleton] at inside
      obtain rfl : i = calls.length := by omega
      rw [all, List.getElem?_concat_length] at call
      cases call
      exact ⟨length, rfl⟩
    · rw [all, List.length_append, length]
      rfl
    · rw [single] at again
      cases again
  · obtain ⟨answers, once⟩ := consistent.answers ended
    refine ⟨clocked, fun i info count call _ => answers i info count call, ?_,
      iff_of_false ended ?_, fun again testing => ?_, percentage⟩
    · intro single i info count call behind
      have inside := (List.getElem?_eq_some_iff.mp call).1
      have all := once single
      omega
    · intro ⟨single, length⟩
      have all := once single
      omega
    · rw [Consistent, testing] at consistent
      obtain ⟨_, _, _, next⟩ := consistent
      rw [again] at next
      exact next.symm

/-- Whatever the clock shows, the task is never undefined and does what it should. If the
clock reaches the time of every command, the task ends, or goes round for ever. -/
theorem play_played {rows : List CsvRow} (nonempty : rows ≠ []) (recursiveFlag : Bool)
    (clock : Clock) :
    (commands rows).map RcwsPwmCmd.info = rows.map CsvRow.info ∧
    (∀ n, ∃ s, play recursiveFlag rows clock n = some s ∧
      Played (commands rows) recursiveFlag clock s) ∧
    ((∀ cmd ∈ commands rows, ∃ i, cmd.Reached (clock.count i)) →
      (recursiveFlag = false →
        ∃ n s, play recursiveFlag rows clock n = some s ∧ s.point = .done) ∧
      (recursiveFlag = true →
        ∀ k, ∃ n s, play recursiveFlag rows clock n = some s ∧ k ≤ s.calls.length)) := by
  have played : ∀ n, ∃ s, play recursiveFlag rows clock n = some s ∧
      Played (commands rows) recursiveFlag clock s := by
    intro n
    obtain ⟨s, at_, _⟩ := play_kept nonempty recursiveFlag clock n
    exact ⟨s, at_, play_played_at nonempty at_⟩
  refine ⟨map_info_playList none rows, played, fun reaches => ⟨fun single => ?_, fun again k => ?_⟩⟩
  · obtain ⟨n, s, at_, ended⟩ := play_progress nonempty reaches ((commands rows).length + 2)
    refine ⟨n, s, at_, ended.resolve_right fun many => ?_⟩
    have inside : (commands rows).length + 1 < s.calls.length := many
    have behind := (play_played_at nonempty at_).stop single _ _ _
      (List.getElem?_eq_getElem inside) (Nat.le_succ _)
    omega
  · obtain ⟨n, s, at_, ended⟩ := play_progress nonempty reaches k
    refine ⟨n, s, at_, ended.resolve_left fun finished => ?_⟩
    have single := ((play_played_at nonempty at_).done.mp finished).1
    rw [again] at single
    cases single

/-- Two rows a second apart. -/
def secondApart : List CsvRow := [⟨0, stopInfo⟩, ⟨0x3F800000, stopInfo⟩]

theorem play_played_secondApart :
    ∃ n s, play false secondApart (.still 1000 (by decide)) n = some s ∧ s.point = .done := by
  have reaches : ∀ cmd ∈ commands secondApart, cmd.Reached 1000 := by decide +kernel
  have played := @play_played secondApart (by decide) false (.still 1000 (by decide))
  exact (played.2.2 fun cmd mem => ⟨0, reaches cmd mem⟩).1 rfl

/-- On a clock that stands still the second command is never sent. And the last reading
before a time beyond 2 ^ 24 is rounded up to it, so a command is sent too early. -/
theorem never_sent_and_sent_early :
    (∀ n s, play false secondApart (.still 0 (by decide)) n = some s →
      s.calls.length ≤ 1 ∧ s.point ≠ .done) ∧
    ∃ rows : List CsvRow,
      (commands rows)[1]? = some ⟨(16777220 : Float32).toBits, stopInfo⟩ ∧
      (play false rows (.still 16777219 (by decide)) 24).map (fun s => (s.point, s.calls[1]?)) =
        some (.done, some (stopInfo, 16777219)) := by
  constructor
  · intro n s at_
    have played := play_played_at (by decide) at_
    have late : ¬ ∃ cmd, (commands secondApart)[1]? = some cmd ∧ cmd.Reached 0 := by
      rintro ⟨cmd, second, reached⟩
      cases second
      revert reached
      decide +kernel
    have fewer : s.calls.length ≤ 1 := by
      apply Nat.le_of_not_lt
      intro second
      obtain ⟨cmd, turn, _, reached⟩ := played.row 1 _ _ (List.getElem?_eq_getElem second)
        (.inr (by decide))
      obtain ⟨_, still⟩ := played.clocked _ (List.getElem_mem second)
      have zero : (s.calls.get ⟨1, second⟩).2 = 0 := still
      exact late ⟨cmd, turn, zero ▸ reached⟩
    refine ⟨fewer, fun finished => ?_⟩
    have all : s.calls.length = 3 := (played.done.mp finished).2
    omega
  · exact ⟨[⟨0, stopInfo⟩, ⟨0x46831271, stopInfo⟩], by decide +kernel, by decide +kernel⟩

end Playing

end PwmPlay

end Lra
