import Lra.Host.World

/-!
# Boards on which transfers fail

`flaky` performs transfers against a list of outcomes, one for each transfer. A failed
transfer answers with a negative value and reaches no board; behind the end of the list
every transfer succeeds, so that with no outcome left `flaky` is `ideal`.
-/

namespace Lra

open Effect

/-- The machine, and whether each of the transfers to come fails. -/
structure Flaky where
  world : World
  fails : List Bool

namespace Flaky

/-- Does the next transfer fail? -/
def failing (s : Flaky) : Bool := s.fails.headD false

/-- The state after a transfer. -/
def after (s : Flaky) (call : BusCall) : Flaky where
  world := if s.failing = true then s.world
    else { s.world with board := s.world.board.after call }
  fails := s.fails.tail

/-- The state in which no transfer fails any more. -/
def steady (w : World) : Flaky := ⟨w, []⟩

@[simp] theorem fails_after (s : Flaky) (call : BusCall) : (s.after call).fails = s.fails.tail :=
  rfl

@[simp] theorem flag_after (s : Flaky) (call : BusCall) :
    (s.after call).world.flag = s.world.flag := by
  rw [after]
  split <;> rfl

@[simp] theorem tcaCh_after (s : Flaky) (call : BusCall) :
    (s.after call).world.tcaCh = s.world.tcaCh := by
  rw [after]
  split <;> rfl

theorem on_after {s : Flaky} {ax : Axis} (on : s.world.On ax) {call : BusCall}
    (slave : call.slave = 0x5a) : (s.after call).world.On ax := by
  rw [after]
  split
  · exact on
  · rw [World.On, after_chip on slave]
    exact on

end Flaky

def flaky : Semantics Io Flaky
  | .host o, s, r, s' => ∃ w', o.Does s.world r w' ∧ s' = { s with world := w' }
  | .setTcaCh c, s, _, s' => s' = { s with world := { s.world with tcaCh := c } }
  | .bus _ call, s, r, s' =>
    (if s.failing = true then r.ret < 0 else r = s.world.board.reply call) ∧ s' = s.after call

/-- A machine with failures on which programs can be run. -/
def flakyBench : Handler Io Flaky
  | .host o, s => ((o.handle s.world).1, { s with world := (o.handle s.world).2 })
  | .setTcaCh c, s => ((), { s with world := { s.world with tcaCh := c } })
  | .bus _ call, s =>
    (if s.failing = true then ⟨-1, []⟩ else s.world.board.reply call, s.after call)

theorem flakyBench_within : flakyBench.Within flaky := by
  intro o s
  cases o with
  | host o => exact ⟨_, o.handle_does s.world, rfl⟩
  | setTcaCh c => rfl
  | bus dev call =>
      refine ⟨?_, rfl⟩
      by_cases fails : s.failing = true
      · have refused : (flakyBench (.bus dev call) s).1 = ⟨-1, []⟩ := if_pos fails
        rw [if_pos fails, refused]
        decide
      · rw [if_neg fails]
        exact if_neg fails

/-- Without failures the two semantics are the same. -/
theorem flaky_of_ideal {o : IoOp} {w w' : World} {r : Io.Res o} (h : ideal o w r w') :
    flaky o (.steady w) r (.steady w') := by
  cases o with
  | host o => exact ⟨w', h, rfl⟩
  | setTcaCh c =>
      obtain rfl := h
      rfl
  | bus dev call =>
      obtain ⟨reply, rfl⟩ := h
      exact ⟨reply, rfl⟩

theorem Flaky.exec_steady {α : Type} {p : Program Io α} {w w' : World} {tr : List (IoOp × World)}
    {a : α} (run : Exec ideal p w tr a w') :
    Exec flaky p (.steady w) (tr.map fun e => (e.1, Flaky.steady e.2)) a (.steady w') := by
  induction run with
  | ret a w => exact .ret a _
  | op answer _ ih => exact .op (flaky_of_ideal answer) ih

/-! ### Executions step by step -/

section Rules

variable {α : Type} {s s' : Flaky} {tr : List (IoOp × Flaky)} {a : α}

theorem Flaky.of_transfer {dev : Device} {call : BusCall} {g : BusReply → Program Io α}
    (run : Exec flaky (transfer dev call >>= g) s tr a s') :
    ∃ r tr', (if s.failing = true then r.ret < 0 else r = s.world.board.reply call) ∧
      tr = (.bus dev call, s) :: tr' ∧ Exec flaky (g r) (s.after call) tr' a s' := by
  cases run with
  | op answer rest =>
      obtain ⟨reply, rfl⟩ := answer
      exact ⟨_, _, reply, rfl, rest⟩

theorem Flaky.of_load {f : Flag} {g : Bool → Program Io α}
    (run : Exec flaky (host (.load f) >>= g) s tr a s') :
    ∃ tr', tr = (.host (.load f), s) :: tr' ∧ Exec flaky (g (s.world.flag f)) s tr' a s' := by
  cases run with
  | op answer rest =>
      obtain ⟨_, ⟨rfl, rfl⟩, rfl⟩ := answer
      exact ⟨_, rfl, rest⟩

theorem Flaky.of_store {f : Flag} {b : Bool} {g : Unit → Program Io α}
    (run : Exec flaky (host (.store f b) >>= g) s tr a s') :
    ∃ tr', tr = (.host (.store f b), s) :: tr' ∧
      Exec flaky (g ()) { s with world := s.world.setFlag f b } tr' a s' := by
  cases run with
  | op answer rest =>
      obtain ⟨_, rfl, rfl⟩ := answer
      exact ⟨_, rfl, rest⟩

end Rules

end Lra
