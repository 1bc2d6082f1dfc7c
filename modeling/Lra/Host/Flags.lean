import Lra.Host.World

/-!
# What becomes of the shared flags

The flags, the cached states of the drives among them, live in memory: no transfer
reads or changes one. What a program does to them therefore does not depend on
whether its transfers succeed. `faulty` lets every transfer answer anything and leave
anything on the boards; `Marks` says what a program makes of the flags.
-/

namespace Lra

open Effect

abbrev Flags := Flag → Bool

/-- Any transfer may fail or be disturbed, on the multiplexer as well. -/
def faulty : Semantics Io World
  | .host o, w, r, w' => o.Does w r w'
  | .setTcaCh c, w, _, w' => w' = { w with tcaCh := c }
  | .bus _ _, w, _, w' => ∃ board, w' = { w with board }

/-- A successful transfer is one of those the weaker semantics allows. -/
theorem faulty_of_ideal {o : IoOp} {w w' : World} {r : Io.Res o} (h : ideal o w r w') :
    faulty o w r w' := by
  cases o with
  | host o => exact h
  | setTcaCh c => exact h
  | bus dev call => exact ⟨_, h.2⟩

theorem bench_within_faulty : bench.Within faulty :=
  fun o w => faulty_of_ideal (bench_within_ideal o w)

/-- What an operation other than a transfer does to the flags. -/
def HostOp.flags : HostOp → Flags → Flags
  | .store f b, F => Function.update F f b
  | _, F => F

theorem HostOp.Does.flags {o : HostOp} {w w' : World} {r : o.Res} (h : o.Does w r w') :
    w'.flag = o.flags w.flag := by
  cases o with
  | load f => exact congrArg World.flag h.2
  | vecToTuple => exact congrArg World.flag h.2
  | tickCount => exact congrArg World.flag h.2
  | _ =>
      obtain rfl := h
      rfl

/-- Run to completion, `p` takes the flags from `F` to `G`. -/
def Marks {S : Signature} {α : Type} (sem : Semantics S World) (p : Program S α)
    (F G : Flags) : Prop :=
  ∀ w : World, w.flag = F → p.wp sem (fun _ w' => w'.flag = G) w

namespace Marks

section Rules

variable {S : Signature} {sem sem' : Semantics S World} {α β : Type} {p : Program S α}
variable {k : α → Program S β} {F G H : Flags}

theorem ret (a : α) : Marks sem (.ret a : Program S α) F F := fun _ start => start

theorem bind (first : Marks sem p F G) (rest : ∀ a, Marks sem (k a) G H) :
    Marks sem (p >>= k) F H := by
  intro w start
  rw [Program.wp_bind]
  exact Program.wp_mono (first w start) fun a w' middle => rest a w' middle

theorem of_eq (h : Marks sem p F G) (eq : G = H) : Marks sem p F H := eq ▸ h

theorem ite {c : Prop} [Decidable c] {q : Program S α} (yes : c → Marks sem p F G)
    (no : ¬ c → Marks sem q F H) : Marks sem (if c then p else q) F (if c then G else H) := by
  split
  · next h => exact yes h
  · next h => exact no h

/-- An operation of which it is known what it does to the flags. -/
theorem op {o : S.Op} (answer : ∀ {w r w'}, sem o w r w' → w.flag = F → w'.flag = G) :
    Marks sem (.op o .ret : Program S (S.Res o)) F G :=
  fun _ start _ _ done => answer done start

theorem exec (h : Marks sem p F G) {w w' : World} {a : α} {tr : List (S.Op × World)}
    (start : w.flag = F) (run : Exec sem p w tr a w') : w'.flag = G :=
  (h w start).of_exec run

end Rules

section Io

variable {β : Type} {F G : Flags}

theorem host (o : HostOp) : Marks faulty (Lra.host o) F (o.flags F) :=
  op (S := Io) fun {w _ _} done start => by
    rw [← start]
    exact HostOp.Does.flags (w := w) done

theorem load {f : Flag} {k : Bool → Program Io β} (rest : Marks faulty (k (F f)) F G) :
    Marks faulty (Lra.host (.load f) >>= k) F G := by
  intro w start r w' done
  obtain ⟨rfl, rfl⟩ : r = w.flag f ∧ w' = w := done
  rw [start]
  exact rest w' start

theorem setTcaCh (c : Char) : Marks faulty (Lra.setTcaCh c) F F := by
  intro w start r w' done
  obtain rfl : w' = { w with tcaCh := c } := done
  exact start

theorem transfer (dev : Device) (call : BusCall) : Marks faulty (Lra.transfer dev call) F F := by
  intro w start r w' done
  obtain ⟨board, rfl⟩ : ∃ board, w' = { w with board } := done
  exact start

end Io

end Marks

end Lra
