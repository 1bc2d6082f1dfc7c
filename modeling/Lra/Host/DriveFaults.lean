import Lra.Effect.Fallible
import Lra.Effect.Transition
import Lra.Host.Flaky

/-!
# Driving a chip through failing transfers

`Run` sends the wish to the chip and then caches it, without asking whether it arrived; the
calibration uses the mode it has read before it knows whether it could be read. Which of
their transfers have to succeed for the cache and the mode to be right is determined exactly.
-/

namespace Lra

open Effect

/-! ### What is written to a drive -/

/-- The byte a transfer sends to register `a`, if it sends one. -/
def BusCall.sent (a : Nat) (call : BusCall) : Option UInt8 :=
  match call.out with
  | [] => none
  | first :: data => if first.toNat ≤ a then data[a - first.toNat]? else none

/-- The bytes sent to register `a` of a drive, each with the state in which it was sent. -/
def puts {σ : Type} (ax : Axis) (a : Nat) (tr : List (IoOp × σ)) : List (UInt8 × σ) :=
  tr.filterMap fun
    | (.bus (.drv ax') call, s) => if ax' = ax then (call.sent a).map (·, s) else none
    | _ => none

namespace Drv2605l

theorem sent_readCall (reg : Register) (a : Nat) : (readCall reg).sent a = none := by
  change (if reg.index ≤ a then ([] : List UInt8)[a - reg.index]? else none) = none
  split <;> rfl

theorem sent_writeCall (reg : Register) (v : UInt8) (a : Nat) :
    (writeCall reg v).sent a = if a = reg.index then some v else none := by
  change (if reg.index ≤ a then [v][a - reg.index]? else none) = _
  by_cases here : a = reg.index
  · rw [if_pos here, if_pos (Nat.le_of_eq here.symm), here, Nat.sub_self]
    rfl
  · rw [if_neg here]
    split
    · exact List.getElem?_eq_none (by simp; omega)
    · rfl

end Drv2605l

namespace Flaky

open Drv2605l

/-! ### One transfer -/

section Transfer

variable {ax : Axis} {s : Flaky}

/-- What `Read` answers. -/
def readOf (ax : Axis) (reg : Register) (s : Flaky) : Int32 :=
  if s.failing = true then Errors.kRead else Int32.ofNat (s.world.reg ax reg.index).toNat

/-- A read uses up an outcome and changes nothing. -/
theorem after_readCall (on : s.world.On ax) (reg : Register) :
    s.after (readCall reg) = ⟨s.world, s.fails.tail⟩ := by
  have unchanged : s.world.board.after (readCall reg) = s.world.board := by
    rw [after_chip on rfl]
    have same : RegFile.receive readOnly (readCall reg).out (s.world.board.chip ax) =
        s.world.board.chip ax := RegFile.store_nil
    rw [same, Function.update_eq_self]
  rw [after, unchanged, ite_self]

theorem reg_after_write (on : s.world.On ax) {reg : Register}
    (writable : readOnly reg.index = false) (v : UInt8) (a : Nat) :
    (s.after (writeCall reg v)).world.reg ax a =
      if s.failing = false ∧ a = reg.index then v else s.world.reg ax a := by
  rw [after]
  by_cases fails : s.failing = true
  · rw [if_pos fails, if_neg (fun both => absurd fails (by simp [both.1]))]
  · rw [if_neg fails]
    change (s.world.board.after (writeCall reg v)).chip ax a = _
    rw [chip_after on rfl]
    change RegFile.store readOnly reg.index [v] (s.world.board.chip ax) a = _
    by_cases here : a = reg.index
    · rw [here, RegFile.store_one_self writable, if_pos ⟨eq_false_of_ne_true fails, rfl⟩]
    · rw [RegFile.store_one_ne here, if_neg (fun both => here both.2)]
      rfl

end Transfer

end Flaky

/-! ### Executions -/

section Rules

open Drv2605l

variable {ax : Axis} {α : Type} {s s' : Flaky} {tr : List (IoOp × Flaky)} {a : α}

theorem Flaky.of_read (on : s.world.On ax) {reg : Register} (direct : Direct reg = true)
    {g : Int32 → Program Io α} (run : Exec flaky (read ax reg >>= g) s tr a s') :
    ∃ tr', (∀ b, puts ax b tr = puts ax b tr') ∧
      Exec flaky (g (s.readOf ax reg)) ⟨s.world, s.fails.tail⟩ tr' a s' := by
  rw [read_eq direct, bind_assoc] at run
  obtain ⟨r, tr', reply, rfl, rest⟩ := Flaky.of_transfer run
  refine ⟨tr', fun b => ?_, ?_⟩
  · simp [puts, sent_readCall]
  · rw [Flaky.after_readCall on] at rest
    have value : readValue r = s.readOf ax reg := by
      rw [Flaky.readOf]
      split at reply
      · next fails =>
          have short : ¬ (r.ret == 1) = true := by
            rw [beq_iff_eq]
            omega
          rw [if_pos fails, readValue, if_neg short]
      · next succeeds => rw [if_neg succeeds, reply, readValue_reply on]
    rw [← value]
    exact rest

theorem Flaky.of_write {reg : Register} {val : Int} (direct : Direct reg = true)
    (nonneg : 0 ≤ val) {g : Int → Program Io α}
    (run : Exec flaky (write ax reg val >>= g) s tr a s') :
    ∃ r tr', (∀ b, puts ax b tr =
        (if b = reg.index then [(UInt8.ofInt val, s)] else []) ++ puts ax b tr') ∧
      Exec flaky (g r) (s.after (writeCall reg (UInt8.ofInt val))) tr' a s' := by
  rw [write_eq direct nonneg, bind_assoc] at run
  obtain ⟨r, tr', _, rfl, rest⟩ := Flaky.of_transfer run
  refine ⟨r.ret, tr', fun b => ?_, rest⟩
  by_cases here : b = reg.index <;> simp [puts, sent_writeCall, here]

end Rules

/-! ### `Ready` and `Run` -/

namespace Flaky

open Drv2605l

/-- The state after `Ready(b)`, which gives up if the mode cannot be read. -/
def readied (ax : Axis) (b : Bool) (s : Flaky) : Flaky :=
  let t : Flaky := ⟨s.world, s.fails.tail⟩
  if s.failing = true then t
  else t.after (writeCall mode
    (UInt8.ofInt (readyByte (Int32.ofNat (s.world.reg ax mode.index).toNat) b).toInt))

/-- The state after `Run(b)`. -/
def ran (ax : Axis) (b : Bool) (s : Flaky) : Flaky :=
  if s.world.flag (.run ax) = b then s
  else
    let t := (s.readied ax b).after (writeCall go b.toUInt8)
    { t with world := t.world.setFlag (.run ax) b }

section Run

variable {ax : Axis} {b : Bool} {s : Flaky}

theorem on_readied (on : s.world.On ax) : (s.readied ax b).world.On ax := by
  rw [readied]
  split
  · exact on
  · exact on_after (s := ⟨s.world, s.fails.tail⟩) on rfl

theorem on_ran (on : s.world.On ax) : (s.ran ax b).world.On ax := by
  rw [ran]
  split
  · exact on
  · exact on_after (on_readied on) rfl

@[simp] theorem flag_ran : (s.ran ax b).world.flag (.run ax) = b := by
  rw [ran]
  split
  · next same => exact same
  · exact Function.update_self ..

/-- Nothing but the mode is written. -/
theorem reg_readied (on : s.world.On ax) {a : Nat} (other : a ≠ mode.index) :
    (s.readied ax b).world.reg ax a = s.world.reg ax a := by
  rw [readied]
  split
  · rfl
  · rw [reg_after_write (s := ⟨s.world, s.fails.tail⟩) on rfl, if_neg fun both => other both.2]

/-- Whether its write arrives or not, `Ready` leaves the mode alone. -/
theorem mode_readied (on : s.world.On ax) :
    (s.readied ax b).world.reg ax mode.index &&& 0x07 = s.world.reg ax mode.index &&& 0x07 := by
  rw [readied]
  split
  · rfl
  · rw [reg_after_write (s := ⟨s.world, s.fails.tail⟩) on rfl]
    split
    · exact (readyByte_spec _ b).2.2.2
    · rfl

/-- The standby bit is the one asked for exactly if it was so before, or the read and the
write succeed. -/
theorem standby_readied (on : s.world.On ax) :
    standbyBit ((s.readied ax b).world.reg ax mode.index) =
      if s.fails.headD false = false ∧ s.fails.tail.headD false = false then !b
      else standbyBit (s.world.reg ax mode.index) := by
  rw [readied]
  by_cases fails : s.failing = true
  · have first : ¬ (s.fails.headD false = false ∧ s.fails.tail.headD false = false) :=
      fun both => absurd fails (ne_true_of_eq_false both.1)
    rw [if_pos fails, if_neg first]
  · have first : s.fails.headD false = false := eq_false_of_ne_true fails
    rw [if_neg fails, reg_after_write (s := ⟨s.world, s.fails.tail⟩) on rfl]
    by_cases second : s.fails.tail.headD false = false
    · rw [if_pos ⟨second, rfl⟩, if_pos ⟨first, second⟩]
      exact (readyByte_spec _ b).2.2.1
    · rw [if_neg fun both => second both.1, if_neg fun both => second both.2]

theorem go_ran (on : s.world.On ax) (change : s.world.flag (.run ax) ≠ b) :
    (s.ran ax b).world.reg ax go.index =
      if (s.readied ax b).failing = false then b.toUInt8 else s.world.reg ax go.index := by
  rw [ran, if_neg change]
  change ((s.readied ax b).after (writeCall go b.toUInt8)).world.reg ax go.index = _
  rw [reg_after_write (on_readied on) rfl, reg_readied on (by decide)]
  simp

theorem mode_ran (on : s.world.On ax) (change : s.world.flag (.run ax) ≠ b) :
    (s.ran ax b).world.reg ax mode.index = (s.readied ax b).world.reg ax mode.index := by
  have apart : mode.index ≠ go.index := by decide
  rw [ran, if_neg change]
  change ((s.readied ax b).after (writeCall go b.toUInt8)).world.reg ax mode.index = _
  rw [reg_after_write (on_readied on) rfl, if_neg fun both => apart both.2]

theorem fails_readied (ax : Axis) (b : Bool) (s : Flaky) : (s.readied ax b).fails =
    if s.failing = true then s.fails.tail else s.fails.tail.tail := by
  rw [readied]
  split <;> rfl

end Run

section Rules

variable {ax : Axis} {b : Bool} {α : Type} {s s' : Flaky} {tr : List (IoOp × Flaky)} {a : α}

theorem of_ready (on : s.world.On ax) {g : Unit → Program Io α}
    (run : Exec flaky (ready ax b >>= g) s tr a s') :
    ∃ tr', puts ax mode.index tr' <:+ puts ax mode.index tr ∧
      puts ax go.index tr = puts ax go.index tr' ∧ Exec flaky (g ()) (s.readied ax b) tr' a s' := by
  rw [ready, bind_assoc] at run
  obtain ⟨tr₁, same, rest⟩ := of_read on rfl run
  by_cases fails : s.failing = true
  · have value : s.readOf ax mode = Errors.kRead := if_pos fails
    have negative : Errors.kRead < 0 := by decide
    rw [value, if_pos negative] at rest
    refine ⟨tr₁, ?_, same _, ?_⟩
    · exact same mode.index ▸ List.suffix_rfl
    · rw [readied, if_pos fails]
      exact rest
  · have value : s.readOf ax mode = Int32.ofNat (s.world.reg ax mode.index).toNat := if_neg fails
    obtain ⟨nonneg, byte, _⟩ := readyByte_spec (s.world.reg ax mode.index) b
    rw [value, if_neg nonneg, bind_assoc] at rest
    obtain ⟨r, tr₂, written, rest⟩ := of_write rfl byte rest
    refine ⟨tr₂, ?_, ?_, ?_⟩
    · rw [same, written]
      exact List.suffix_append _ _
    · rw [same, written, if_neg (by decide), List.nil_append]
    · rw [readied, if_neg fails]
      exact rest

theorem of_run (on : s.world.On ax) {g : Unit → Program Io α}
    (run : Exec flaky (Drv2605l.run ax b >>= g) s tr a s') :
    ∃ tr', puts ax mode.index tr' <:+ puts ax mode.index tr ∧
      puts ax go.index tr = (if s.world.flag (.run ax) = b then []
        else [(b.toUInt8, s.readied ax b)]) ++ puts ax go.index tr' ∧
      Exec flaky (g ()) (s.ran ax b) tr' a s' := by
  rw [Drv2605l.run, bind_assoc] at run
  obtain ⟨tr₁, rfl, rest⟩ := of_load run
  by_cases same : s.world.flag (.run ax) = b
  · rw [if_neg (by simp [same])] at rest
    refine ⟨tr₁, List.suffix_rfl, ?_, ?_⟩
    · rw [if_pos same]
      rfl
    · rw [ran, if_pos same]
      exact rest
  · rw [if_pos (by simpa using same), bind_assoc] at rest
    obtain ⟨tr₂, older, same₂, rest⟩ := of_ready on rest
    rw [bind_assoc] at rest
    have byte : 0 ≤ b.toInt ∧ UInt8.ofInt b.toInt = b.toUInt8 := by
      cases b <;> decide
    obtain ⟨r, tr₃, written, rest⟩ := of_write rfl byte.1 rest
    rw [byte.2] at written rest
    obtain ⟨tr₄, rfl, stored⟩ := of_store rest
    refine ⟨tr₄, ?_, ?_, ?_⟩
    · rw [written] at older
      exact (List.suffix_append _ _).trans older
    · change puts ax go.index tr₁ = _
      rw [same₂, written, if_pos rfl, if_neg same]
      rfl
    · rw [ran, if_neg same]
      exact stored

end Rules

/-! ### Sequences of `Run` -/

/-- A call of `Run`, with whatever outcomes its transfers have. -/
def RunCall (ax : Axis) (s : Flaky) (b : Bool) (s' : Flaky) : Prop :=
  ∃ tr, Exec flaky (Drv2605l.run ax b) s tr () s'

/-- The cached state is that of the chip. -/
def Cached (ax : Axis) (w : World) : Prop :=
  w.reg ax go.index &&& 1 = (w.flag (.run ax)).toUInt8 ∧
    standbyBit (w.reg ax mode.index) = !w.flag (.run ax)

instance (ax : Axis) (w : World) : Decidable (Cached ax w) :=
  inferInstanceAs (Decidable (_ ∧ _))

/-- The next three transfers succeed. -/
def Delivered (s : Flaky) : Prop := Spared 3 s.fails

section RunCall

variable {ax : Axis} {b : Bool} {s s' : Flaky}

theorem runCall_ran (on : s.world.On ax) (call : RunCall ax s b s') : s' = s.ran ax b := by
  obtain ⟨tr, run⟩ := call
  rw [← Program.bind_ret (Drv2605l.run ax b)] at run
  obtain ⟨tr', _, _, rest⟩ := of_run on run
  cases rest
  rfl

theorem delivered_iff (s : Flaky) : s.Delivered ↔ s.fails.headD false = false ∧
    s.fails.tail.headD false = false ∧ s.fails.tail.tail.headD false = false := by
  rw [Delivered, spared_succ, spared_succ, spared_succ]
  simp

/-- After a change the cache is right exactly if the three transfers succeed. -/
theorem cached_ran_iff (on : s.world.On ax) (cached : Cached ax s.world)
    (change : s.world.flag (.run ax) ≠ b) : Cached ax (s.ran ax b).world ↔ s.Delivered := by
  obtain ⟨goBit, standby⟩ := cached
  have wish : s.world.flag (.run ax) = !b := by
    revert change
    cases s.world.flag (.run ax) <;> cases b <;> simp
  rw [wish] at goBit standby
  have goIff : (s.ran ax b).world.reg ax go.index &&& 1 = b.toUInt8 ↔
      (s.readied ax b).failing = false := by
    rw [go_ran on change]
    split
    · next succeeds => exact iff_of_true (by cases b <;> decide) succeeds
    · next fails =>
        rw [goBit]
        exact iff_of_false (by cases b <;> decide) fails
  have standbyIff : standbyBit ((s.ran ax b).world.reg ax mode.index) = !b ↔
      s.fails.headD false = false ∧ s.fails.tail.headD false = false := by
    rw [mode_ran on change, standby_readied on, standby]
    split
    · next succeeds => exact iff_of_true rfl succeeds
    · next fails => exact iff_of_false (by cases b <;> decide) fails
  rw [Cached, flag_ran, goIff, standbyIff, delivered_iff, failing, fails_readied]
  constructor
  · rintro ⟨third, first, second⟩
    have succeeds : ¬ s.failing = true := ne_true_of_eq_false first
    rw [if_neg succeeds] at third
    exact ⟨first, second, third⟩
  · rintro ⟨first, second, third⟩
    have succeeds : ¬ s.failing = true := ne_true_of_eq_false first
    rw [if_neg succeeds]
    exact ⟨third, first, second⟩

/-- After a call the cache is right or as it was before. -/
def Honest (ax : Axis) (s s' : Flaky) : Prop :=
  s'.world.flag (.run ax) = s.world.flag (.run ax) ∨ Cached ax s'.world

/-- The transfers of a call that changes the state succeed. -/
def Heard (ax : Axis) (s : Flaky) (b : Bool) : Prop :=
  s.world.flag (.run ax) ≠ b → s.Delivered

/-- From a state in which the cache is right, a call leaves it honest exactly if it is heard. -/
theorem honest_iff (on : s.world.On ax) (cached : Cached ax s.world) (call : RunCall ax s b s') :
    Honest ax s s' ↔ Heard ax s b := by
  obtain rfl := runCall_ran on call
  rw [Honest, Heard, flag_ran]
  by_cases same : s.world.flag (.run ax) = b
  · exact iff_of_true (.inl same.symm) fun change => absurd same change
  · constructor
    · rintro (unchanged | right) _
      · exact absurd unchanged.symm same
      · exact (cached_ran_iff on cached same).mp right
    · intro heard
      exact .inr ((cached_ran_iff on cached same).mpr (heard same))

theorem cached_of_honest (on : s.world.On ax) (cached : Cached ax s.world)
    (call : RunCall ax s b s') (honest : Honest ax s s') : s'.world.On ax ∧ Cached ax s'.world := by
  obtain rfl := runCall_ran on call
  refine ⟨on_ran on, ?_⟩
  by_cases same : s.world.flag (.run ax) = b
  · rw [ran, if_pos same]
    exact cached
  · rcases honest with unchanged | right
    · rw [flag_ran] at unchanged
      exact absurd unchanged.symm same
    · exact right

end RunCall

/-- Over any sequence of calls, whatever transfers fail, the cache is honest after every call
exactly if every call that changes the state is heard. -/
theorem honest_runs_iff {ax : Axis} {s s' : Flaky} {h : List (Bool × Flaky)}
    (on : s.world.On ax) (cached : Cached ax s.world) (run : Run (RunCall ax) s h s') :
    (∀ b u h', (b, u) :: h' <:+ h → Honest ax (stateAfter s h') u) ↔
      ∀ b u h', (b, u) :: h' <:+ h → Heard ax (stateAfter s h') b :=
  run.steps_iff (I := fun s => s.world.On ax ∧ Cached ax s.world)
    (G := fun s _ s' => Honest ax s s') ⟨on, cached⟩
    (fun held call => honest_iff held.1 held.2 call)
    fun held call honest => cached_of_honest held.1 held.2 call honest

/-- The x drive is selected, with the given mode and GO register. -/
def withMode (flag : Bool) (m g : UInt8) : World :=
  { World.initial.setFlag (.run .x) flag with
    board := ⟨drvCh .x, fun _ r => if r = mode.index then m else if r = go.index then g else 0⟩ }

/-- The drive is stopped, is to run again but does not hear of it, and is stopped once more. The
first call is honest, and not all of them are. -/
theorem honest_runs_iff_unheard :
    let s : Flaky := ⟨withMode true 0x05 1, [false, false, false, false, false, true]⟩
    ∃ h s' call, Run (RunCall .x) s h s' ∧ h.map Prod.fst = [false, true, false] ∧
      h.getLast? = some call ∧ Honest .x s call.2 ∧
      ¬ ∀ b u h', (b, u) :: h' <:+ h → Honest .x (stateAfter s h') u := by
  intro s
  have on : s.world.On .x := rfl
  have cached : Cached .x s.world := by decide
  obtain ⟨_, first⟩ := flakyBench_within.exec (Drv2605l.run .x false) s
  obtain ⟨_, second⟩ := flakyBench_within.exec (Drv2605l.run .x true) _
  obtain ⟨_, third⟩ := flakyBench_within.exec (Drv2605l.run .x false) _
  have stopped : Run (RunCall .x) s [(false, _)] _ := .step .nil ⟨_, first⟩
  have calls := (stopped.step (l := true) ⟨_, second⟩).step (l := false) ⟨_, third⟩
  have heard : Heard .x s false := fun _ => (delivered_iff s).mpr (by decide)
  refine ⟨_, _, _, calls, rfl, rfl, ?_, ?_⟩
  · refine (honest_runs_iff on cached stopped).mpr ?_ _ _ [] List.suffix_rfl
    exact forall_steps_cons.mpr ⟨heard, forall_steps_nil⟩
  · rw [honest_runs_iff on cached calls]
    intro all
    have unheard := all _ _ _ (List.suffix_cons _ _) (by decide +kernel)
    rw [delivered_iff] at unheard
    exact absurd unheard (by decide +kernel)

/-- The mode cannot be read, so the chip is not put into standby, but is taken for stopped. -/
theorem not_honest_unread :
    ∃ h s', Run (RunCall .x) ⟨withMode true 0x05 1, [true]⟩ h s' ∧
      Cached .x (withMode true 0x05 1) ∧
      ¬ ∀ b u h', (b, u) :: h' <:+ h →
        Honest .x (stateAfter ⟨withMode true 0x05 1, [true]⟩ h') u := by
  obtain ⟨tr, run⟩ := flakyBench_within.exec (Drv2605l.run .x false)
    ⟨withMode true 0x05 1, [true]⟩
  have calls : Run (RunCall .x) _ [(false, _)] _ := .step .nil ⟨tr, run⟩
  refine ⟨_, _, calls, by decide, fun honest => ?_⟩
  rcases honest _ _ _ List.suffix_rfl with unchanged | ⟨_, standby⟩
  · exact absurd unchanged (by decide)
  · exact absurd standby (by decide)

/-! ### The calibration -/

/-- On its channel, `p` writes nothing. -/
def Reads (ax : Axis) {α : Type} (p : Program Io α) : Prop :=
  ∀ s tr a s', s.world.On ax → Exec flaky p s tr a s' →
    (∀ b, puts ax b tr = []) ∧ s'.world = s.world

namespace Reads

variable {ax : Axis} {α β : Type} {p : Program Io α} {f : α → Program Io β}

theorem ret (a : α) : Reads ax (.ret a) := by
  intro s tr b s' _ run
  cases run
  exact ⟨fun _ => rfl, rfl⟩

theorem bind (first : Reads ax p) (rest : ∀ a, Reads ax (f a)) : Reads ax (p >>= f) := by
  intro s tr b s' on run
  obtain ⟨tr₁, a, t, tr₂, begun, ended, rfl⟩ := run.of_bind
  obtain ⟨none₁, world₁⟩ := first s tr₁ a t on begun
  obtain ⟨none₂, world₂⟩ := rest a t tr₂ b s' (world₁.symm ▸ on) ended
  refine ⟨fun b => ?_, world₂.trans world₁⟩
  have both : puts ax b (tr₁ ++ tr₂) = puts ax b tr₁ ++ puts ax b tr₂ := List.filterMap_append
  rw [both, none₁, none₂]
  rfl

theorem read (reg : Register) (direct : Direct reg = true) : Reads ax (Drv2605l.read ax reg) := by
  intro s tr a s' on run
  rw [← Program.bind_ret (Drv2605l.read ax reg)] at run
  obtain ⟨tr', same, rest⟩ := of_read on direct run
  cases rest
  exact ⟨fun b => (same b).trans rfl, rfl⟩

theorem getCalibrationInfo : Reads ax (Drv2605l.getCalibrationInfo ax) := by
  refine (read _ rfl).bind fun _ => (read _ rfl).bind fun _ => ?_
  refine bind ?_ fun _ => (read _ rfl).bind fun _ => (read _ rfl).bind fun _ => ret _
  refine (read _ rfl).bind fun v => ?_
  split
  · exact ret _
  · exact (read _ rfl).bind fun _ => ret _

end Reads

section Calibration

variable {ax : Axis} {s s' : Flaky} {tr : List (IoOp × Flaky)}

/-- The state in which the calibration is set up. -/
def armed (s : Flaky) : Flaky :=
  (⟨s.world, s.fails.tail⟩ : Flaky).after (writeCall mode 0x47)

/-- The byte with which the calibration ends. -/
def resumed (ax : Axis) (s : Flaky) : UInt8 :=
  UInt8.ofInt (shl 0x01 6 ||| (s.readOf ax mode &&& 0x07)).toInt

/-- The state before the mode is resumed. -/
def calibrated (ax : Axis) (s : Flaky) : Flaky := (s.armed.ran ax true).ran ax false

theorem on_armed (on : s.world.On ax) : s.armed.world.On ax :=
  on_after (s := ⟨s.world, s.fails.tail⟩) on rfl

theorem mode_armed (on : s.world.On ax) (arrives : s.fails.tail.headD false = false) :
    s.armed.world.reg ax mode.index = 0x47 := by
  rw [armed, reg_after_write (s := ⟨s.world, s.fails.tail⟩) on rfl, if_pos ⟨arrives, rfl⟩]

theorem on_calibrated (on : s.world.On ax) : (s.calibrated ax).world.On ax :=
  on_ran (on_ran (on_armed on))

/-- The error code ends up in the mode bits. -/
theorem resumed_low (ax : Axis) (s : Flaky) : resumed ax s &&& 0x07 =
    if s.failing = true then UInt8.ofInt Errors.kRead.toInt &&& 0x07
    else s.world.reg ax mode.index &&& 0x07 := by
  rw [resumed, readOf]
  split
  · decide
  · exact (resumeByte_spec _).2.2

theorem resumed_standby (ax : Axis) (s : Flaky) : standbyBit (resumed ax s) = true := by
  rw [resumed, readOf]
  split
  · decide
  · exact (resumeByte_spec _).2.1

theorem resumed_nonneg (ax : Axis) (s : Flaky) :
    0 ≤ (shl 0x01 6 ||| (s.readOf ax mode &&& 0x07)).toInt := by
  rw [readOf]
  split
  · decide
  · exact (resumeByte_spec _).1

/-- What a calibration writes to `MODE` last and to `GO`, and where it ends. -/
theorem of_runAutoCalibration (on : s.world.On ax) {info : Drv2605lInfo}
    (run : Exec flaky (runAutoCalibration ax) s tr info s') :
    (∃ l, puts ax mode.index tr = l ++ [(s.resumed ax, s.calibrated ax)]) ∧
    puts ax go.index tr = (if s.world.flag (.run ax) = true then []
      else [(1, s.armed.readied ax true)]) ++ [(0, (s.armed.ran ax true).readied ax false)] ∧
    s'.world = ((s.calibrated ax).after (writeCall mode (s.resumed ax))).world := by
  obtain ⟨tr₁, same₁, rest⟩ := of_read on rfl run
  obtain ⟨r, tr₂, written₂, rest⟩ := of_write (s := ⟨s.world, s.fails.tail⟩) rfl (by decide) rest
  have armedOn := on_armed on
  obtain ⟨tr₃, older₃, go₃, rest⟩ := of_run (s := s.armed) armedOn rest
  obtain ⟨tr₄, older₄, go₄, rest⟩ := of_run (on_ran armedOn) rest
  obtain ⟨r, tr₅, written₅, rest⟩ := of_write rfl (resumed_nonneg ax s) rest
  obtain ⟨none₅, world⟩ := Reads.getCalibrationInfo _ _ _ _
    (on_after (on_calibrated on) rfl) rest
  refine ⟨?_, ?_, world⟩
  · have last : puts ax mode.index tr₄ = [(s.resumed ax, s.calibrated ax)] := by
      rw [written₅, if_pos rfl, none₅, List.append_nil]
      rfl
    have whole : puts ax mode.index tr₂ <:+ puts ax mode.index tr := by
      rw [same₁, written₂]
      exact List.suffix_append _ _
    rw [last] at older₄
    obtain ⟨l, split⟩ := (older₄.trans older₃).trans whole
    exact ⟨l, split.symm⟩
  · have flag : s.armed.world.flag (.run ax) = s.world.flag (.run ax) := by
      rw [armed, flag_after]
    have apart : ¬ go.index = mode.index := by decide
    have stops : ¬ true = false := by decide
    rw [same₁, written₂, if_neg apart, List.nil_append, go₃, flag, go₄, flag_ran, if_neg stops,
      written₅, if_neg apart, none₅]
    rfl

/-- If its last write of `MODE` is delivered, a calibration leaves the mode it found and no
error code exactly if the mode could be read at its start. -/
theorem mode_resumed_iff (on : s.world.On ax) {info : Drv2605lInfo}
    (run : Exec flaky (runAutoCalibration ax) s tr info s') {v : UInt8} {t : Flaky}
    (last : (puts ax mode.index tr).getLast? = some (v, t)) (delivered : t.failing = false) :
    (s'.world.reg ax mode.index &&& 0x07 = s.world.reg ax mode.index &&& 0x07 ∧
      (s.failing = true → v &&& 0x07 ≠ UInt8.ofInt Errors.kRead.toInt &&& 0x07)) ↔
    s.failing = false := by
  obtain ⟨⟨l, writes⟩, _, world⟩ := of_runAutoCalibration on run
  rw [writes, List.getLast?_concat] at last
  cases last
  have final : s'.world.reg ax mode.index = s.resumed ax := by
    rw [world, reg_after_write (on_calibrated on) rfl, if_pos ⟨delivered, rfl⟩]
  rw [final, resumed_low]
  constructor
  · rintro ⟨_, code⟩
    by_contra fails
    have fails : s.failing = true := eq_true_of_ne_false fails
    exact code fails (if_pos fails)
  · intro read
    have read : ¬ s.failing = true := ne_true_of_eq_false read
    exact ⟨if_neg read, fun fails => absurd fails read⟩

/-- A drive in mode 5 whose transfers have the given outcomes. -/
def inMode5 (fails : List Bool) : Flaky := ⟨withMode false 0x45 0, fails⟩

theorem mode_resumed_iff_read :
    ∃ tr info s', Exec flaky (runAutoCalibration .x) (inMode5 [false, true]) tr info s' ∧
      ∃ v t, (puts .x mode.index tr).getLast? = some (v, t) ∧ t.failing = false ∧
      ((s'.world.reg .x mode.index &&& 0x07 =
          (inMode5 [false, true]).world.reg .x mode.index &&& 0x07 ∧
        ((inMode5 [false, true]).failing = true →
          v &&& 0x07 ≠ UInt8.ofInt Errors.kRead.toInt &&& 0x07)) ↔
      (inMode5 [false, true]).failing = false) := by
  have on : (inMode5 [false, true]).world.On .x := rfl
  obtain ⟨tr, run⟩ := flakyBench_within.exec (runAutoCalibration .x) (inMode5 [false, true])
  obtain ⟨⟨l, writes⟩, _, _⟩ := of_runAutoCalibration on run
  have last := (congrArg List.getLast? writes).trans List.getLast?_concat
  have delivered : (calibrated .x (inMode5 [false, true])).failing = false := by decide
  exact ⟨tr, _, _, run, _, _, last, delivered, mode_resumed_iff on run last delivered⟩

/-- The mode 5 cannot be read and is replaced by 6. -/
theorem mode_not_resumed :
    ∃ tr info s', Exec flaky (runAutoCalibration .x) (inMode5 [true]) tr info s' ∧
      ∃ v t, (puts .x mode.index tr).getLast? = some (v, t) ∧ t.failing = false ∧
      (inMode5 [true]).world.reg .x mode.index &&& 0x07 = 5 ∧
      s'.world.reg .x mode.index &&& 0x07 = 6 := by
  have on : (inMode5 [true]).world.On .x := rfl
  obtain ⟨tr, run⟩ := flakyBench_within.exec (runAutoCalibration .x) (inMode5 [true])
  obtain ⟨⟨l, writes⟩, _, _⟩ := of_runAutoCalibration on run
  have last := (congrArg List.getLast? writes).trans List.getLast?_concat
  exact ⟨tr, _, _, run, _, _, last, by decide, by decide, by decide⟩

/-- What is asked of a calibration in which every transfer succeeds: it is started in its
mode out of standby, and ends stopped with the mode it found. -/
structure Calibrates (ax : Axis) (w : World) (tr : List (IoOp × World)) (w' : World) : Prop where
  started : ∃ t, (1, t) ∈ puts ax go.index tr ∧ t.reg ax mode.index &&& 0x07 = 0x07 ∧
    standbyBit (t.reg ax mode.index) = false
  stopped : w'.reg ax go.index = 0
  idle : w'.flag (.run ax) = false
  standby : standbyBit (w'.reg ax mode.index) = true
  mode : w'.reg ax mode.index &&& 0x07 = w.reg ax mode.index &&& 0x07

/-- Where nothing fails any more, nothing fails after `Run` either. -/
theorem fails_ran {b : Bool} (none : s.fails = []) : (s.ran ax b).fails = [] := by
  rw [ran]
  split
  · exact none
  · rw [fails_after, fails_readied, none]
    split <;> rfl

theorem fails_calibrated {w : World} : ((steady w).calibrated ax).fails = [] :=
  fails_ran (fails_ran rfl)

/-- The drive is stopped before the mode is resumed. -/
theorem go_calibrated {w : World} (on : w.On ax) :
    ((steady w).calibrated ax).world.reg ax go.index = 0 := by
  have start : (steady w).world.On ax := on
  have runs : (((steady w).armed).ran ax true).world.flag (.run ax) ≠ false := by
    rw [flag_ran]
    decide
  rw [calibrated, go_ran (on_ran (on_armed start)) runs, failing, fails_readied,
    fails_ran (show (steady w).armed.fails = [] from rfl)]
  split <;> rfl

theorem puts_steady (ax : Axis) (a : Nat) (tr : List (IoOp × World)) :
    puts ax a (tr.map fun e => (e.1, steady e.2)) =
      (puts ax a tr).map fun e => (e.1, steady e.2) := by
  rw [puts, puts, List.filterMap_map, List.map_filterMap]
  refine List.filterMap_congr fun e _ => ?_
  obtain ⟨o, w⟩ := e
  cases o with
  | bus dev call =>
      cases dev with
      | tca => rfl
      | drv ax' =>
          simp only [Function.comp]
          split <;> simp [Option.map_map, Function.comp_def]
  | _ => rfl

section Ideal

variable {w w' : World} {tr : List (IoOp × World)} {info : Drv2605lInfo}

/-- A drive that is cached as running is only told to stop. -/
theorem go_not_written (on : w.On ax) (running : w.flag (.run ax) = true)
    (run : Exec ideal (runAutoCalibration ax) w tr info w') (t : World) :
    (1, t) ∉ puts ax go.index tr := by
  intro written
  have start : (steady w).world.On ax := on
  have running : (steady w).world.flag (.run ax) = true := running
  obtain ⟨_, writes, _⟩ := of_runAutoCalibration start (exec_steady run)
  have one := List.mem_map_of_mem (f := fun e : UInt8 × World => (e.1, steady e.2)) written
  rw [puts_steady, if_pos running, List.nil_append] at writes
  rw [writes] at one
  simp at one

/-- A calibration is carried out exactly if the drive was not cached as running. -/
theorem calibrates_iff (on : w.On ax) (run : Exec ideal (runAutoCalibration ax) w tr info w') :
    Calibrates ax w tr w' ↔ w.flag (.run ax) = false := by
  constructor
  · rintro ⟨⟨t, written, _⟩, _⟩
    by_contra running
    exact go_not_written on (eq_true_of_ne_false running) run t written
  · intro idle
    have start : (steady w).world.On ax := on
    obtain ⟨_, writes, ended⟩ := of_runAutoCalibration start (exec_steady run)
    have world : w' = (((steady w).calibrated ax).after
        (writeCall mode ((steady w).resumed ax))).world := ended
    rw [puts_steady] at writes
    have idle : ¬ (steady w).world.flag (.run ax) = true := ne_true_of_eq_false idle
    have resumedMode : w'.reg ax mode.index = (steady w).resumed ax := by
      rw [world, reg_after_write (on_calibrated start) rfl, failing, fails_calibrated]
      rfl
    rw [if_neg idle] at writes
    refine ⟨?_, ?_, ?_, ?_, ?_⟩
    · have first : (1, (steady w).armed.readied ax true) ∈
          (puts ax go.index tr).map fun e => (e.1, steady e.2) := by
        rw [writes]
        exact .head _
      obtain ⟨⟨v, t⟩, written, same⟩ := List.mem_map.mp first
      obtain ⟨rfl, same⟩ := Prod.mk.inj same
      have same : t = ((steady w).armed.readied ax true).world := congrArg Flaky.world same
      refine ⟨t, written, ?_, ?_⟩
      · rw [same, mode_readied (on_armed start), mode_armed start rfl]
        decide
      · rw [same, standby_readied (on_armed start)]
        rfl
    · rw [world, reg_after_write (on_calibrated start) rfl, if_neg (fun both => by cases both.2)]
      exact go_calibrated on
    · rw [world, flag_after]
      exact flag_ran
    · rw [resumedMode]
      exact resumed_standby ax _
    · rw [resumedMode, resumed_low]
      rfl

theorem calibrates_iff_idle :
    ∃ tr info w', Exec ideal (runAutoCalibration .x) (withMode false 0x45 0) tr info w' ∧
      (Calibrates .x (withMode false 0x45 0) tr w' ↔
        (withMode false 0x45 0).flag (.run .x) = false) := by
  obtain ⟨tr, run⟩ := bench_within_ideal.exec (runAutoCalibration .x) (withMode false 0x45 0)
  have on : (withMode false 0x45 0).On .x := rfl
  exact ⟨tr, _, _, run, calibrates_iff on run⟩

/-- The drive is running when the calibration is asked for. -/
theorem not_calibrates_running :
    ∃ tr info w', Exec ideal (runAutoCalibration .x) (withMode true 0x05 1) tr info w' ∧
      ¬ Calibrates .x (withMode true 0x05 1) tr w' := by
  obtain ⟨tr, run⟩ := bench_within_ideal.exec (runAutoCalibration .x) (withMode true 0x05 1)
  have on : (withMode true 0x05 1).On .x := rfl
  refine ⟨tr, _, _, run, fun calibrates => ?_⟩
  obtain ⟨t, written, _⟩ := calibrates.started
  exact go_not_written on rfl run t written

end Ideal

end Calibration

end Flaky

end Lra
