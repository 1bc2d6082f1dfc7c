import Lra.Controller.Routing
import Lra.Host.Flaky

/-!
# Selections that fail

No operation asks whether the selection of a channel succeeded. A failed one leaves the
multiplexer where it was, but `tca_ch_` names the new axis and its transfers follow. They go
wrong exactly if the multiplexer was not on the selected channel already.
-/

namespace Lra

open Effect

/-- Where a thread is: a channel has been selected but not yet recorded, or none is pending
and the channel recorded last is known or not. -/
inductive Stage where
  | pending (ax : Axis)
  | recorded (ax : Option Axis)

def Stage.Idle (t : Stage) : Prop := ∃ c, t = .recorded c

/-- A selection is recorded at once, and only the drive recorded last transfers. -/
inductive Staged : Protocol Io Stage where
  | host {c o r} : Staged (.recorded c) (.host o) r (.recorded c)
  | select {c ax r} :
      Staged (.recorded c) (.bus .tca (Tca9548a.selectCall (drvCh ax))) r (.pending ax)
  | name {ax r} : Staged (.pending ax) (.setTcaCh ax.char) r (.recorded (some ax))
  | transfer {ax call r} : call.slave = 0x5a →
      Staged (.recorded (some ax)) (.bus (.drv ax) call) r (.recorded (some ax))

theorem staged_admits : Admits Staged (fun ax => .recorded (some ax)) Stage.Idle where
  host := by
    rintro _ ⟨c, rfl⟩ o r
    exact .host
  select := by
    rintro _ ⟨c, rfl⟩ ax r
    exact ⟨_, .select, fun _ => .name⟩
  transfer _ slave := .transfer slave
  idle _ := ⟨_, rfl⟩

/-- `tca_ch_` names the channel the multiplexer holds. -/
def World.Named (w : World) : Prop := ∃ ax, w.On ax ∧ w.tcaCh = ax.char

theorem World.on_unique {w : World} {ax ax' : Axis} (on : w.On ax) (on' : w.On ax') : ax' = ax := by
  have same : drvCh ax' = drvCh ax := on'.symm.trans on
  revert same
  cases ax <;> cases ax' <;> decide

theorem Axis.char_injective {ax ax' : Axis} (same : ax.char = ax'.char) : ax = ax' := by
  have names := congrArg axisOf same
  rw [axisOf_char, axisOf_char] at names
  exact Option.some.inj names

namespace Flaky

/-- No drive transfers while another's channel is selected, and `tca_ch_` names the channel
that is selected, except where a selection is about to be recorded. -/
def Fine (tr : List (IoOp × Flaky)) (s' : Flaky) : Prop :=
  (∀ o s, (o, s) ∈ tr →
    (∀ ax call, o = .bus (.drv ax) call → ∀ ax', s.world.On ax' → ax' = ax) ∧
    ((∀ c, o ≠ .setTcaCh c) → s.world.Named)) ∧
  s'.world.Named

/-- Every selection that fails finds the multiplexer on the channel to be selected. -/
def Careful (tr : List (IoOp × Flaky)) : Prop :=
  ∀ ax s, (IoOp.bus .tca (Tca9548a.selectCall (drvCh ax)), s) ∈ tr → s.failing = true →
    s.world.On ax

/-- The machine is as the thread takes it to be. -/
def Placed : Stage → Flaky → Prop
  | .pending ax, s => s.world.On ax
  | .recorded c, s => s.world.Named ∧ ∀ ax, c = some ax → s.world.On ax

section Transfer

variable {s : Flaky} {ax : Axis}

theorem after_failing (fails : s.failing = true) (call : BusCall) :
    (s.after call).world = s.world := by
  rw [after, if_pos fails]

theorem on_after_select (kept : ¬ (s.failing = true ∧ ¬ s.world.On ax)) :
    (s.after (Tca9548a.selectCall (drvCh ax))).world.On ax := by
  by_cases fails : s.failing = true
  · rw [after_failing fails]
    by_contra off
    exact kept ⟨fails, off⟩
  · rw [after, if_neg fails]
    rfl

end Transfer

section Exec

variable {α : Type} {p : Program Io α} {t : Stage} {s s' : Flaky} {tr : List (IoOp × Flaky)}
variable {a : α}

/-- Where no selection is pending, the channel is named right if all is fine from here. -/
theorem named_of_fine {c : Option Axis}
    (follows : p.Follows Staged (fun u _ => u.Idle) (.recorded c))
    (run : Exec flaky p s tr a s') (fine : Fine tr s') : s.world.Named := by
  cases run with
  | ret a s => exact fine.2
  | @op o _ _ r _ _ _ _ _ rest =>
      obtain ⟨t', permitted, _⟩ := follows r
      have here := (fine.1 o s (.head _)).2
      cases permitted with
      | host => exact here fun c => IoOp.noConfusion
      | select => exact here fun c => IoOp.noConfusion
      | transfer => exact here fun c => IoOp.noConfusion

theorem Fine.tail {o : IoOp} (fine : Fine ((o, s) :: tr) s') : Fine tr s' :=
  ⟨fun o' u later => fine.1 o' u (.tail _ later), fine.2⟩

/-- A selection that was lost shows in `tca_ch_` as soon as it has been recorded. -/
theorem not_fine_lost {ax : Axis} (follows : p.Follows Staged (fun u _ => u.Idle) (.pending ax))
    (lost : ¬ s.world.On ax) (run : Exec flaky p s tr a s') : ¬ Fine tr s' := by
  intro fine
  cases run with
  | ret a s =>
      obtain ⟨c, impossible⟩ := follows
      cases impossible
  | @op o next _ r u tr' _ _ answer rest =>
      obtain ⟨t', permitted, after⟩ := follows r
      cases permitted
      obtain rfl := answer
      obtain ⟨ax', on, named⟩ := named_of_fine after rest fine.tail
      exact lost (Axis.char_injective named ▸ on)

theorem fine_cons_iff {o : IoOp}
    (here : (∀ ax call, o = .bus (.drv ax) call → ∀ ax', s.world.On ax' → ax' = ax) ∧
      ((∀ c, o ≠ .setTcaCh c) → s.world.Named))
    (careful : ∀ ax, o = .bus .tca (Tca9548a.selectCall (drvCh ax)) → s.failing = true →
      s.world.On ax) (rest : Fine tr s' ↔ Careful tr) :
    Fine ((o, s) :: tr) s' ↔ Careful ((o, s) :: tr) := by
  constructor
  · intro fine ax u mem fails
    rcases List.mem_cons.mp mem with same | later
    · cases same
      exact careful ax rfl fails
    · exact rest.mp fine.tail ax u later fails
  · intro all
    have fine := rest.mpr fun ax u later => all ax u (.tail _ later)
    refine ⟨fun o' u mem => ?_, fine.2⟩
    rcases List.mem_cons.mp mem with same | later
    · cases same
      exact here
    · exact fine.1 o' u later

/-- Placed where the thread takes it to be, an execution is fine exactly if it is careful. -/
theorem fine_iff_careful (follows : p.Follows Staged (fun u _ => u.Idle) t) (placed : Placed t s)
    (run : Exec flaky p s tr a s') : Fine tr s' ↔ Careful tr := by
  induction run generalizing t with
  | ret a s =>
      obtain ⟨c, rfl⟩ := follows
      exact iff_of_true ⟨fun _ _ none => absurd none List.not_mem_nil, placed.1⟩
        fun _ _ none => absurd none List.not_mem_nil
  | @op o next s r u tr a s' answer rest ih =>
      obtain ⟨t', permitted, after⟩ := follows r
      cases permitted with
      | host =>
          obtain ⟨w', does, rfl⟩ := answer
          obtain ⟨board, name⟩ := host_channel does
          have still : ∀ ax, (w'.On ax ↔ s.world.On ax) := fun ax => by
            rw [World.On, World.On, board]
          refine fine_cons_iff ⟨fun _ _ other => IoOp.noConfusion other, fun _ => placed.1⟩ ?_
            (ih after ?_)
          · exact fun _ other => IoOp.noConfusion other
          · refine ⟨?_, fun ax here => (still ax).mpr (placed.2 ax here)⟩
            obtain ⟨ax, on, named⟩ := placed.1
            exact ⟨ax, (still ax).mpr on, name.trans named⟩
      | @select c ax =>
          obtain ⟨_, rfl⟩ := answer
          by_cases lost : s.failing = true ∧ ¬ s.world.On ax
          · have astray : ¬ (s.after (Tca9548a.selectCall (drvCh ax))).world.On ax := by
              rw [after_failing lost.1]
              exact lost.2
            exact iff_of_false (fun fine => not_fine_lost after astray rest fine.tail)
              fun careful => lost.2 (careful ax s (.head _) lost.1)
          · refine fine_cons_iff ⟨?_, fun _ => placed.1⟩ ?_ (ih after ?_)
            · intro _ _ other
              cases other
            · intro ax' same fails
              have channel : drvCh ax = drvCh ax' := by
                injection same with _ call
                injection call with data
                injection data with _ _ _ _ value
                exact List.head_eq_of_cons_eq value
              have on : s.world.On ax := by
                by_contra off
                exact lost ⟨fails, off⟩
              exact on.trans channel
            · exact on_after_select lost
      | @name ax =>
          obtain rfl := answer
          have on : s.world.On ax := placed
          refine fine_cons_iff ⟨fun _ _ other => IoOp.noConfusion other,
            fun other => (other _ rfl).elim⟩ ?_ (ih after ?_)
          · exact fun _ other => IoOp.noConfusion other
          · refine ⟨⟨ax, on, rfl⟩, fun ax' here => ?_⟩
            cases here
            exact on
      | @transfer ax call _ slave =>
          obtain ⟨_, rfl⟩ := answer
          have on : s.world.On ax := placed.2 ax rfl
          have still : (s.after call).world.On ax := on_after on slave
          refine fine_cons_iff ⟨?_, fun _ => placed.1⟩ ?_ (ih after ?_)
          · intro ax' call' same ax'' on''
            cases same
            exact World.on_unique on on''
          · intro _ other
            cases other
          · obtain ⟨ax', on', named⟩ := placed.1
            obtain rfl := World.on_unique on on'
            refine ⟨⟨ax', still, (tcaCh_after s call).trans named⟩, fun ax'' here => ?_⟩
            cases here
            exact still

end Exec

end Flaky

namespace Controller

open Flaky

/-- Whatever operations are called one after the other on one thread, and whichever of their
transfers fail: every transfer goes to its own drive and `tca_ch_` names the channel that the
multiplexer holds, exactly if no selection fails while another channel is selected. -/
theorem inOrder_fine_iff {calls : List Call} {s s' : Flaky} {tr : List (IoOp × Flaky)}
    (named : s.world.Named) (run : Exec flaky (inOrder calls) s tr () s') :
    Fine tr s' ↔ Careful tr :=
  fine_iff_careful (inOrder_visits staged_admits calls (.recorded none) ⟨none, rfl⟩)
    ⟨named, fun _ unknown => nomatch unknown⟩ run

/-- The multiplexer and `tca_ch_` are on x, and the next transfer fails. -/
def onX : Flaky := ⟨{ World.initial with board := ⟨drvCh .x, fun _ _ => 0⟩ }, [true]⟩

theorem onX_named : onX.world.Named := ⟨.x, rfl, rfl⟩

theorem inOrder_fine_iff_updateRtp :
    ∃ tr s', Exec flaky (inOrder [.updateRtp 9 'x']) onX tr () s' ∧ (Fine tr s' ↔ Careful tr) := by
  obtain ⟨tr, run⟩ := flakyBench_within.exec (inOrder [.updateRtp 9 'x']) onX
  exact ⟨tr, _, run, inOrder_fine_iff onX_named run⟩

/-- The selection of y fails, so the value for y is written to the x drive. -/
theorem not_fine_updateRtp :
    ∃ tr s', Exec flaky (inOrder [.updateRtp 9 'y']) onX tr () s' ∧ onX.world.Named ∧
      s'.world.reg .x 0x02 = 9 ∧ ¬ Fine tr s' := by
  obtain ⟨tr, run⟩ := flakyBench_within.exec (inOrder [.updateRtp 9 'y']) onX
  refine ⟨tr, _, run, onX_named, by decide, fun fine => ?_⟩
  obtain ⟨ax, on, named⟩ := fine.2
  revert on named
  cases ax <;> decide

end Controller

end Lra
