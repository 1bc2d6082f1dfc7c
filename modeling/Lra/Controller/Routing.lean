import Lra.Controller.Visits

/-!
# Every transfer goes to its own drive

The three drives share one slave address, so a transfer is only right if the
multiplexer holds the channel of the drive that issues it. The protocol `Routed`
states this discipline for one thread; every operation of the controller follows
it from any point at which none is in progress.
-/

namespace Lra

open Effect

/-- What a thread has done to the multiplexer: the channel it selected last, and the
axis it last recorded in `tca_ch_`. -/
structure Route where
  sel : Option Axis
  named : Option Axis

/-- The recorded axis is the selected one. -/
def Route.Settled (t : Route) : Prop := t.named = t.sel

def Route.initial : Route := ⟨none, none⟩

def Route.at (ax : Axis) : Route := ⟨some ax, some ax⟩

/-- Drives transfer only while their own channel is the one selected last. -/
inductive Routed : Protocol Io Route where
  | host {t o r} : Routed t (.host o) r t
  | name {t c r} : Routed t (.setTcaCh c) r { t with named := axisOf c }
  | select {t ax r} :
      Routed t (.bus .tca (Tca9548a.selectCall (drvCh ax))) r { t with sel := some ax }
  | transfer {t ax call r} : t.sel = some ax → call.slave = 0x5a →
      Routed t (.bus (.drv ax) call) r t

/-- The machine is as the thread left it. -/
def Route.Agrees (t : Route) (w : World) : Prop :=
  (∀ ax, t.sel = some ax → w.On ax) ∧ ∀ ax, t.named = some ax → w.tcaCh = ax.char

theorem char_of_axisOf {c : Char} {ax : Axis} (h : axisOf c = some ax) : c = ax.char := by
  unfold axisOf at h
  split at h <;> cases h <;> rfl

/-- A transfer to a drive leaves the multiplexer alone. -/
theorem wired_drv {dev : Device} {call : BusCall} {w w' : World} {r : BusReply}
    (slave : call.slave = 0x5a) (h : wired (.bus dev call) w r w') :
    w'.board.control = w.board.control ∧ w'.tcaCh = w.tcaCh := by
  have notMux : ¬ call.slave = 0x70 := by
    rw [slave]
    decide
  simp only [wired, if_neg notMux] at h
  obtain ⟨chip, rfl, _⟩ := h
  exact ⟨rfl, rfl⟩

theorem wired_select {dev : Device} {ax : Axis} {w w' : World} {r : BusReply}
    (h : wired (.bus dev (Tca9548a.selectCall (drvCh ax))) w r w') :
    w'.On ax ∧ w'.tcaCh = w.tcaCh := by
  simp only [wired, Tca9548a.selectCall_slave, if_true] at h
  obtain ⟨_, rfl⟩ := h
  exact ⟨rfl, rfl⟩

/-- Other operations leave channel and record alone. -/
theorem host_channel {o : HostOp} {w w' : World} {r : o.Res} (h : o.Does w r w') :
    w'.board = w.board ∧ w'.tcaCh = w.tcaCh := by
  cases o <;> simp only [HostOp.Does] at h <;> grind [World.setFlag]

theorem routed_sound : Sound Routed wired Route.Agrees := by
  intro t o r t' w w' agrees permitted answer
  obtain ⟨onSel, nameSel⟩ := agrees
  cases permitted with
  | host =>
      obtain ⟨board, name⟩ := host_channel answer
      refine ⟨fun ax h => ?_, fun ax h => name.trans (nameSel ax h)⟩
      rw [World.On, board]
      exact onSel ax h
  | name =>
      obtain rfl := answer
      exact ⟨onSel, fun ax h => char_of_axisOf h⟩
  | select =>
      obtain ⟨on, name⟩ := wired_select answer
      refine ⟨fun ax h => ?_, fun ax h => name.trans (nameSel ax h)⟩
      cases h
      exact on
  | transfer sel slave =>
      obtain ⟨control, name⟩ := wired_drv slave answer
      refine ⟨fun ax h => ?_, fun ax h => name.trans (nameSel ax h)⟩
      rw [World.On, control]
      exact onSel ax h

/-- Every operation of the controller keeps to the discipline. -/
theorem routed_admits : Admits Routed Route.at Route.Settled where
  host _ _ _ := .host
  select {t} _ ax _ := by
    refine ⟨{ t with sel := some ax }, .select, fun _ => ?_⟩
    have named : Route.at ax = { sel := some ax, named := axisOf ax.char } := by
      simp [Route.at]
    rw [named]
    exact .name
  transfer _ slave := .transfer rfl slave
  idle _ := rfl

namespace Controller

/-- The program may start wherever no operation is in progress, and ends so. -/
def Orderly {α : Type} (p : Program Io α) : Prop :=
  ∀ t : Route, t.Settled → p.Follows Routed (fun u _ => u.Settled) t

theorem Call.orderly (c : Call) : Orderly c.code := c.visits routed_admits

theorem inOrder_orderly (calls : List Call) : Orderly (inOrder calls) :=
  inOrder_visits routed_admits calls

/-- Along a permitted walk every transfer of a drive finds its own channel selected. -/
theorem transfers_on_channel {t u : Route} {tr : List (Io.Op × World)}
    (walk : Walk Routed Route.Agrees t tr u) {ax : Axis} {call : BusCall} {s : World}
    (mem : (IoOp.bus (.drv ax) call, s) ∈ tr) : s.On ax := by
  induction walk with
  | nil => cases mem
  | @cons t o r t' s' tr u agrees permitted _ ih =>
      rcases List.mem_cons.mp mem with here | later
      · cases here
        cases permitted with
        | transfer sel _ => exact agrees.1 ax sel
      · exact ih later

/-- One permitted operation does not forget the selected channel, and a call of the
multiplexer makes one known. -/
theorem routed_sel {t t' : Route} {o : Io.Op} {r : Io.Res o} (permitted : Routed t o r t')
    (known : t.sel.isSome ∨ ∃ call, o = .bus .tca call) : t'.sel.isSome := by
  cases permitted with
  | host => simpa using known
  | name => simpa using known
  | select => rfl
  | transfer sel _ => simp [sel]

theorem sel_of_walk {t u : Route} {tr : List (Io.Op × World)}
    (walk : Walk Routed Route.Agrees t tr u)
    (known : t.sel.isSome ∨ ∃ call s, (IoOp.bus .tca call, s) ∈ tr) : u.sel.isSome := by
  induction walk with
  | nil =>
      rcases known with known | ⟨_, _, mem⟩
      · exact known
      · cases mem
  | @cons t o r t' s tr u _ permitted _ ih =>
      rcases known with known | ⟨call, s', mem⟩
      · exact ih (.inl (routed_sel permitted (.inl known)))
      · rcases List.mem_cons.mp mem with here | later
        · cases here
          exact ih (.inl (routed_sel permitted (.inr ⟨call, rfl⟩)))
        · exact ih (.inr ⟨call, s', later⟩)

/-- Whatever calls are made one after the other on one thread, each transfer of a
drive reaches that drive alone, and afterwards `tca_ch_` names the axis the
multiplexer is on, once a channel has been selected. -/
theorem inOrder_on_channel (calls : List Call) (w w' : World) (tr : List (Io.Op × World))
    (run : Exec wired (inOrder calls) w tr () w') :
    (∀ ax call s, (IoOp.bus (.drv ax) call, s) ∈ tr →
      s.On ax ∧ ∀ ax', s.board.selected ax' = true → ax' = ax) ∧
    ((∃ call s, (IoOp.bus .tca call, s) ∈ tr) → ∃ ax : Axis, w'.On ax ∧ w'.tcaCh = ax.char) := by
  have start : Route.initial.Agrees w := ⟨fun _ h => (nomatch h), fun _ h => (nomatch h)⟩
  obtain ⟨u, settled, agrees, walk⟩ :=
    (inOrder_orderly calls Route.initial rfl).walk routed_sound start run
  refine ⟨fun ax call s mem => ?_, fun selected => ?_⟩
  · have on := transfers_on_channel walk mem
    refine ⟨on, fun ax' reached => ?_⟩
    simpa [Board.selected_eq on] using reached
  · obtain ⟨ax, sel⟩ := Option.isSome_iff_exists.mp (sel_of_walk walk (.inr selected))
    exact ⟨ax, agrees.1 ax sel, agrees.2 ax (settled.trans sel)⟩

/-- The discipline on an execution that initialises the drives and starts them. -/
theorem inOrder_on_channel_init_runDrv :
    ∃ tr w', Exec wired (inOrder [.init, .runDrv]) World.initial tr () w' ∧
      (∀ ax call s, (IoOp.bus (.drv ax) call, s) ∈ tr →
        s.On ax ∧ ∀ ax', s.board.selected ax' = true → ax' = ax) ∧
      ((∃ call s, (IoOp.bus .tca call, s) ∈ tr) → ∃ ax : Axis, w'.On ax ∧ w'.tcaCh = ax.char) := by
  obtain ⟨tr, run⟩ := bench_within_wired.exec (inOrder [.init, .runDrv]) World.initial
  exact ⟨tr, _, run, inOrder_on_channel _ _ _ _ run⟩

end Controller

end Lra
