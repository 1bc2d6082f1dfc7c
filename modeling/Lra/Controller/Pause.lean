import Lra.Controller.Drives
import Lra.Effect.Transition

/-!
# When `PauseDrv` stops the drives

`PauseDrv` only acts on drives whose cached state says they run. Calls are run to
completion on boards where every transfer succeeds, in any order, and the cache
is compared with the registers at every moment between two calls.
-/

namespace Lra

open Effect

/-- One complete call. -/
def Completes (w : World) (c : Controller.Call) (w' : World) : Prop :=
  ∃ tr r, Exec ideal c.code w tr r w'

namespace Completes

variable {w w' : World} {c : Controller.Call}

theorem spec (h : Completes w c w') :
    (∀ ax, w'.drive ax = c.effect ax (w.drive ax)) ∧ w.Frame w' := by
  obtain ⟨tr, r, run⟩ := h
  obtain ⟨drives, frame⟩ := (c.takes w rfl).of_exec run
  exact ⟨fun ax => congrFun drives ax, frame⟩

theorem drive (h : Completes w c w') (ax : Axis) : w'.drive ax = c.effect ax (w.drive ax) :=
  h.spec.1 ax

/-- Every call can be completed. -/
theorem exists_of (w : World) (c : Controller.Call) : ∃ w', Completes w c w' := by
  obtain ⟨tr, run⟩ := bench_within_ideal.exec c.code w
  exact ⟨_, tr, _, run⟩

end Completes

/-- The chip on `ax` is in software standby and its GO register is clear. -/
def World.Halted (w : World) (ax : Axis) : Prop :=
  standbyBit (w.reg ax 0x01) = true ∧ w.reg ax 0x0C = 0

instance (w : World) (ax : Axis) : Decidable (w.Halted ax) := inferInstanceAs (Decidable (_ ∧ _))

namespace Drive

variable {d : Drive}

/-- What `PauseDrv` relies on: a drive cached as stopped is stopped. -/
def Kept (d : Drive) : Prop := d.run = false → d.standby = true ∧ d.go = 0

/-- Pausing halts a drive exactly if the cache could be relied on. -/
theorem halts_iff :
    ((d.setRun false).standby = true ∧ (d.setRun false).go = 0) ↔ d.Kept := by
  unfold setRun Kept
  by_cases stopped : d.run = false
  · simp [stopped]
  · simp only [stopped]
    exact ⟨fun _ h => (nomatch h), fun _ => ⟨rfl, rfl⟩⟩

theorem kept_setRun (kept : d.Kept) (b : Bool) : (d.setRun b).Kept := by
  unfold setRun
  split
  · exact kept
  · intro stopped
    cases b
    · exact ⟨rfl, rfl⟩
    · cases stopped

theorem kept_calibrate (d : Drive) : d.calibrate.Kept := fun _ => ⟨rfl, rfl⟩

theorem kept_load_iff (kept : d.Kept) (v : List UInt8) :
    (d.load v).Kept ↔
      (v.length = Drv2605l.wRegLen → d.run = false →
        standbyBit (v.getD 0 0) = true ∧ v.getD 11 0 = 0) := by
  unfold load
  split
  · next len => simp [Kept, len]
  · next len => simp [kept, len]

end Drive

namespace Controller

/-- The bytes a call writes in bulk to the drive on an axis. -/
def Call.bulk : Call → Axis → Option (List UInt8)
  | .updateAllRegisters x y z _, ax => some (pick x y z ax)
  | .updateRegisters target val, ax =>
    if target = pick "drv_x" "drv_y" "drv_z" ax then some val else none
  | _, _ => none

/-- A bulk write either has a length that is refused, or meets a drive cached as
running, or leaves standby set and GO clear itself. -/
def Call.Harmless (w : World) (c : Call) : Prop :=
  ∀ ax v, c.bulk ax = some v → v.length = Drv2605l.wRegLen → w.flag (.run ax) = false →
    standbyBit (v.getD 0 0) = true ∧ v.getD 11 0 = 0

theorem harmless_of_no_bulk {w : World} {c : Call} (h : ∀ ax, c.bulk ax = none) :
    c.Harmless w := by
  intro ax v bulk
  rw [h ax] at bulk
  cases bulk

/-- A call keeps the cache reliable exactly if it is harmless. -/
theorem kept_effect_iff {w : World} (kept : ∀ ax, (w.drive ax).Kept) (c : Call) :
    (∀ ax, (c.effect ax (w.drive ax)).Kept) ↔ c.Harmless w := by
  cases c with
  | updateAllRegisters x y z accRw =>
      apply forall_congr'
      intro ax
      rw [Call.effect, Drive.kept_load_iff (kept ax)]
      simp [Call.bulk, World.drive, Drive.ofRegs]
  | updateRegisters target val =>
      apply forall_congr'
      intro ax
      by_cases named : target = pick "drv_x" "drv_y" "drv_z" ax
      · simp only [Call.effect, Call.bulk, if_pos named]
        rw [Drive.kept_load_iff (kept ax)]
        simp [World.drive, Drive.ofRegs]
      · simp only [Call.effect, Call.bulk, if_neg named]
        simp [kept ax]
  | init | runCalibration =>
      apply iff_of_true
      · exact fun ax => Drive.kept_calibrate _
      · exact harmless_of_no_bulk fun _ => rfl
  | runDrv | pauseDrv =>
      apply iff_of_true
      · exact fun ax => Drive.kept_setRun (kept ax) _
      · exact harmless_of_no_bulk fun _ => rfl
  | updateRtp val c =>
      apply iff_of_true
      · intro ax
        simp only [Call.effect]
        split
        · exact kept ax
        · exact kept ax
      · exact harmless_of_no_bulk fun _ => rfl
  | updateAllRtp | changeDrvCh | getAllRegisters | getRt =>
      apply iff_of_true
      · exact fun ax => kept ax
      · exact harmless_of_no_bulk fun _ => rfl

/-- A completed pause shows whether the cache was reliable. -/
theorem halted_of_pause_iff {w w' : World} (pause : Completes w .pauseDrv w') (ax : Axis) :
    w'.Halted ax ↔ (w.drive ax).Kept := by
  have effect : w'.drive ax = (w.drive ax).setRun false := pause.drive ax
  have shown : w'.Halted ax ↔ (w'.drive ax).standby = true ∧ (w'.drive ax).go = 0 := Iff.rfl
  rw [shown, effect, Drive.halts_iff]

theorem always_halted_iff (w : World) :
    (∀ w', Completes w .pauseDrv w' → ∀ ax, w'.Halted ax) ↔ ∀ ax, (w.drive ax).Kept := by
  constructor
  · intro halted ax
    obtain ⟨w', pause⟩ := Completes.exists_of w .pauseDrv
    exact (halted_of_pause_iff pause ax).mp (halted w' pause ax)
  · intro kept w' pause ax
    exact (halted_of_pause_iff pause ax).mpr (kept ax)

/-- After an initialisation and any calls, a pause halts all three chips at every
moment exactly if every bulk write of the run was harmless. -/
theorem pause_halts_iff {w₀ w₁ w : World} {h : List (Call × World)}
    (init : Completes w₀ .init w₁) (run : Run Completes w₁ h w) :
    (∀ h', h' <:+ h → ∀ w', Completes (stateAfter w₁ h') .pauseDrv w' → ∀ ax, w'.Halted ax) ↔
      ∀ c u h', (c, u) :: h' <:+ h → c.Harmless (stateAfter w₁ h') := by
  simp only [always_halted_iff]
  refine run.always_iff (fun ax => ?_) fun {h t c u} earlier kept step => ?_
  · rw [stateAfter_nil, init.drive ax]
    exact Drive.kept_calibrate _
  · rw [stateAfter_cons, ← kept_effect_iff kept c, earlier.stateAfter_eq]
    exact forall_congr' fun ax => by rw [step.drive ax]

/-- A bulk image that clears standby and sets GO. -/
def firingImage : List UInt8 := 0x05 :: List.replicate 10 0 ++ 0x01 :: List.replicate 22 0

/-- Written to stopped drives it makes them run, and the next pause does nothing. -/
theorem pause_fails_after_updateAllRegisters :
    ∃ w₁ w₂ w₃, Completes World.initial .init w₁ ∧
      Completes w₁ (.updateAllRegisters firingImage firingImage firingImage []) w₂ ∧
      Completes w₂ .pauseDrv w₃ ∧ ∀ ax, ¬ w₃.Halted ax := by
  obtain ⟨w₁, init⟩ := Completes.exists_of World.initial .init
  obtain ⟨w₂, update⟩ := Completes.exists_of w₁
    (.updateAllRegisters firingImage firingImage firingImage [])
  obtain ⟨w₃, pause⟩ := Completes.exists_of w₂ .pauseDrv
  refine ⟨w₁, w₂, w₃, init, update, pause, fun ax => ?_⟩
  rw [halted_of_pause_iff pause, update.drive ax, init.drive ax]
  intro kept
  have stopped := kept (by cases ax <;> rfl)
  revert stopped
  cases ax <;> decide

/-- The equivalence on an initialised controller that starts and pauses. -/
theorem pause_halts_iff_runDrv :
    ∃ w₀ w₁ w₂, Completes w₀ .init w₁ ∧ Completes w₁ .runDrv w₂ ∧
      ((∀ h', h' <:+ [(Call.runDrv, w₂)] → ∀ w', Completes (stateAfter w₁ h') .pauseDrv w' →
          ∀ ax, w'.Halted ax) ↔
        ∀ c u h', (c, u) :: h' <:+ [(Call.runDrv, w₂)] → c.Harmless (stateAfter w₁ h')) := by
  obtain ⟨w₁, init⟩ := Completes.exists_of World.initial .init
  obtain ⟨w₂, start⟩ := Completes.exists_of w₁ .runDrv
  exact ⟨World.initial, w₁, w₂, init, start, pause_halts_iff init (.step .nil start)⟩

end Controller

end Lra
