import Lra.Controller.Measure
import Lra.Device.Adxl355Codes

/-!
# The bias correction

The second half of `RunCalibration` takes the chip to measure, collects samples until it has
5000 of them or five seconds are over, and adds their average to the offset in force. It
takes the samples from the old end of the deque, which it has not emptied before, and writes
an average whatever has been collected: a sample from before the measurement enters it, and
without any sample the sums are divided by zero.
-/

namespace Lra

open Effect

namespace Adxl355

/-! ### The offset -/

/-- `(double)n * (1.0 / offset_adc_num) * dAccRange`, as a `float`. -/
def scaleOffset (dAccRange : Float32) (n : Int16) : Float32 :=
  (Float.ofInt n.toInt * (1.0 / 65536.0) * dAccRange.toFloat).toFloat32

/-- The numbers `GetOffSet` makes of the codes. -/
def originOffset (s : Adxl355) : Program Spi Float3 := do
  let (intX, intY, intZ, dAccRange) ← s.getOffSet
  return ⟨scaleOffset dAccRange intX, scaleOffset dAccRange intY, scaleOffset dAccRange intZ⟩

/-- `acc_avg.data += ele.data` for every element. -/
def sumAcc (v : List Acc3) : Float3 :=
  v.foldl (fun acc ele => ⟨acc.x + ele.x, acc.y + ele.y, acc.z + ele.z⟩) {}

/-- The end of `RunCalibration`, from the calculation of the average on. -/
def setAverage (adc : Float32 → Float32 → Int16) (v : List Acc3) (time : Float32)
    (s : Adxl355) : Program Spi (Acc3 × Adxl355) := do
  let sum := sumAcc v
  let size := Float32.ofNat v.length
  let origin ← s.originOffset
  let accAvg : Acc3 :=
    ⟨sum.x / size + origin.x, sum.y / size + origin.y, sum.z / size + origin.z, time⟩
  let s ← s.setOffSet adc accAvg
  return (accAvg, s)

/-- The chip is taken to standby first if the measure task had to be started. -/
def toMeasure (noMeasureThread : Bool) (s : Adxl355) : Program Spi Adxl355 := do
  let s ← if noMeasureThread then s.setStandBy true else pure s
  s.setStandBy false

end Adxl355

/-! ### Collecting -/

/-- A sample, and whether it was pushed after `SetStandBy(false)`. -/
structure Sample where
  acc : Acc3
  fresh : Bool := false

/-- Where `RunCalibration` is. -/
inductive CalibrationPoint where
  /-- Before `SetStandBy(false)`; the drives are being calibrated. -/
  | starting
  /-- At the condition of the loop. -/
  | looping
  | timing
  | leaving
  | averaging
  /-- `SetOffSet` has been called. -/
  | returned (accAvg : Acc3)

/-- The deque, the accelerometer and the local variables. -/
structure Calibration where
  data : List Sample
  adxl : Adxl355
  regs : RegFile
  originStandby : Bool := adxl.standby
  v : List Sample := []
  point : CalibrationPoint := .starting

inductive CalibrationEvent where
  /-- The measure task pushes a sample. -/
  | accPushBack (accData : Acc3)
  /-- The measure task or another thread takes the oldest samples. -/
  | taken (n : Nat)
  | measure (noMeasureThread : Bool)
  | accPopFrontN (vTmp : List Sample)
  | leave
  | test (timeout : Bool)
  | restore
  | setOffSet (time : Float32)

def dataNum : Nat := 5000

/-- `int n = data_num - v.size()`. -/
def remaining (size : Nat) : Int := Int.bmod (dataNum - size) (2 ^ 32)

namespace CalibrationPoint

def measuring : CalibrationPoint → Bool
  | starting => false
  | _ => true

end CalibrationPoint

/-- `RunCalibration` is entered. -/
def Calibration.enter (data : List Acc3) (adxl : Adxl355) (regs : RegFile) : Calibration where
  data := data.map fun acc => { acc }
  adxl := adxl
  regs := regs

/-- The samples are pushed and taken at any time. -/
inductive CalibrationStep (adc : Float32 → Float32 → Int16) :
    Calibration → CalibrationEvent → Calibration → Prop where
  | accPushBack {s} (accData) : CalibrationStep adc s (.accPushBack accData)
      { s with data := s.data ++ [⟨accData, s.point.measuring⟩] }
  | taken {s} (n) : CalibrationStep adc s (.taken n) { s with data := s.data.drop n }
  | measure {s} (noMeasureThread) : s.point = .starting →
      CalibrationStep adc s (.measure noMeasureThread)
        { s with
          adxl := ((s.adxl.toMeasure noMeasureThread).run Adxl355.chip s.regs).1
          regs := ((s.adxl.toMeasure noMeasureThread).run Adxl355.chip s.regs).2
          point := .looping }
  | accPopFrontN {s vTmp data} : s.point = .looping → remaining s.v.length > 0 →
      s.data = vTmp ++ data →
      Adxl355.accPopFrontN (remaining s.v.length).toNat (s.data.map Sample.acc) =
        some (vTmp.map Sample.acc, data.map Sample.acc) →
      CalibrationStep adc s (.accPopFrontN vTmp)
        { s with data, v := s.v ++ vTmp, point := .timing }
  | leave {s} : s.point = .looping → ¬ remaining s.v.length > 0 →
      CalibrationStep adc s .leave { s with point := .leaving }
  | test {s} (timeout) : s.point = .timing →
      CalibrationStep adc s (.test timeout)
        { s with point := if timeout then .leaving else .looping }
  | restore {s} : s.point = .leaving →
      CalibrationStep adc s .restore
        { s with
          adxl := ((s.adxl.setStandBy s.originStandby).run Adxl355.chip s.regs).1
          regs := ((s.adxl.setStandBy s.originStandby).run Adxl355.chip s.regs).2
          point := .averaging }
  | setOffSet {s accAvg adxl regs} (time) : s.point = .averaging →
      (s.adxl.setAverage adc (s.v.map Sample.acc) time).run Adxl355.chip s.regs =
        ((accAvg, adxl), regs) →
      CalibrationStep adc s (.setOffSet time) { s with adxl, regs, point := .returned accAvg }

/-! ### What is asked of a calibration -/

def mean (axis : Acc3 → Float32) (v : List Acc3) : Float32 :=
  (v.map axis).foldl (· + ·) 0.0 / Float32.ofNat v.length

/-- The six offset registers. -/
def offsetRegs (regs : RegFile) : List UInt8 := RegFile.load 0x1E 6 regs

namespace Calibration

/-- The average of the collected samples, and the offset `GetOffSet` finds at the entry. -/
def IsCorrection (c s : Calibration) (accAvg : Acc3) : Prop :=
  let v := s.v.map Sample.acc
  let origin := (c.adxl.originOffset.run Adxl355.chip c.regs).1
  accAvg.x = mean Acc3.x v + origin.x ∧ accAvg.y = mean Acc3.y v + origin.y ∧
    accAvg.z = mean Acc3.z v + origin.z

/-- `SetOffSet` is called only with the correction by samples that were all pushed after
`SetStandBy(false)`, of which there is one; without such a sample the offset is kept. -/
structure Sound (c s : Calibration) : Prop where
  few : s.v.length ≤ dataNum
  called : ∀ accAvg, s.point = .returned accAvg →
    s.v ≠ [] ∧ (∀ x ∈ s.v, x.fresh = true) ∧ IsCorrection c s accAvg
  kept : (∀ x ∈ s.v, x.fresh = false) → offsetRegs s.regs = offsetRegs c.regs

/-- If samples are to be collected, the oldest one is not from before the measurement. -/
def FrontFresh (s : Calibration) : CalibrationEvent → Prop
  | .accPopFrontN _ => ∀ x ∈ s.data.head?, x.fresh = true
  | _ => True

/-- Samples are to be collected and there is one. -/
def Supplied (s : Calibration) : CalibrationEvent → Prop
  | .accPopFrontN _ => s.data ≠ []
  | _ => False

end Calibration

/-! ### The registers -/

namespace Adxl355

theorem setStandBy_offsetRegs (standby : Bool) (s : Adxl355) (m : RegFile) :
    ((s.setStandBy standby).run chip m).1.range = s.range ∧
      offsetRegs ((s.setStandBy standby).run chip m).2 = offsetRegs m := by
  rw [setStandBy_run]
  refine ⟨rfl, ?_⟩
  dsimp only
  split
  · rfl
  · rw [offsetRegs, offsetRegs, RegFile.load]
    refine List.map_congr_left fun i inside => ?_
    have below : i < 6 := List.mem_range.mp inside
    rw [Function.update_of_ne (by omega)]

theorem toMeasure_offsetRegs (noMeasureThread : Bool) (s : Adxl355) (m : RegFile) :
    ((s.toMeasure noMeasureThread).run chip m).1.range = s.range ∧
      offsetRegs ((s.toMeasure noMeasureThread).run chip m).2 = offsetRegs m := by
  cases noMeasureThread with
  | false => exact setStandBy_offsetRegs false s m
  | true =>
      have both : s.toMeasure true = s.setStandBy true >>= setStandBy false := rfl
      obtain ⟨range, regs⟩ := setStandBy_offsetRegs true s m
      obtain ⟨range', regs'⟩ := setStandBy_offsetRegs false
        ((s.setStandBy true).run chip m).1 ((s.setStandBy true).run chip m).2
      rw [both, Program.run_bind]
      exact ⟨range'.trans range, regs'.trans regs⟩

theorem originOffset_run (s : Adxl355) (m : RegFile) :
    s.originOffset.run chip m =
      (⟨scaleOffset s.getCacheRange (offsetOf (offsetRegs m) 0),
        scaleOffset s.getCacheRange (offsetOf (offsetRegs m) 2),
        scaleOffset s.getCacheRange (offsetOf (offsetRegs m) 4)⟩, m) := by
  rw [originOffset, Program.run_bind, getOffSet, Program.run_bind, read_run _ _ (by decide)]
  rfl

/-- The offset depends on the cached range and on the six registers only. -/
theorem originOffset_congr {s t : Adxl355} {m m' : RegFile} (range : s.range = t.range)
    (regs : offsetRegs m = offsetRegs m') :
    (s.originOffset.run chip m).1 = (t.originOffset.run chip m').1 := by
  have same : s.getCacheRange = t.getCacheRange := by
    rw [getCacheRange, getCacheRange, range]
  rw [originOffset_run, originOffset_run, same, regs]

/-- The loop over the structures adds up each axis. -/
theorem sumAcc_eq (v : List Acc3) :
    sumAcc v = ⟨(v.map Acc3.x).foldl (· + ·) 0.0, (v.map Acc3.y).foldl (· + ·) 0.0,
      (v.map Acc3.z).foldl (· + ·) 0.0⟩ := by
  have each : ∀ (v : List Acc3) (acc : Float3),
      v.foldl (fun acc ele => ⟨acc.x + ele.x, acc.y + ele.y, acc.z + ele.z⟩) acc =
        (⟨(v.map Acc3.x).foldl (· + ·) acc.x, (v.map Acc3.y).foldl (· + ·) acc.y,
          (v.map Acc3.z).foldl (· + ·) acc.z⟩ : Float3) := by
    intro v
    induction v with
    | nil => intro acc; rfl
    | cons ele v ih => intro acc; exact ih _
  exact each v {}

theorem setAverage_run (adc : Float32 → Float32 → Int16) (v : List Acc3) (time : Float32)
    (s : Adxl355) (m : RegFile) :
    ((s.setAverage adc v time).run chip m).1 =
      (⟨mean Acc3.x v + (s.originOffset.run chip m).1.x,
        mean Acc3.y v + (s.originOffset.run chip m).1.y,
        mean Acc3.z v + (s.originOffset.run chip m).1.z, time⟩, s) := by
  have sum := sumAcc_eq v
  rw [setAverage, sum, Program.run_bind, originOffset_run, Program.run_bind, setOffSet_run]
  rfl

end Adxl355

/-! ### One step -/

namespace Calibration

/-- The samples from before the measurement are the oldest ones. -/
structure Layered (s : Calibration) : Prop where
  stale : s.point = .starting → ∀ x ∈ s.data, x.fresh = false
  ordered : s.data.Pairwise fun x y => x.fresh = true → y.fresh = true

/-- Nothing is written before `SetOffSet`, which is called with the correction. -/
structure Corrected (c s : Calibration) : Prop where
  range : s.adxl.range = c.adxl.range
  kept : (∀ accAvg, s.point ≠ .returned accAvg) → offsetRegs s.regs = offsetRegs c.regs
  correction : ∀ accAvg, s.point = .returned accAvg → IsCorrection c s accAvg

end Calibration

section CalibrationStep

variable {adc : Float32 → Float32 → Int16} {c s t : Calibration} {e : CalibrationEvent}

theorem remaining_eq {size : Nat} (few : size ≤ dataNum) : remaining size = dataNum - size := by
  have bound : dataNum = 5000 := rfl
  rw [remaining, Int.bmod_def]
  split <;> omega

/-- What is taken are the oldest samples. -/
theorem popped_eq {n : Nat} {all vTmp data : List Sample} (parts : all = vTmp ++ data)
    (popped : Adxl355.accPopFrontN n (all.map Sample.acc) =
      some (vTmp.map Sample.acc, data.map Sample.acc)) :
    vTmp = all.take n ∧ data = all.drop n := by
  rw [Adxl355.accPopFrontN_eq] at popped
  have taken : vTmp.map Sample.acc = (all.map Sample.acc).take n :=
    (congrArg Prod.fst (Option.some.inj popped)).symm
  have length : vTmp.length = (all.take n).length := by
    have lengths := congrArg List.length taken
    rw [List.length_map, List.length_take, List.length_map] at lengths
    rw [lengths, List.length_take]
  exact List.append_inj (parts.symm.trans (List.take_append_drop n all).symm) length

theorem CalibrationStep.few (few : s.v.length ≤ dataNum) (step : CalibrationStep adc s e t) :
    t.v.length ≤ dataNum := by
  cases step with
  | accPopFrontN _ some parts popped =>
      obtain ⟨rfl, -⟩ := popped_eq parts popped
      rw [remaining_eq few] at some ⊢
      have taken := List.length_take_le ((dataNum : Int) - s.v.length).toNat s.data
      rw [List.length_append]
      omega
  | _ => exact few

theorem CalibrationStep.layered (layered : s.Layered) (step : CalibrationStep adc s e t) :
    t.Layered := by
  obtain ⟨stale, ordered⟩ := layered
  have oldest : ∀ n, ∀ x ∈ s.data.drop n, x ∈ s.data := fun n x => List.mem_of_mem_drop
  cases step with
  | accPushBack accData =>
      constructor
      · intro at_ x mem
        rcases List.mem_append.mp mem with old | new
        · exact stale at_ x old
        · cases List.mem_singleton.mp new
          exact congrArg CalibrationPoint.measuring at_
      · refine List.pairwise_append.mpr ⟨ordered, List.pairwise_singleton _ _, ?_⟩
        intro x mem y new fresh
        cases List.mem_singleton.mp new
        by_contra starting
        have at_ : s.point = .starting := by
          cases point : s.point with
          | starting => rfl
          | _ => exact absurd (congrArg CalibrationPoint.measuring point) starting
        rw [stale at_ x mem] at fresh
        cases fresh
  | taken n => exact ⟨fun at_ x mem => stale at_ x (oldest n x mem), ordered.drop⟩
  | accPopFrontN at_ _ parts popped =>
      obtain ⟨-, rfl⟩ := popped_eq parts popped
      exact ⟨nofun, ordered.drop⟩
  | test timeout _ =>
      refine ⟨fun at_ => ?_, ordered⟩
      cases timeout <;> cases at_
  | _ => exact ⟨nofun, ordered⟩

theorem CalibrationStep.corrected (corrected : Calibration.Corrected c s)
    (step : CalibrationStep adc s e t) : Calibration.Corrected c t := by
  obtain ⟨range, kept, correction⟩ := corrected
  have before : ∀ {p : CalibrationPoint}, s.point = p → (∀ accAvg, p ≠ .returned accAvg) →
      offsetRegs s.regs = offsetRegs c.regs := fun at_ other => kept (at_ ▸ other)
  cases step with
  | accPushBack accData => exact ⟨range, kept, correction⟩
  | taken n => exact ⟨range, kept, correction⟩
  | measure noMeasureThread at_ =>
      obtain ⟨range', regs'⟩ := s.adxl.toMeasure_offsetRegs noMeasureThread s.regs
      exact ⟨range'.trans range, fun _ => regs'.trans (before at_ nofun), nofun⟩
  | accPopFrontN at_ _ _ _ => exact ⟨range, fun _ => before at_ nofun, nofun⟩
  | leave at_ _ => exact ⟨range, fun _ => before at_ nofun, nofun⟩
  | test timeout at_ =>
      refine ⟨range, fun _ => before at_ nofun, fun accAvg returned => ?_⟩
      cases timeout <;> cases returned
  | restore at_ =>
      obtain ⟨range', regs'⟩ := s.adxl.setStandBy_offsetRegs s.originStandby s.regs
      exact ⟨range'.trans range, fun _ => regs'.trans (before at_ nofun), nofun⟩
  | @setOffSet accAvg adxl regs time at_ called =>
      have ran := Adxl355.setAverage_run adc (s.v.map Sample.acc) time s.adxl s.regs
      have origin := Adxl355.originOffset_congr range (before at_ nofun)
      rw [called, origin] at ran
      cases ran
      refine ⟨range, fun other => absurd rfl (other _), fun acc returned => ?_⟩
      cases returned
      exact ⟨rfl, rfl, rfl⟩

/-- Samples are only added, and none after `SetOffSet`. -/
theorem CalibrationStep.collects (step : CalibrationStep adc s e t) :
    s.v <+: t.v ∧ ∀ accAvg, s.point = .returned accAvg →
      t.point = .returned accAvg ∧ t.v = s.v := by
  cases step with
  | accPushBack _ => exact ⟨List.prefix_rfl, fun _ at_ => ⟨at_, rfl⟩⟩
  | taken _ => exact ⟨List.prefix_rfl, fun _ at_ => ⟨at_, rfl⟩⟩
  | accPopFrontN looping _ _ _ =>
      exact ⟨List.prefix_append _ _, fun _ at_ => nomatch looping.symm.trans at_⟩
  | measure _ before | leave before _ | test _ before | restore before | setOffSet _ before _ =>
      exact ⟨List.prefix_rfl, fun _ at_ => nomatch before.symm.trans at_⟩

/-- The samples taken are fresh if the first of them is. -/
theorem CalibrationStep.fresh_iff (layered : s.Layered) (few : s.v.length ≤ dataNum)
    (fresh : ∀ x ∈ s.v, x.fresh = true) (step : CalibrationStep adc s e t) :
    (∀ x ∈ t.v, x.fresh = true) ↔ s.FrontFresh e := by
  cases step with
  | accPopFrontN _ some parts popped =>
      obtain ⟨rfl, -⟩ := popped_eq parts popped
      rw [remaining_eq few] at some ⊢
      obtain ⟨n, count⟩ : ∃ n, ((dataNum : Int) - s.v.length).toNat = n + 1 :=
        Nat.exists_eq_succ_of_ne_zero (by omega)
      simp only [Calibration.FrontFresh, List.forall_mem_append, count]
      refine (and_iff_right fresh).trans ?_
      have ordered := layered.ordered
      cases content : s.data with
      | nil => simp
      | cons front rest =>
          rw [content] at ordered
          have behind := (List.pairwise_cons.mp ordered).1
          rw [List.take_succ_cons, List.forall_mem_cons]
          constructor
          · intro all x here
            cases here
            exact all.1
          · intro first
            have fresh := first front rfl
            exact ⟨fresh, fun x mem => behind x (List.mem_of_mem_take mem) fresh⟩
  | _ => exact iff_of_true fresh trivial

theorem CalibrationStep.empty_iff (few : s.v.length ≤ dataNum) (empty : s.v = [])
    (step : CalibrationStep adc s e t) : t.v = [] ↔ ¬ s.Supplied e := by
  cases step with
  | accPopFrontN _ some parts popped =>
      obtain ⟨rfl, -⟩ := popped_eq parts popped
      rw [remaining_eq few] at some ⊢
      have count : ((dataNum : Int) - s.v.length).toNat ≠ 0 := by omega
      rw [empty, List.nil_append, List.take_eq_nil_iff, or_iff_right (empty ▸ count)]
      exact not_not.symm
  | _ => exact iff_of_true empty id

end CalibrationStep

/-! ### Runs -/

section Run

variable {adc : Float32 → Float32 → Int16} {data : List Acc3} {adxl : Adxl355} {regs : RegFile}
variable {h h' : List (CalibrationEvent × Calibration)} {c s : Calibration}

theorem Calibration.enter_layered : (enter data adxl regs).Layered := by
  have stale : ∀ x ∈ (enter data adxl regs).data, x.fresh = false := by
    intro x mem
    obtain ⟨acc, -, rfl⟩ := List.mem_map.mp mem
    rfl
  refine ⟨fun _ => stale, List.pairwise_of_forall_mem_list fun x mem y _ fresh => ?_⟩
  rw [stale x mem] at fresh
  cases fresh

theorem collected_few (run : Run (CalibrationStep adc) (.enter data adxl regs) h s) :
    s.v.length ≤ dataNum :=
  run.invariant (P := fun s => s.v.length ≤ dataNum) (Nat.zero_le _) fun few step => step.few few

theorem collected_layered (run : Run (CalibrationStep adc) (.enter data adxl regs) h s) :
    s.Layered :=
  run.invariant Calibration.enter_layered fun layered step => step.layered layered

theorem collected_corrected (run : Run (CalibrationStep adc) (.enter data adxl regs) h s) :
    Calibration.Corrected (.enter data adxl regs) s :=
  run.invariant ⟨rfl, fun _ => rfl, nofun⟩ fun corrected step => step.corrected corrected

/-- What has been collected at some moment stays, and after `SetOffSet` it is all. -/
theorem collects (run : Run (CalibrationStep adc) c h s) :
    c.v <+: s.v ∧ ∀ accAvg, c.point = .returned accAvg →
      s.point = .returned accAvg ∧ s.v = c.v := by
  refine run.invariant (P := fun s => c.v <+: s.v ∧ ∀ accAvg, c.point = .returned accAvg →
      s.point = .returned accAvg ∧ s.v = c.v) ⟨List.prefix_rfl, fun _ at_ => ⟨at_, rfl⟩⟩ ?_
  rintro s e t ⟨grown, kept⟩ step
  obtain ⟨grows, keeps⟩ := step.collects
  refine ⟨grown.trans grows, fun accAvg at_ => ?_⟩
  obtain ⟨here, same⟩ := kept accAvg at_
  obtain ⟨next, same'⟩ := keeps accAvg here
  exact ⟨next, same'.trans same⟩

theorem collects_from (run : Run (CalibrationStep adc) c h s) (earlier : h' <:+ h) :
    (stateAfter c h').v <+: s.v ∧ ∀ accAvg, (stateAfter c h').point = .returned accAvg →
      s.point = .returned accAvg ∧ s.v = (stateAfter c h').v := by
  obtain ⟨later, rfl⟩ := earlier
  exact collects run.split.2

/-- All samples collected are fresh exactly if the front was at every removal. -/
theorem collected_fresh_iff (run : Run (CalibrationStep adc) (.enter data adxl regs) h s) :
    (∀ x ∈ s.v, x.fresh = true) ↔
      ∀ e u h', (e, u) :: h' <:+ h → (stateAfter (.enter data adxl regs) h').FrontFresh e := by
  have always : (∀ h', h' <:+ h → ∀ x ∈ (stateAfter (.enter data adxl regs) h').v,
      x.fresh = true) ↔ ∀ e u h', (e, u) :: h' <:+ h →
        (stateAfter (.enter data adxl regs) h').FrontFresh e := by
    refine run.always_iff (fun _ mem => nomatch mem) fun earlier fresh last => ?_
    rw [earlier.stateAfter_eq] at fresh ⊢
    exact last.fresh_iff (collected_layered earlier) (collected_few earlier) fresh
  rw [← always]
  constructor
  · intro fresh h' earlier x mem
    exact fresh x ((collects_from run earlier).1.mem mem)
  · intro fresh
    have last := fresh h List.suffix_rfl
    rwa [run.stateAfter_eq] at last

/-- No sample is collected exactly if there was none at any removal. -/
theorem collected_empty_iff (run : Run (CalibrationStep adc) (.enter data adxl regs) h s) :
    s.v = [] ↔
      ∀ e u h', (e, u) :: h' <:+ h → ¬ (stateAfter (.enter data adxl regs) h').Supplied e := by
  have always : (∀ h', h' <:+ h → (stateAfter (.enter data adxl regs) h').v = []) ↔
      ∀ e u h', (e, u) :: h' <:+ h →
        ¬ (stateAfter (.enter data adxl regs) h').Supplied e := by
    refine run.always_iff rfl fun earlier empty last => ?_
    rw [earlier.stateAfter_eq] at empty ⊢
    exact last.empty_iff (collected_few earlier) empty
  rw [← always]
  constructor
  · intro empty h' earlier
    exact List.prefix_nil.mp (empty ▸ (collects_from run earlier).1)
  · intro empty
    have last := empty h List.suffix_rfl
    rwa [run.stateAfter_eq] at last

/-- At every moment of a calibration all is as asked exactly if, should it come to `SetOffSet`,
the loop never finds a sample from before the measurement at the front, and finds a sample at
least once. -/
theorem calibration_sound_iff (run : Run (CalibrationStep adc) (.enter data adxl regs) h s) :
    (∀ h', h' <:+ h → Calibration.Sound (.enter data adxl regs)
        (stateAfter (.enter data adxl regs) h')) ↔
      ∀ accAvg, s.point = .returned accAvg →
        (∀ e u h', (e, u) :: h' <:+ h →
          (stateAfter (.enter data adxl regs) h').FrontFresh e) ∧
        ∃ e u h', (e, u) :: h' <:+ h ∧ (stateAfter (.enter data adxl regs) h').Supplied e := by
  constructor
  · intro sound accAvg returned
    have last := sound h List.suffix_rfl
    rw [run.stateAfter_eq] at last
    obtain ⟨filled, fresh, -⟩ := last.called accAvg returned
    refine ⟨(collected_fresh_iff run).mp fresh, ?_⟩
    by_contra never
    exact filled ((collected_empty_iff run).mpr fun e u h' at_ supplied =>
      never ⟨e, u, h', at_, supplied⟩)
  · intro condition h' earlier
    have here := run.prefix_run earlier
    have corrected := collected_corrected here
    -- Once `SetOffSet` has been called, nothing more is collected until the end of the run.
    have called : ∀ accAvg, (stateAfter (.enter data adxl regs) h').point = .returned accAvg →
        (stateAfter (.enter data adxl regs) h').v ≠ [] ∧
          ∀ x ∈ (stateAfter (.enter data adxl regs) h').v, x.fresh = true := by
      intro accAvg returned
      obtain ⟨returned, same⟩ := (collects_from run earlier).2 accAvg returned
      obtain ⟨front, e, u, h'', at_, supplied⟩ := condition accAvg returned
      rw [← same]
      refine ⟨fun empty => ?_, (collected_fresh_iff run).mpr front⟩
      exact (collected_empty_iff run).mp empty e u h'' at_ supplied
    refine ⟨collected_few here, fun accAvg returned => ?_, fun stale => corrected.kept ?_⟩
    · obtain ⟨filled, fresh⟩ := called accAvg returned
      exact ⟨filled, fresh, corrected.correction accAvg returned⟩
    · intro accAvg returned
      obtain ⟨filled, fresh⟩ := called accAvg returned
      obtain ⟨x, mem⟩ := List.exists_mem_of_ne_nil _ filled
      have both := stale x mem
      rw [fresh x mem] at both
      cases both

end Run

/-- A removal after which the time is over leads to `SetOffSet`. -/
theorem timed_out {adc : Float32 → Float32 → Int16} {c s : Calibration}
    {h : List (CalibrationEvent × Calibration)} (run : Run (CalibrationStep adc) c h s)
    (at_ : s.point = .looping) (few : s.v.length < dataNum) :
    ∃ h' t accAvg, Run (CalibrationStep adc) c (h' ++ h) t ∧ t.point = .returned accAvg ∧
      t.v = s.v ++ s.data.take (remaining s.v.length).toNat := by
  have some : remaining s.v.length > 0 := by
    rw [remaining_eq (Nat.le_of_lt few)]
    omega
  have popped := run.step (.accPopFrontN at_ some
    (List.take_append_drop (remaining s.v.length).toNat s.data).symm
    (by rw [Adxl355.accPopFrontN_eq, List.map_take, List.map_drop]))
  have late := popped.step (.test true rfl)
  have restored := late.step (.restore rfl)
  have ended := restored.step (.setOffSet 0 rfl rfl)
  exact ⟨[_, _, _, _], _, _, ended, rfl, rfl⟩

theorem calibration_sound_iff_fresh :
    ∃ h s, Run (CalibrationStep fun _ _ => 0) (.enter [] {} Adxl355.powerOn) h s ∧
      s.v.length = 1 ∧
      ((∀ h', h' <:+ h → Calibration.Sound (.enter [] {} Adxl355.powerOn)
          (stateAfter (.enter [] {} Adxl355.powerOn) h')) ↔
        ∀ accAvg, s.point = .returned accAvg →
          (∀ e u h', (e, u) :: h' <:+ h →
            (stateAfter (.enter [] {} Adxl355.powerOn) h').FrontFresh e) ∧
          ∃ e u h', (e, u) :: h' <:+ h ∧
            (stateAfter (.enter [] {} Adxl355.powerOn) h').Supplied e) := by
  have measuring : Run (CalibrationStep fun _ _ => 0) (.enter [] {} Adxl355.powerOn) _ _ :=
    .step .nil (.measure false rfl)
  have pushed := measuring.step (.accPushBack ⟨1, 2, 3, 4⟩)
  obtain ⟨h, s, -, run, -, collected⟩ := timed_out pushed rfl (by decide)
  exact ⟨_, s, run, congrArg List.length collected, calibration_sound_iff run⟩

/-- A sample from before the measurement is averaged; and without any sample the sums are
divided by zero. -/
theorem not_calibration_sound :
    (∃ h s, Run (CalibrationStep fun _ _ => 0)
        (.enter [⟨1, 2, 3, 4⟩] {} Adxl355.powerOn) h s ∧ s.v.length = 1 ∧
      ¬ Calibration.Sound (.enter [⟨1, 2, 3, 4⟩] {} Adxl355.powerOn) s) ∧
    ∃ h s, Run (CalibrationStep fun _ _ => 0) (.enter [] {} Adxl355.powerOn) h s ∧
      s.v.length = 0 ∧ ¬ Calibration.Sound (.enter [] {} Adxl355.powerOn) s := by
  constructor
  · have measuring : Run (CalibrationStep fun _ _ => 0)
        (.enter [⟨1, 2, 3, 4⟩] {} Adxl355.powerOn) _ _ := .step .nil (.measure false rfl)
    obtain ⟨h, s, accAvg, run, returned, collected⟩ := timed_out measuring rfl (by decide)
    refine ⟨_, s, run, congrArg List.length collected, fun sound => ?_⟩
    have fresh := (sound.called accAvg returned).2.1
    rw [collected] at fresh
    exact absurd (fresh _ (.head _)) (by decide)
  · have measuring : Run (CalibrationStep fun _ _ => 0) (.enter [] {} Adxl355.powerOn) _ _ :=
      .step .nil (.measure false rfl)
    obtain ⟨h, s, accAvg, run, returned, collected⟩ := timed_out measuring rfl (by decide)
    exact ⟨_, s, run, congrArg List.length collected, fun sound =>
      (sound.called accAvg returned).1 collected⟩

end Lra
