import Lra.Host.World

/-!
# Saving and restoring the registers of a drive

`GetAllReg` asks for 35 registers and `UpdateAllReg` sends 34, but an SMBus block holds
32 bytes. What the first returns is therefore zero from register 0x20 on, and the second
stores that zero.
-/

namespace Lra

open Effect

namespace Drv2605l

/-- Read all registers and write them back; the status register comes first and is left out. -/
def saveRestore (ax : Axis) : Program Io Unit := do
  let v ← getAllReg ax
  updateAllReg ax v.tail

/-- The registers that can be written. -/
def Writable (r : Nat) : Prop := 0x01 ≤ r ∧ r ≤ 0x20

/-- What the bulk read returns: 32 registers, then zeros. -/
def image (m : RegFile) : List UInt8 := RegFile.load 0 32 m ++ [0, 0, 0]

/-- The bytes of the image that the bulk write stores. -/
theorem out_updateAllCall_image (m : RegFile) :
    (updateAllCall (image m).tail).out = 1 :: (RegFile.load 1 31 m ++ [0]) := rfl

/-- After the round trip register 0x20 is zero and every other writable one as before. -/
theorem restored (m : RegFile) (r : Nat) (writable : Writable r) :
    RegFile.receive readOnly (updateAllCall (image m).tail).out m r =
      if r = 0x20 then 0 else m r := by
  obtain ⟨low, high⟩ := writable
  obtain ⟨k, rfl⟩ : ∃ k, r = 1 + k := ⟨r - 1, by omega⟩
  have length : (RegFile.load 1 31 m).length = 31 := RegFile.load_length 31
  have open_ : readOnly (1 + k) = false := by
    simp [readOnly]
    omega
  have inside : k < (RegFile.load 1 31 m ++ [0]).length := by
    rw [List.length_append, length, List.length_singleton]
    omega
  rw [out_updateAllCall_image]
  change RegFile.store readOnly 1 (RegFile.load 1 31 m ++ [0]) m (1 + k) = _
  rw [RegFile.store_add inside open_, List.getD_eq_getElem?_getD]
  by_cases last : k = 31
  · subst last
    rw [if_pos rfl, List.getElem?_append_right (by omega), length]
    rfl
  · have low : k < (RegFile.load 1 31 m).length := by omega
    rw [if_neg (by omega), List.getElem?_append_left low, List.getElem?_eq_getElem low,
      Option.getD_some]
    simp [RegFile.load]

section Run

variable {ax : Axis} {w w' : World}

theorem getAll_reply (on : w.On ax) :
    (w.board.reply getAllCall).value ++
      List.replicate (35 - (w.board.reply getAllCall).value.length) 0 =
        image (w.board.chip ax) := by
  have read : (w.board.reply getAllCall).value = RegFile.load 0 32 (w.board.chip ax) :=
    Board.readback_eq on 0 32
  rw [read, RegFile.load_length]
  rfl

/-- A transfer that succeeds has one outcome. -/
theorem ideal_transfer (dev : Device) (call : BusCall) (Q : BusReply → World → Prop) :
    (transfer dev call).wp ideal Q w ↔
      Q (w.board.reply call) { w with board := w.board.after call } := by
  constructor
  · intro all
    exact all _ _ ⟨rfl, rfl⟩
  · rintro holds r w' ⟨rfl, rfl⟩
    exact holds

theorem saveRestore_wp (on : w.On ax) :
    (saveRestore ax).wp ideal (fun _ w' => w'.board.chip ax =
      RegFile.receive readOnly (updateAllCall (image (w.board.chip ax)).tail).out
        (w.board.chip ax)) w := by
  have length : (image (w.board.chip ax)).tail.length = wRegLen := by
    simp [image, wRegLen, lraPeriod, register8]
  have unread : (w.board.after getAllCall).chip ax = w.board.chip ax := by
    rw [chip_after on rfl]
    exact RegFile.store_nil
  rw [saveRestore, getAllReg_eq, Program.wp_bind, Program.wp_bind, ideal_transfer]
  simp only [Program.pure_eq, Program.wp_ret]
  rw [getAll_reply on, updateAllReg_eq length, Program.wp_bind, ideal_transfer]
  simp only [Program.pure_eq, Program.wp_ret]
  rw [chip_after (w := { w with board := w.board.after getAllCall }) on rfl]
  simp only [unread]

/-- The round trip leaves every writable register as it was exactly if register 0x20,
`OL_LRA_PERIOD`, held zero. -/
theorem saveRestore_keeps_iff {tr : List (IoOp × World)} (on : w.On ax)
    (run : Exec ideal (saveRestore ax) w tr () w') :
    (∀ r, Writable r → w'.reg ax r = w.reg ax r) ↔ w.reg ax 0x20 = 0 := by
  have after := (saveRestore_wp on).of_exec run
  have each : ∀ r, Writable r → w'.reg ax r = if r = 0x20 then 0 else w.reg ax r := by
    intro r writable
    rw [World.reg, after]
    exact restored _ r writable
  constructor
  · intro kept
    have last : Writable 0x20 := by simp [Writable]
    rw [← kept 0x20 last, each 0x20 last, if_pos rfl]
  · intro zero r writable
    rw [each r writable]
    split
    · next last => rw [last, zero]
    · rfl

end Run

/-- The channel of the x drive is selected, its register 0x20 holds `period`, and each other one
its own address. -/
def withPeriod (period : UInt8) : World :=
  { World.initial with
    board := ⟨drvCh .x, fun _ r => if r = 0x20 then period else UInt8.ofNat r⟩ }

/-- The default of the register, 0x33, is lost. -/
theorem saveRestore_loses_period :
    ∃ tr w', Exec ideal (saveRestore .x) (withPeriod 0x33) tr () w' ∧ Writable 0x20 ∧
      (withPeriod 0x33).reg .x 0x20 = 0x33 ∧ w'.reg .x 0x20 = 0 := by
  obtain ⟨tr, run⟩ := bench_within_ideal.exec (saveRestore .x) (withPeriod 0x33)
  exact ⟨tr, _, run, by simp [Writable], rfl, rfl⟩

theorem saveRestore_keeps_iff_filled :
    ∃ tr w', Exec ideal (saveRestore .x) (withPeriod 0) tr () w' ∧
      ∀ r, Writable r → w'.reg .x r = if r = 0x20 then 0 else UInt8.ofNat r := by
  obtain ⟨tr, run⟩ := bench_within_ideal.exec (saveRestore .x) (withPeriod 0)
  have on : (withPeriod 0).On .x := rfl
  exact ⟨tr, _, run, (saveRestore_keeps_iff on run).mpr rfl⟩

end Drv2605l

end Lra
