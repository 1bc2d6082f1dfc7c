import Lra.Usb.UiNumbers

/-!
# The data files of the command `s`

With the names, the pipe and the texts taken away, the command for a known mode is the step
that the data files take.
-/

namespace Lra

open Effect Numeral

namespace UiParser

section Files

variable {w : UiWorld}

theorem closeDataFile_files (k : DataFile) (s : UiState) (handle : Option FileHandle)
    (held : s.files.handle k = handle) :
    ∃ t, closeDataFile k handle s = .ok () t ∧ t.files = s.files.shut k := by
  cases handle with
  | none => exact ⟨s, rfl, by rw [DataFiles.shut, held]⟩
  | some file => exact ⟨_, rfl, by rw [DataFiles.shut, held]⟩

theorem stopData_files (s : UiState) :
    ∃ t, stopData s = .ok () t ∧ t.files = (s.files.shut .acc).shut .pwm := by
  obtain ⟨t, acc, files⟩ := closeDataFile_files .acc s _ rfl
  have other : t.files.handle .pwm = s.files.handle .pwm := by
    rw [files]
    exact DataFiles.shut_handle_of_ne (by decide)
  obtain ⟨u, pwm, files'⟩ := closeDataFile_files .pwm t _ other
  have run : stopData s = .ok () u := by
    change (closeDataFile .acc (s.files.handle .acc) >>= fun _ =>
      closeDataFile .pwm (s.files.handle .pwm)) s = _
    rw [bind_of_ok acc, pwm]
  exact ⟨u, run, by rw [files', files]⟩

/-- The pipe is no data file. -/
def SameFiles (s t : UiState) : Prop := t.files = s.files

theorem SameFiles.refl (s : UiState) : SameFiles s s := rfl

theorem SameFiles.trans (s t u : UiState) (first : SameFiles s t) (rest : SameFiles t u) :
    SameFiles s u := Eq.trans rest first

theorem sameFiles_call (c : UiCall) : Leads SameFiles (call c) := leads_modify fun _ => rfl

theorem sameFiles_startPlot (accPath pwmPath : String) :
    Leads SameFiles (startPlot w accPath pwmPath) := by
  have stay : Leads SameFiles (pure () : Ui Unit) := leads_pure SameFiles.refl ()
  refine (leads_get SameFiles.refl).bind SameFiles.trans fun s => ?_
  dsimp only
  split
  · refine (sameFiles_call _).bind SameFiles.trans fun _ => ?_
    split
    · refine (sameFiles_call _).bind SameFiles.trans fun _ => ?_
      split
      · exact (sameFiles_call _).bind SameFiles.trans fun _ => leads_modify fun _ => rfl
      · exact stay
    · exact stay
  · exact stay

theorem sameFiles_stopPlot : Leads SameFiles stopPlot := by
  refine (leads_get SameFiles.refl).bind SameFiles.trans fun s => ?_
  dsimp only
  split
  · exact (sameFiles_call _).bind SameFiles.trans fun _ => leads_modify fun _ => rfl
  · exact leads_pure SameFiles.refl ()

theorem openDataFile_files {k : DataFile} {file : FileHandle} (found : w.fopen k = some file)
    (path : String) (s : UiState) :
    ∃ t, openDataFile w k path s = .ok (some file) t ∧ t.files = s.files.openFile file := by
  rw [openDataFile, found]
  exact ⟨_, rfl, rfl⟩

theorem keepDataFile_files (k : DataFile) (file : FileHandle) (path : String) (s : UiState) :
    ∃ t, keepDataFile k path (some file) s = .ok () t ∧
      t.files = s.files.setHandle k (some file) := ⟨_, rfl, rfl⟩

theorem startPlot_files (accPath pwmPath : String) (s : UiState) :
    ∃ t, startPlot w accPath pwmPath s = .ok () t ∧ t.files = s.files := by
  obtain ⟨a, t, run, _⟩ := makes_startPlot w accPath pwmPath s
  have same := sameFiles_startPlot (w := w) accPath pwmPath s
  rw [run] at same
  exact ⟨t, run, same⟩

theorem startData_files {acc pwm : FileHandle} (ready : w.dataPathReady = true)
    (fit : NamesFit w) (accOpens : w.fopen .acc = some acc) (pwmOpens : w.fopen .pwm = some pwm)
    (s : UiState) :
    ∃ t, startData w s = .ok true t ∧ t.files = s.files.open₂ acc pwm := by
  rcases Rcws.getNextFileName_cases w.entries .acc with ⟨_, accName, foundAcc⟩ | ⟨unfit, _⟩
  · rcases Rcws.getNextFileName_cases w.entries .pwm with ⟨_, pwmName, foundPwm⟩ | ⟨unfit, _⟩
    · let s₀ : UiState := { s with calls := s.calls ++ [.dataPath] }
      let accPath := w.dataPath ++ "/" ++ accName
      let pwmPath := w.dataPath ++ "/" ++ pwmName
      obtain ⟨s₁, opened, files₁⟩ := openDataFile_files accOpens accPath s₀
      obtain ⟨s₂, opened', files₂⟩ := openDataFile_files pwmOpens pwmPath s₁
      obtain ⟨s₃, kept, files₃⟩ := keepDataFile_files .acc acc accPath s₂
      obtain ⟨s₄, kept', files₄⟩ := keepDataFile_files .pwm pwm pwmPath s₃
      obtain ⟨t, plotted, files₅⟩ := startPlot_files (w := w) accPath pwmPath s₄
      refine ⟨t, ?_, by rw [files₅, files₄, files₃, files₂, files₁, DataFiles.open₂]⟩
      have called : call .dataPath s = .ok () s₀ := rfl
      rw [startData, bind_of_ok called, if_pos ready, foundAcc, foundPwm]
      refine (bind_of_ok opened).trans ((bind_of_ok opened').trans ?_)
      exact (bind_of_ok kept).trans ((bind_of_ok kept').trans (bind_of_ok plotted))
    · exact absurd fit.2 unfit
  · exact absurd fit.1 unfit

/-- With files that open, a command that returns takes the step of the data files it stands
for. -/
theorem switchStep_setMode {mode : UInt8} {s t : UiState} {acc pwm : FileHandle}
    (known : mode = lraUsbCrtlMode ∨ mode = lraUsbDataMode)
    (accOpens : w.fopen .acc = some acc) (pwmOpens : w.fopen .pwm = some pwm)
    (new : acc ∉ s.files.opened) (new' : pwm ∉ acc :: s.files.opened)
    (run : setMode w mode s = .ok () t) : SwitchStep s.files ⟨mode, w.dataPathReady⟩ t.files := by
  rcases known with rfl | rfl
  · apply (DataFiles.switchStep_crtl rfl).mpr
    obtain ⟨u, stopped, files⟩ := stopData_files s
    have rest : Leads SameFiles (call (.devSwitchMode lraUsbCrtlMode) >>= fun _ => stopPlot) :=
      (sameFiles_call _).bind SameFiles.trans fun _ => sameFiles_stopPlot
    have same := rest u
    have ended : (call (.devSwitchMode lraUsbCrtlMode) >>= fun _ => stopPlot) u = .ok () t :=
      (bind_of_ok stopped).symm.trans run
    rw [ended] at same
    exact Eq.trans same files
  · by_cases ready : w.dataPathReady = true
    · by_cases fit : NamesFit w
      · obtain ⟨u, started, files⟩ := startData_files ready fit accOpens pwmOpens s
        have ended : call (.devSwitchMode lraUsbDataMode) u = .ok () t :=
          (bind_of_ok started).symm.trans run
        have same := sameFiles_call (.devSwitchMode lraUsbDataMode) u
        rw [ended] at same
        exact (DataFiles.switchStep_data ⟨rfl, ready⟩).mpr
          ⟨acc, pwm, new, new', Eq.trans same files⟩
      · rw [setMode_of_unfit w ready fit] at run
        cases run
    · apply (DataFiles.switchStep_other (fun opens => ready opens.2)
        (show lraUsbDataMode ≠ lraUsbCrtlMode by decide)).mpr
      have idle : setMode w lraUsbDataMode s =
          .ok () { s with calls := s.calls ++ [.dataPath] } := by
        have none : startData w s = .ok false { s with calls := s.calls ++ [.dataPath] } := by
          unfold startData
          refine (bind_of_ok rfl).trans ?_
          rw [if_neg ready]
          rfl
        exact bind_of_ok none
      rw [idle] at run
      cases run
      rfl

end Files

end UiParser

end Lra
