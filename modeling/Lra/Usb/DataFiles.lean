import Lra.Effect.Execution
import Lra.Effect.Transition
import Lra.Usb.RcwsParser

/-!
# The data files

In data mode the parser thread logs what the device sends to two files. The user's thread
opens them on a switch to data mode and closes them on a switch to control mode. A handle
stands for one stream: `fopen` never gives one that it gave before.
-/

namespace Lra

open Effect

inductive DataFile where
  | acc
  | pwm
  deriving DecidableEq, Repr

/-- `FILE*` of an opened file. -/
abbrev FileHandle := Nat

/-- What the data of one message adds to a file. -/
inductive FileData where
  | pwm (t : UInt32) (info : RcwsPwmInfo)
  | acc (sets : List AccDataSet)
  deriving DecidableEq

inductive FileOp where
  /-- `GetAccFileHandle` and `GetPwmFileHandle`. -/
  | getFileHandle (k : DataFile)
  /-- Whether the handle is not null. -/
  | hasFileHandle (k : DataFile)
  /-- `UpdateAccFileHandle` and `UpdatePwmFileHandle`. -/
  | updateFileHandle (k : DataFile) (handle : Option FileHandle)
  /-- Whether the directory exists or could be created. -/
  | dataPath
  /-- The next file of its kind. -/
  | fopen (k : DataFile)
  | fclose (file : FileHandle)
  | log (target : Option FileHandle) (data : FileData)
  | fflush (target : Option FileHandle)
  | devSwitchMode (mode : UInt8)
  deriving DecidableEq

@[reducible] def FileIo : Signature where
  Op := FileOp
  Res
    | .getFileHandle _ => Option FileHandle
    | .hasFileHandle _ => Bool
    | .dataPath => Bool
    | .fopen _ => Option FileHandle
    | _ => Unit

def lraUsbCrtlMode : UInt8 := 2

def lraUsbDataMode : UInt8 := 3

namespace UiParser

def getFileHandle (k : DataFile) : Program FileIo (Option FileHandle) :=
  .op (.getFileHandle k) .ret

def updateFileHandle (k : DataFile) (handle : Option FileHandle) : Program FileIo Unit :=
  .op (.updateFileHandle k handle) .ret

def fopen (k : DataFile) : Program FileIo (Option FileHandle) := .op (.fopen k) .ret

/-- Nothing is done with a file that could not be opened. -/
def keepFile (k : DataFile) (tmp : Option FileHandle) : Program FileIo Unit :=
  match tmp with
  | some file => updateFileHandle k (some file)
  | none => pure ()

def closeFile (k : DataFile) (handle : Option FileHandle) : Program FileIo Unit :=
  match handle with
  | some file => do
    .op (.fclose file) .ret
    updateFileHandle k none
  | none => pure ()

def switchToData : Program FileIo Unit := do
  let ready ← .op .dataPath .ret
  if ready then
    let accTmp ← fopen .acc
    let pwmTmp ← fopen .pwm
    keepFile .acc accTmp
    keepFile .pwm pwmTmp
    .op (.devSwitchMode lraUsbDataMode) .ret

def switchToCrtl : Program FileIo Unit := do
  let accFile ← getFileHandle .acc
  let pwmFile ← getFileHandle .pwm
  closeFile .acc accFile
  closeFile .pwm pwmFile
  .op (.devSwitchMode lraUsbCrtlMode) .ret

/-- The command `s` of `UIParser::Parse`, with the mode it is answered. -/
def switchMode (mode : UInt8) : Program FileIo Unit :=
  if mode != lraUsbCrtlMode && mode != lraUsbDataMode then pure ()
  else if mode = lraUsbDataMode then switchToData
  else switchToCrtl

end UiParser

/-! ### Memory -/

/-- `acc_file_` and `pwm_file_`, with the streams opened so far and those closed again. -/
structure DataFiles where
  handle : DataFile → Option FileHandle := fun _ => none
  opened : List FileHandle := []
  closed : List FileHandle := []

namespace DataFiles

/-- The file was opened and is not yet closed. -/
def IsOpen (s : DataFiles) (file : FileHandle) : Prop := file ∈ s.opened ∧ file ∉ s.closed

def setHandle (s : DataFiles) (k : DataFile) (handle : Option FileHandle) : DataFiles :=
  { s with handle := Function.update s.handle k handle }

@[simp] theorem setHandle_self (s : DataFiles) (k : DataFile) (handle : Option FileHandle) :
    (s.setHandle k handle).handle k = handle := by
  simp [setHandle]

theorem setHandle_of_ne {k l : DataFile} (other : l ≠ k) (s : DataFiles)
    (handle : Option FileHandle) : (s.setHandle k handle).handle l = s.handle l := by
  simp [setHandle, other]

def openFile (s : DataFiles) (file : FileHandle) : DataFiles :=
  { s with opened := file :: s.opened }

def closeFile (s : DataFiles) (file : FileHandle) : DataFiles :=
  { s with closed := file :: s.closed }

end DataFiles

/-- Every `fopen` succeeds. `ready` tells whether the data path is there. -/
def fileIo (ready : Bool) : Semantics FileIo DataFiles
  | .getFileHandle k, s, r, t => r = s.handle k ∧ t = s
  | .hasFileHandle k, s, r, t => r = (s.handle k).isSome ∧ t = s
  | .updateFileHandle k handle, s, _, t => t = s.setHandle k handle
  | .dataPath, s, r, t => r = ready ∧ t = s
  | .fopen _, s, r, t => ∃ file, file ∉ s.opened ∧ r = some file ∧ t = s.openFile file
  | .fclose file, s, _, t => t = s.closeFile file
  | .log _ _, s, _, t => t = s
  | .fflush _, s, _, t => t = s
  | .devSwitchMode _, s, _, t => t = s

/-- A command of the user: the mode of the answer, and whether the data path is there. -/
structure SwitchCommand where
  mode : UInt8
  ready : Bool

/-- One command. -/
def SwitchStep (s : DataFiles) (c : SwitchCommand) (t : DataFiles) : Prop :=
  ∃ tr, Exec (fileIo c.ready) (UiParser.switchMode c.mode) s tr () t

/-- The command comes to open files. -/
def SwitchCommand.Opens (c : SwitchCommand) : Prop := c.mode = lraUsbDataMode ∧ c.ready = true

namespace DataFiles

/-- Close the file of a handle that is not null, and forget it. -/
def shut (s : DataFiles) (k : DataFile) : DataFiles :=
  match s.handle k with
  | some file => (s.closeFile file).setHandle k none
  | none => s

/-- Open two files and keep their handles. -/
def open₂ (s : DataFiles) (acc pwm : FileHandle) : DataFiles :=
  (((s.openFile acc).openFile pwm).setHandle .acc (some acc)).setHandle .pwm (some pwm)

/-! ### What one command does -/

section Commands

variable {s t : DataFiles} {c : SwitchCommand}

theorem exec_dataPath {ready : Bool} {next : Bool → Program FileIo Unit} :
    (∃ tr, Exec (fileIo ready) (.op .dataPath next) s tr () t)
      ↔ ∃ tr, Exec (fileIo ready) (next ready) s tr () t :=
  exists_exec_op_of (S := FileIo) (o := .dataPath) (r := ready) fun _ _ => Iff.rfl

theorem exec_getFileHandle {ready : Bool} {k : DataFile}
    {next : Option FileHandle → Program FileIo Unit} :
    (∃ tr, Exec (fileIo ready) (.op (.getFileHandle k) next) s tr () t)
      ↔ ∃ tr, Exec (fileIo ready) (next (s.handle k)) s tr () t :=
  exists_exec_op_of (S := FileIo) (o := .getFileHandle k) (r := s.handle k) fun _ _ => Iff.rfl

theorem exec_updateFileHandle {ready : Bool} {k : DataFile} {handle : Option FileHandle}
    {next : Unit → Program FileIo Unit} :
    (∃ tr, Exec (fileIo ready) (.op (.updateFileHandle k handle) next) s tr () t)
      ↔ ∃ tr, Exec (fileIo ready) (next ()) (s.setHandle k handle) tr () t :=
  exists_exec_op_of (S := FileIo) (o := .updateFileHandle k handle) (r := ())
    fun _ _ => (and_iff_right rfl).symm

theorem exec_fclose {ready : Bool} {file : FileHandle} {next : Unit → Program FileIo Unit} :
    (∃ tr, Exec (fileIo ready) (.op (.fclose file) next) s tr () t)
      ↔ ∃ tr, Exec (fileIo ready) (next ()) (s.closeFile file) tr () t :=
  exists_exec_op_of (S := FileIo) (o := .fclose file) (r := ())
    fun _ _ => (and_iff_right rfl).symm

/-- A command ends by telling the device. -/
theorem exec_devSwitchMode {ready : Bool} {mode : UInt8} :
    (∃ tr, Exec (fileIo ready) (.op (.devSwitchMode mode) .ret) s tr () t) ↔ t = s :=
  (exists_exec_op_of (S := FileIo) (o := .devSwitchMode mode) (r := ())
    fun _ _ => (and_iff_right rfl).symm).trans (exists_exec_ret.trans (and_iff_right rfl))

theorem exec_closeFile {ready : Bool} {k : DataFile} {next : Unit → Program FileIo Unit} :
    (∃ tr, Exec (fileIo ready) (UiParser.closeFile k (s.handle k) >>= next) s tr () t)
      ↔ ∃ tr, Exec (fileIo ready) (next ()) (s.shut k) tr () t := by
  cases held : s.handle k with
  | none =>
    simp only [shut, held]
    exact Iff.rfl
  | some file =>
    simp only [shut, held]
    exact exec_fclose.trans exec_updateFileHandle

/-- Closing one file leaves the other's handle. -/
theorem shut_handle_of_ne {k l : DataFile} (other : l ≠ k) : (s.shut k).handle l = s.handle l := by
  unfold shut
  split
  · exact setHandle_of_ne other _ _
  · rfl

theorem shut_handle_self (k : DataFile) : (s.shut k).handle k = none := by
  cases held : s.handle k with
  | none =>
    simp only [shut, held]
  | some file =>
    simp only [shut, held]
    exact setHandle_self _ _ _

theorem isOpen_shut {k : DataFile} {file : FileHandle} :
    (s.shut k).IsOpen file ↔ s.IsOpen file ∧ s.handle k ≠ some file := by
  cases held : s.handle k with
  | none =>
    simp only [shut, held]
    exact (and_iff_left (by simp)).symm
  | some other =>
    simp only [shut, held]
    simp only [IsOpen, setHandle, closeFile, List.mem_cons, not_or, ne_eq, Option.some.injEq,
      and_assoc]
    exact and_congr_right fun _ => and_comm.trans (and_congr_right fun _ => not_congr eq_comm)

theorem switchStep_crtl (crtl : c.mode = lraUsbCrtlMode) :
    SwitchStep s c t ↔ t = (s.shut .acc).shut .pwm := by
  obtain ⟨mode, ready⟩ := c
  obtain rfl : mode = lraUsbCrtlMode := crtl
  have pwm : (s.shut .acc).handle .pwm = s.handle .pwm := shut_handle_of_ne (by decide)
  calc SwitchStep s ⟨lraUsbCrtlMode, ready⟩ t
      ↔ ∃ tr, Exec (fileIo ready) (do
          UiParser.closeFile .acc (s.handle .acc)
          UiParser.closeFile .pwm (s.handle .pwm)
          .op (.devSwitchMode lraUsbCrtlMode) .ret) s tr () t :=
        exec_getFileHandle.trans exec_getFileHandle
    _ ↔ t = (s.shut .acc).shut .pwm := by
        rw [exec_closeFile, ← pwm, exec_closeFile, exec_devSwitchMode]

theorem switchStep_data (opens : c.Opens) :
    SwitchStep s c t
      ↔ ∃ acc pwm, acc ∉ s.opened ∧ pwm ∉ acc :: s.opened ∧ t = s.open₂ acc pwm := by
  obtain ⟨mode, ready⟩ := c
  obtain ⟨rfl, rfl⟩ := opens
  have kept (acc pwm : FileHandle) : (∃ tr, Exec (fileIo true) (do
        UiParser.keepFile .acc (some acc)
        UiParser.keepFile .pwm (some pwm)
        .op (.devSwitchMode lraUsbDataMode) .ret) ((s.openFile acc).openFile pwm) tr () t)
      ↔ t = s.open₂ acc pwm :=
    exec_updateFileHandle.trans (exec_updateFileHandle.trans exec_devSwitchMode)
  have opening : SwitchStep s ⟨lraUsbDataMode, true⟩ t ↔ ∃ tr, Exec (fileIo true) (do
      let accTmp ← UiParser.fopen .acc
      let pwmTmp ← UiParser.fopen .pwm
      UiParser.keepFile .acc accTmp
      UiParser.keepFile .pwm pwmTmp
      .op (.devSwitchMode lraUsbDataMode) .ret) s tr () t := exec_dataPath
  rw [opening]
  constructor
  · intro run
    obtain ⟨_, _, ⟨acc, new, rfl, rfl⟩, run⟩ := exists_exec_op.1 run
    obtain ⟨_, _, ⟨pwm, other, rfl, rfl⟩, run⟩ := exists_exec_op.1 run
    exact ⟨acc, pwm, new, other, (kept acc pwm).1 run⟩
  · intro ⟨acc, pwm, new, other, result⟩
    obtain ⟨tr, run⟩ := (kept acc pwm).2 result
    exact ⟨_, .op ⟨acc, new, rfl, rfl⟩ (.op ⟨pwm, other, rfl, rfl⟩ run)⟩

theorem switchStep_other (closed : ¬ c.Opens) (other : c.mode ≠ lraUsbCrtlMode) :
    SwitchStep s c t ↔ t = s := by
  obtain ⟨mode, ready⟩ := c
  by_cases data : mode = lraUsbDataMode
  · obtain rfl := data
    obtain rfl : ready = false := by
      cases ready with
      | false => rfl
      | true => exact absurd ⟨rfl, rfl⟩ closed
    have stop : SwitchStep s ⟨lraUsbDataMode, false⟩ t
        ↔ ∃ tr, Exec (fileIo false) (.ret ()) s tr () t := exec_dataPath
    rw [stop, exists_exec_ret]
    exact and_iff_right rfl
  · have code : UiParser.switchMode mode = .ret () := by
      have unknown : (mode != lraUsbCrtlMode && mode != lraUsbDataMode) = true := by
        simp [data, show mode ≠ lraUsbCrtlMode from other]
      exact if_pos unknown
    unfold SwitchStep
    rw [code, exists_exec_ret]
    exact and_iff_right rfl

end Commands

/-! ### Which files are open -/

/-- The open files are those that have a handle. -/
def Exact (s : DataFiles) : Prop := ∀ file, s.IsOpen file ↔ ∃ k, s.handle k = some file

/-- What holds after the last command of a history: the files are accounted for, and after
a switch to control mode none is open. -/
structure Accounted (h : List (SwitchCommand × DataFiles)) : Prop where
  exact : (stateAfter {} h).Exact
  none : ∀ c u h', h = (c, u) :: h' → c.mode = lraUsbCrtlMode → ∀ file, ¬ u.IsOpen file

/-- What every command keeps. -/
structure Known (s : DataFiles) : Prop where
  handle : ∀ k file, s.handle k = some file → file ∈ s.opened
  closed : ∀ file ∈ s.closed, file ∈ s.opened

section Steps

variable {s t : DataFiles} {c : SwitchCommand}

theorem known_shut (known : s.Known) (k : DataFile) : (s.shut k).Known := by
  cases held : s.handle k with
  | none =>
    simp only [shut, held]
    exact known
  | some file =>
    simp only [shut, held]
    constructor
    · intro l other handle
      by_cases same : l = k
      · subst same
        rw [setHandle_self] at handle
        cases handle
      · rw [setHandle_of_ne same] at handle
        exact known.handle l other handle
    · intro other closed
      cases List.mem_cons.1 closed with
      | inl here =>
        subst here
        exact known.handle k other held
      | inr before => exact known.closed other before

theorem handle_open₂ (s : DataFiles) (acc pwm : FileHandle) (k : DataFile) :
    (s.open₂ acc pwm).handle k = some (match k with | .acc => acc | .pwm => pwm) := by
  cases k with
  | acc => simp [open₂, setHandle]
  | pwm => simp [open₂, setHandle]

theorem known_open₂ (known : s.Known) (acc pwm : FileHandle) : (s.open₂ acc pwm).Known := by
  constructor
  · intro k file handle
    rw [handle_open₂] at handle
    obtain rfl := Option.some.inj handle
    cases k with
    | acc => exact List.mem_cons_of_mem _ List.mem_cons_self
    | pwm => exact List.mem_cons_self
  · intro file closed
    exact List.mem_cons_of_mem _ (List.mem_cons_of_mem _ (known.closed file closed))

theorem Known.step (known : s.Known) (step : SwitchStep s c t) : t.Known := by
  by_cases crtl : c.mode = lraUsbCrtlMode
  · obtain rfl := (switchStep_crtl crtl).1 step
    exact known_shut (known_shut known .acc) .pwm
  · by_cases opens : c.Opens
    · obtain ⟨acc, pwm, _, _, rfl⟩ := (switchStep_data opens).1 step
      exact known_open₂ known acc pwm
    · obtain rfl := (switchStep_other opens crtl).1 step
      exact known

theorem known_run {h : List (SwitchCommand × DataFiles)} (run : Run SwitchStep {} h s) :
    s.Known :=
  run.invariant ⟨by simp, by simp⟩ fun known step => known.step step

/-- A switch to control mode closes all files that are accounted for. -/
theorem exact_crtl (exact : s.Exact) :
    ((s.shut .acc).shut .pwm).Exact ∧ ∀ file, ¬ ((s.shut .acc).shut .pwm).IsOpen file := by
  have pwm : (s.shut .acc).handle .pwm = s.handle .pwm := shut_handle_of_ne (by decide)
  have none : ∀ file, ¬ ((s.shut .acc).shut .pwm).IsOpen file := by
    intro file isOpen
    rw [isOpen_shut, isOpen_shut, pwm] at isOpen
    obtain ⟨⟨before, notAcc⟩, notPwm⟩ := isOpen
    obtain ⟨k, held⟩ := (exact file).1 before
    cases k with
    | acc => exact notAcc held
    | pwm => exact notPwm held
  refine ⟨fun file => iff_of_false (none file) ?_, none⟩
  intro ⟨k, held⟩
  cases k with
  | acc =>
    rw [shut_handle_of_ne (by decide), shut_handle_self] at held
    cases held
  | pwm =>
    rw [shut_handle_self] at held
    cases held

theorem isOpen_open₂ {acc pwm file : FileHandle} (known : s.Known) (newAcc : acc ∉ s.opened)
    (newPwm : pwm ∉ acc :: s.opened) :
    (s.open₂ acc pwm).IsOpen file ↔ file = acc ∨ file = pwm ∨ s.IsOpen file := by
  have opened : file ∈ (s.open₂ acc pwm).opened ↔ file = pwm ∨ file = acc ∨ file ∈ s.opened := by
    simp [open₂, setHandle, openFile]
  have accClosed : acc ∉ s.closed := fun closed => newAcc (known.closed acc closed)
  have pwmClosed : pwm ∉ s.closed := fun closed =>
    newPwm (List.mem_cons_of_mem _ (known.closed pwm closed))
  constructor
  · intro ⟨inside, fresh⟩
    rcases opened.1 inside with here | here | before
    · exact .inr (.inl here)
    · exact .inl here
    · exact .inr (.inr ⟨before, fresh⟩)
  · rintro (rfl | rfl | ⟨before, fresh⟩)
    · exact ⟨opened.2 (.inr (.inl rfl)), accClosed⟩
    · exact ⟨opened.2 (.inl rfl), pwmClosed⟩
    · exact ⟨opened.2 (.inr (.inr before)), fresh⟩

/-- New files are accounted for exactly if no file was open before. -/
theorem exact_open₂_iff {acc pwm : FileHandle} (known : s.Known) (exact : s.Exact)
    (newAcc : acc ∉ s.opened) (newPwm : pwm ∉ acc :: s.opened) :
    (s.open₂ acc pwm).Exact ↔ ∀ k, s.handle k = none := by
  have held (file : FileHandle) :
      (∃ k, (s.open₂ acc pwm).handle k = some file) ↔ file = acc ∨ file = pwm := by
    simp only [handle_open₂, Option.some.injEq]
    constructor
    · intro ⟨k, same⟩
      cases k with
      | acc => exact .inl same.symm
      | pwm => exact .inr same.symm
    · intro same
      cases same with
      | inl same => exact ⟨.acc, same.symm⟩
      | inr same => exact ⟨.pwm, same.symm⟩
  constructor
  · intro after k
    cases handle : s.handle k with
    | none => rfl
    | some file =>
      have isOpen : s.IsOpen file := (exact file).2 ⟨k, handle⟩
      have now := (isOpen_open₂ known newAcc newPwm).2 (.inr (.inr isOpen))
      cases (held file).1 ((after file).1 now) with
      | inl same =>
        subst same
        exact absurd isOpen.1 newAcc
      | inr same =>
        subst same
        exact absurd (List.mem_cons_of_mem _ isOpen.1) newPwm
  · intro null file
    rw [held, isOpen_open₂ known newAcc newPwm]
    have none : ¬ s.IsOpen file := by
      intro isOpen
      obtain ⟨k, handle⟩ := (exact file).1 isOpen
      rw [null k] at handle
      cases handle
    tauto

/-- One more command keeps the files accounted for exactly if it opens none over others. -/
theorem accounted_step_iff {h : List (SwitchCommand × DataFiles)} (run : Run SwitchStep {} h s)
    (accounted : Accounted h) (step : SwitchStep s c t) :
    Accounted ((c, t) :: h) ↔ (c.Opens → ∀ k, (stateAfter {} h).handle k = none) := by
  have known : s.Known := known_run run
  have exact : s.Exact := run.stateAfter_eq ▸ accounted.exact
  rw [run.stateAfter_eq]
  by_cases crtl : c.mode = lraUsbCrtlMode
  · obtain rfl := (switchStep_crtl crtl).1 step
    obtain ⟨exact, none⟩ := exact_crtl exact
    refine iff_of_true ⟨exact, ?_⟩ fun opens => ?_
    · intro c' u h' same _
      cases same
      exact none
    · exact absurd (crtl.symm.trans opens.1) (by decide)
  · have notCrtl (exact : t.Exact) : Accounted ((c, t) :: h) := by
      refine ⟨exact, ?_⟩
      intro c' u h' same crtl'
      cases same
      exact absurd crtl' crtl
    by_cases opens : c.Opens
    · obtain ⟨acc, pwm, newAcc, newPwm, rfl⟩ := (switchStep_data opens).1 step
      have opening := exact_open₂_iff known exact newAcc newPwm
      constructor
      · intro after _
        exact opening.1 after.exact
      · intro null
        exact notCrtl (opening.2 (null opens))
    · obtain rfl := (switchStep_other opens crtl).1 step
      exact iff_of_true (notCrtl exact) fun opens' => absurd opens' opens

/-- At every moment of a run of commands the open files are those that have a handle, and
none after a switch to control mode, exactly if no files are opened over a handle. -/
theorem accounted_iff {h : List (SwitchCommand × DataFiles)} (run : Run SwitchStep {} h s) :
    (∀ h', h' <:+ h → Accounted h') ↔
      ∀ c u h', (c, u) :: h' <:+ h → c.Opens → ∀ k, (stateAfter {} h').handle k = none := by
  refine run.always_iff ?_ fun run accounted step => accounted_step_iff run accounted step
  refine ⟨?_, ?_⟩
  · intro file
    simp [IsOpen]
  · intro c u h' same
    cases same

end Steps

def toData : SwitchCommand := ⟨lraUsbDataMode, true⟩

def toCrtl : SwitchCommand := ⟨lraUsbCrtlMode, true⟩

/-- Data mode once. -/
def recording : DataFiles := ({} : DataFiles).open₂ 0 1

theorem run_recording : Run SwitchStep {} [(toData, recording)] recording := by
  have start : SwitchStep {} toData recording :=
    (switchStep_data ⟨rfl, rfl⟩).2 ⟨0, 1, by simp, by simp, rfl⟩
  exact .step .nil start

/-- A session: to data mode and back. -/
theorem accounted_iff_session :
    Accounted [(toCrtl, (recording.shut .acc).shut .pwm), (toData, recording)] := by
  have back : SwitchStep recording toCrtl ((recording.shut .acc).shut .pwm) :=
    (switchStep_crtl rfl).2 rfl
  refine (accounted_iff (run_recording.step back)).2 ?_ _ List.suffix_rfl
  refine forall_steps_cons.mpr ⟨fun opens => absurd opens.1 (by decide), ?_⟩
  exact forall_steps_cons.mpr ⟨fun _ _ => rfl, forall_steps_nil⟩

/-- To data mode twice: nobody has the handle of the first file, and it is never closed. -/
theorem not_accounted_twice :
    ∃ s, Run SwitchStep {} [(toData, s), (toData, recording)] s ∧
      ¬ Accounted [(toData, s), (toData, recording)] := by
  have again : SwitchStep recording toData (recording.open₂ 2 3) :=
    (switchStep_data ⟨rfl, rfl⟩).2 ⟨2, 3, by decide, by decide, rfl⟩
  refine ⟨_, run_recording.step again, ?_⟩
  intro accounted
  have isOpen : (recording.open₂ 2 3).IsOpen 0 := ⟨by decide, by decide⟩
  obtain ⟨k, held⟩ := (accounted.exact 0).1 isOpen
  cases k with
  | acc => exact absurd held (by decide)
  | pwm => exact absurd held (by decide)

end DataFiles

end Lra
