import Lra.Effect.Protocol
import Lra.Usb.DataFiles

/-!
# Closing a file while it is written

The parser thread tests a handle, fetches it again and writes to what it got, call by call.
The user's thread may close the file in between: it is closed before its handle is cleared.
No closed file is written to in every run in which no file is closed that the parser has
fetched and not yet flushed, and no handle of a closed file is fetched to write to it.
-/

namespace Lra

open Effect

def FileData.file : FileData → DataFile
  | .pwm _ _ => .pwm
  | .acc _ => .acc

namespace RcwsParser

/-- The data of a message goes to the file of its kind, if there is one. -/
def logFile (data : FileData) : Program FileIo Unit := do
  let isSet ← .op (.hasFileHandle data.file) .ret
  if isSet then
    let target ← UiParser.getFileHandle data.file
    .op (.log target data) .ret
    .op (.fflush target) .ret

def logData (data : Option FileData) : Program FileIo Unit :=
  match data with
  | some data => logFile data
  | none => pure ()

/-- What `Parse` does with the data it found in a message. -/
def logParsed (out : Parsed) : Program FileIo Unit := do
  logData (out.pwm.map fun (t, info) => .pwm t info)
  logData (out.acc.map .acc)

end RcwsParser

namespace DataFiles

/-! ### A message by itself -/

/-- The files that a message finds. -/
def files (s : DataFiles) : RcwsParser.Files where
  pwm := (s.handle .pwm).isSome
  acc := (s.handle .acc).isSome

/-- What the calls of a trace write. -/
def written (tr : List (FileOp × DataFiles)) : List FileData :=
  tr.filterMap fun
    | (.log (some _) data, _) => some data
    | _ => none

section Message

variable {s t : DataFiles} {tr : List (FileOp × DataFiles)} {ready : Bool}

theorem logFile_written {data : FileData}
    (run : Exec (fileIo ready) (RcwsParser.logFile data) s tr () t) :
    t = s ∧ written tr = if (s.handle data.file).isSome then [data] else [] := by
  cases run with
  | @op _ _ _ isSet u tr _ _ answer rest =>
    obtain ⟨rfl, rfl⟩ := answer
    cases held : u.handle data.file with
    | none =>
      simp only [held, Option.isSome_none] at rest
      cases rest
      exact ⟨rfl, rfl⟩
    | some file =>
      simp only [held, Option.isSome_some] at rest
      cases rest with
      | @op _ _ _ target v tr _ _ answer rest =>
        obtain ⟨rfl, rfl⟩ := answer
        rw [held] at rest
        cases rest with
        | op answer rest =>
          cases answer
          cases rest with
          | op answer rest =>
            cases answer
            cases rest
            exact ⟨rfl, rfl⟩

theorem logData_written {data : Option FileData}
    (run : Exec (fileIo ready) (RcwsParser.logData data) s tr () t) :
    t = s ∧ written tr = (data.filter fun d => (s.handle d.file).isSome).toList := by
  cases data with
  | none =>
    cases run
    exact ⟨rfl, rfl⟩
  | some data =>
    obtain ⟨stays, writes⟩ := logFile_written run
    refine ⟨stays, writes.trans ?_⟩
    simp only [Option.filter_some]
    split <;> rfl

/-- The test of a handle is that of its file. -/
theorem filter_handle {α : Type} {f : α → FileData} {k : DataFile} (kind : ∀ a, (f a).file = k)
    (found : Option α) :
    ((found.map f).filter fun d => (s.handle d.file).isSome).toList
      = ((if (s.handle k).isSome then found else none).map f).toList := by
  cases found with
  | none => simp
  | some a => cases held : s.handle k <;> simp [kind, held]

/-- If nobody comes in between, the calls of a message write what `parse` says. -/
theorem written_of_parse {type : UInt8} {body : List UInt8} {out : RcwsParser.Parsed}
    {o : RcwsParser.Output} (found : RcwsParser.parseAs type (type :: body) = .ok out)
    (parsed : RcwsParser.parse s.files (type :: body) = .ok o)
    (run : Exec (fileIo ready) (RcwsParser.logParsed out) s tr () t) :
    written tr = (o.pwmFile.map fun (t, info) => .pwm t info).toList
      ++ (o.accFile.map .acc).toList := by
  simp only [RcwsParser.parse, found] at parsed
  obtain rfl := Except.ok.inj parsed
  obtain ⟨first, _, u, second, pwm, acc, rfl⟩ := run.of_bind
  obtain ⟨rfl, pwm⟩ := logData_written pwm
  obtain ⟨_, acc⟩ := logData_written acc
  rw [written, List.filterMap_append]
  exact congrArg₂ (· ++ ·) (pwm.trans (filter_handle (k := .pwm) (fun _ => rfl) _))
    (acc.trans (filter_handle (k := .acc) (fun _ => rfl) _))

end Message

/-! ### Threads -/

inductive Thread where
  | ui
  | parser
  deriving DecidableEq, Repr

inductive Job where
  | switchMode (mode : UInt8)
  | parse (out : RcwsParser.Parsed)

def Job.code : Job → Program FileIo Unit
  | .switchMode mode => UiParser.switchMode mode
  | .parse out => RcwsParser.logParsed out

def Thread.runs : Thread → Job → Prop
  | .ui, .switchMode _ => True
  | .parser, .parse _ => True
  | _, _ => False

/-- Commands of the user and messages of the device, call by call. -/
def threads : System FileIo DataFiles Thread Job where
  sem o s r t := ∃ ready, fileIo ready o s r t
  code := Job.code
  may := Thread.runs

abbrev Files := Pool FileIo DataFiles Thread Job

/-- The operation works on an opened file. -/
def Uses : FileOp → FileHandle → Prop
  | .log target _, file => target = some file
  | .fflush target, file => target = some file
  | _, _ => False

/-- The parser has fetched the file and not yet flushed it. -/
def Writing (p : Files) (file : FileHandle) : Prop :=
  ∃ o, p.next? .parser = some o ∧ Uses o file

/-- Nobody closes a file that is being written, or fetches the handle of a closed one to
write to it. -/
def Careful (p : Files) : Label FileIo Thread Job → Prop
  | .exec .ui (.fclose file) => ¬ Writing p file
  | .exec .parser (.getFileHandle k) =>
    ∀ file, p.mem.handle k = some file → file ∉ p.mem.closed
  | _ => True

/-! ### Call by call -/

/-- Where a thread is. -/
inductive Point where
  /-- The parser is not busy with a file. -/
  | free
  /-- The parser found that there is a file. -/
  | tested (k : DataFile)
  | taken (target : Option FileHandle)
  | logged (target : Option FileHandle)
  /-- The user asked for control mode. -/
  | switching
  | gotAcc (acc : Option FileHandle)
  /-- The files still to be closed. -/
  | closing (files : List (DataFile × FileHandle))
  /-- The first file is closed, and its handle not yet cleared. -/
  | closed (k : DataFile) (files : List (DataFile × FileHandle))
  /-- The user asked for data mode. -/
  | asking
  | opening
  | openedAcc (acc : Option FileHandle)
  /-- The files whose handles are still to be kept. -/
  | keeping (files : List (DataFile × FileHandle))
  /-- The command is carried out. -/
  | done

/-- The files of two handles. -/
def both (acc pwm : Option FileHandle) : List (DataFile × FileHandle) :=
  acc.toList.map (DataFile.acc, ·) ++ pwm.toList.map (DataFile.pwm, ·)

/-- The operations of each point. -/
inductive Handling : Protocol FileIo Point where
  | test {k isSet} : Handling .free (.hasFileHandle k) isSet (if isSet then .tested k else .free)
  | take {k target} : Handling (.tested k) (.getFileHandle k) target (.taken target)
  | log {target data r} : Handling (.taken target) (.log target data) r (.logged target)
  | flush {target r} : Handling (.logged target) (.fflush target) r .free
  | getAcc {acc} : Handling .switching (.getFileHandle .acc) acc (.gotAcc acc)
  | getPwm {acc pwm} : Handling (.gotAcc acc) (.getFileHandle .pwm) pwm (.closing (both acc pwm))
  | close {k file files r} :
      Handling (.closing ((k, file) :: files)) (.fclose file) r (.closed k files)
  | forget {k files r} : Handling (.closed k files) (.updateFileHandle k none) r (.closing files)
  | crtl {mode r} : Handling (.closing []) (.devSwitchMode mode) r .done
  | ask {ready} : Handling .asking .dataPath ready (if ready then .opening else .done)
  | openAcc {acc} : Handling .opening (.fopen .acc) acc (.openedAcc acc)
  | openPwm {acc pwm} : Handling (.openedAcc acc) (.fopen .pwm) pwm (.keeping (both acc pwm))
  | keep {k file files r} : Handling (.keeping ((k, file) :: files))
      (.updateFileHandle k (some file)) r (.keeping files)
  | data {mode r} : Handling (.keeping []) (.devSwitchMode mode) r .done

def firstPoint : Job → Point
  | .switchMode mode =>
    if mode = lraUsbDataMode then .asking
    else if mode = lraUsbCrtlMode then .switching
    else .done
  | .parse _ => .free

def lastPoint : Job → Point
  | .switchMode _ => .done
  | .parse _ => .free

theorem closeFile_follows (k : DataFile) (handle : Option FileHandle)
    (files : List (DataFile × FileHandle)) :
    (UiParser.closeFile k handle).Follows Handling (fun u _ => u = .closing files)
      (.closing (handle.toList.map (k, ·) ++ files)) := by
  cases handle with
  | none => exact rfl
  | some file => exact fun _ => ⟨_, .close, fun _ => ⟨_, .forget, rfl⟩⟩

theorem keepFile_follows (k : DataFile) (tmp : Option FileHandle)
    (files : List (DataFile × FileHandle)) :
    (UiParser.keepFile k tmp).Follows Handling (fun u _ => u = .keeping files)
      (.keeping (tmp.toList.map (k, ·) ++ files)) := by
  cases tmp with
  | none => exact rfl
  | some file => exact fun _ => ⟨_, .keep, rfl⟩

theorem switchToCrtl_follows :
    UiParser.switchToCrtl.Follows Handling (fun u _ => u = .done) .switching := by
  intro acc
  refine ⟨_, .getAcc, fun pwm => ⟨_, .getPwm, ?_⟩⟩
  refine (closeFile_follows .acc acc _).bind fun u _ closing => ?_
  subst closing
  have last := closeFile_follows .pwm pwm []
  rw [List.append_nil] at last
  refine last.bind fun u _ done => ?_
  subst done
  exact fun _ => ⟨_, .crtl, rfl⟩

theorem switchToData_follows :
    UiParser.switchToData.Follows Handling (fun u _ => u = .done) .asking := by
  intro ready
  refine ⟨_, .ask, ?_⟩
  cases ready with
  | false => exact rfl
  | true =>
    refine fun acc => ⟨_, .openAcc, fun pwm => ⟨_, .openPwm, ?_⟩⟩
    refine (keepFile_follows .acc acc _).bind fun u _ keeping => ?_
    subst keeping
    have last := keepFile_follows .pwm pwm []
    rw [List.append_nil] at last
    refine last.bind fun u _ done => ?_
    subst done
    exact fun _ => ⟨_, .data, rfl⟩

theorem logFile_follows (data : FileData) :
    (RcwsParser.logFile data).Follows Handling (fun u _ => u = .free) .free := by
  intro isSet
  refine ⟨_, .test, ?_⟩
  cases isSet with
  | false => exact rfl
  | true =>
    exact fun target => ⟨_, .take, fun _ => ⟨_, .log, fun _ => ⟨_, .flush, rfl⟩⟩⟩

theorem logData_follows (data : Option FileData) :
    (RcwsParser.logData data).Follows Handling (fun u _ => u = .free) .free := by
  cases data with
  | none => exact rfl
  | some data => exact logFile_follows data

theorem logParsed_follows (out : RcwsParser.Parsed) :
    (RcwsParser.logParsed out).Follows Handling (fun u _ => u = .free) .free := by
  refine (logData_follows _).bind fun u _ done => ?_
  subst done
  exact logData_follows _

theorem code_follows {i : Thread} {j : Job} (may : threads.may i j) :
    j.code.Follows Handling (fun u _ => u = lastPoint j) (firstPoint j) := by
  cases j with
  | parse out => exact logParsed_follows out
  | switchMode mode =>
    by_cases data : mode = lraUsbDataMode
    · subst data
      exact switchToData_follows
    · by_cases crtl : mode = lraUsbCrtlMode
      · subst crtl
        exact switchToCrtl_follows
      · have code : UiParser.switchMode mode = .ret () := by
          have unknown : (mode != lraUsbCrtlMode && mode != lraUsbDataMode) = true := by
            simp [data, crtl]
          exact if_pos unknown
        show (UiParser.switchMode mode).Follows Handling _ (if _ then _ else if _ then _ else _)
        rw [code, if_neg data, if_neg crtl]
        exact rfl

/-! ### What a call does to the files -/

/-- The file is open, and nobody's handle yet. -/
structure Spare (s : DataFiles) (file : FileHandle) : Prop where
  opened : file ∈ s.opened
  fresh : file ∉ s.closed
  free : ∀ k, s.handle k ≠ some file

/-- The two handles are of different files, which were opened. -/
structure Proper (s : DataFiles) : Prop where
  known : s.Known
  distinct : ∀ k l file, s.handle k = some file → s.handle l = some file → k = l

section Calls

variable {s : DataFiles} {k l : DataFile} {file other : FileHandle}
variable {files : List (DataFile × FileHandle)}

theorem mem_both {acc pwm : Option FileHandle} :
    (k, file) ∈ both acc pwm ↔ (k = .acc ∧ acc = some file) ∨ (k = .pwm ∧ pwm = some file) := by
  simp [both, and_comm, eq_comm (a := k)]

theorem handle_of_mem_both (inside : (k, file) ∈ both (s.handle .acc) (s.handle .pwm)) :
    s.handle k = some file := by
  cases mem_both.1 inside with
  | inl acc =>
    obtain ⟨rfl, held⟩ := acc
    exact held
  | inr pwm =>
    obtain ⟨rfl, held⟩ := pwm
    exact held

/-- Clearing the first handle leaves the others to be closed. -/
theorem both_setHandle_none (head : (k, file) :: files = both (s.handle .acc) (s.handle .pwm)) :
    files = both ((s.setHandle k none).handle .acc) ((s.setHandle k none).handle .pwm) := by
  cases acc : s.handle .acc with
  | some first =>
    rw [acc] at head
    obtain ⟨⟨rfl, rfl⟩, rfl⟩ : (k = .acc ∧ file = first) ∧ files = _ := by
      simpa [both] using head
    simp [both, setHandle]
  | none =>
    cases pwm : s.handle .pwm with
    | some second =>
      rw [acc, pwm] at head
      obtain ⟨⟨rfl, rfl⟩, rfl⟩ : (k = .pwm ∧ file = second) ∧ files = [] := by
        simpa [both] using head
      simp [both, setHandle, acc]
    | none =>
      rw [acc, pwm] at head
      cases head

theorem Proper.closeFile (proper : s.Proper) (held : s.handle k = some file) :
    (s.closeFile file).Proper := by
  refine ⟨⟨proper.known.handle, ?_⟩, proper.distinct⟩
  intro f closed
  cases List.mem_cons.1 closed with
  | inl here =>
    subst here
    exact proper.known.handle k f held
  | inr before => exact proper.known.closed f before

theorem handle_of_setHandle_none (held : (s.setHandle k none).handle l = some file) :
    l ≠ k ∧ s.handle l = some file := by
  by_cases same : l = k
  · subst same
    rw [setHandle_self] at held
    cases held
  · rw [setHandle_of_ne same] at held
    exact ⟨same, held⟩

theorem Proper.forget (proper : s.Proper) (k : DataFile) : (s.setHandle k none).Proper := by
  refine ⟨⟨?_, proper.known.closed⟩, ?_⟩
  · intro l f held
    exact proper.known.handle l f (handle_of_setHandle_none held).2
  · intro l l' f held held'
    exact proper.distinct l l' f (handle_of_setHandle_none held).2
      (handle_of_setHandle_none held').2

theorem Proper.openFile (proper : s.Proper) (file : FileHandle) : (s.openFile file).Proper := by
  refine ⟨⟨?_, ?_⟩, proper.distinct⟩
  · intro k f held
    exact List.mem_cons_of_mem _ (proper.known.handle k f held)
  · intro f closed
    exact List.mem_cons_of_mem _ (proper.known.closed f closed)

theorem Known.spare (known : s.Known) (new : file ∉ s.opened) : (s.openFile file).Spare file where
  opened := List.mem_cons_self
  fresh closed := new (known.closed file closed)
  free k held := new (known.handle k file held)

theorem Spare.openFile (spare : s.Spare file) : (s.openFile other).Spare file where
  opened := List.mem_cons_of_mem _ spare.opened
  fresh := spare.fresh
  free := spare.free

theorem Spare.setHandle (spare : s.Spare other) (ne : other ≠ file) :
    (s.setHandle k (some file)).Spare other where
  opened := spare.opened
  fresh := spare.fresh
  free l held := by
    by_cases same : l = k
    · subst same
      rw [setHandle_self] at held
      exact ne (Option.some.inj held).symm
    · rw [setHandle_of_ne same] at held
      exact spare.free l held

/-- Two opened files are spare together. -/
theorem spare_both {acc : Option FileHandle} (new : file ∉ s.opened)
    (pwm : (s.openFile file).Spare file) (spare : ∀ file, acc = some file → s.Spare file) :
    (∀ e ∈ both acc (some file), (s.openFile file).Spare e.2) ∧
      ((both acc (some file)).map Prod.snd).Nodup := by
  cases acc with
  | none =>
    refine ⟨?_, by simp [both]⟩
    intro e inside
    obtain rfl : e = (.pwm, file) := by simpa [both] using inside
    exact pwm
  | some first =>
    have before : s.Spare first := spare first rfl
    have ne : first ≠ file := fun same => new (same ▸ before.opened)
    refine ⟨?_, by simp [both, ne]⟩
    intro e inside
    obtain rfl | rfl : e = (.acc, first) ∨ e = (.pwm, file) := by simpa [both] using inside
    · exact before.openFile
    · exact pwm

theorem handle_of_setHandle_some (held : (s.setHandle k (some file)).handle l = some other) :
    (l = k ∧ other = file) ∨ (l ≠ k ∧ s.handle l = some other) := by
  by_cases same : l = k
  · subst same
    rw [setHandle_self] at held
    exact .inl ⟨rfl, (Option.some.inj held).symm⟩
  · rw [setHandle_of_ne same] at held
    exact .inr ⟨same, held⟩

theorem Proper.keep (proper : s.Proper) (spare : s.Spare file) (k : DataFile) :
    (s.setHandle k (some file)).Proper := by
  refine ⟨⟨?_, proper.known.closed⟩, ?_⟩
  · intro l f held
    cases handle_of_setHandle_some held with
    | inl new =>
      obtain ⟨_, rfl⟩ := new
      exact spare.opened
    | inr old => exact proper.known.handle l f old.2
  · intro l l' f held held'
    rcases handle_of_setHandle_some held with ⟨rfl, rfl⟩ | ⟨_, old⟩
    · rcases handle_of_setHandle_some held' with ⟨rfl, _⟩ | ⟨_, old⟩
      · rfl
      · exact absurd old (spare.free l')
    · rcases handle_of_setHandle_some held' with ⟨rfl, rfl⟩ | ⟨_, old'⟩
      · exact absurd old (spare.free l)
      · exact proper.distinct l l' f old old'

end Calls

/-! ### The invariant -/

/-- The handles as the user's thread knows them. -/
def View (s : DataFiles) : Point → Prop
  | .gotAcc acc => acc = s.handle .acc
  | .closing files => files = both (s.handle .acc) (s.handle .pwm)
  | .closed k files => ∃ file, (k, file) :: files = both (s.handle .acc) (s.handle .pwm)
  | .openedAcc acc => ∀ file, acc = some file → s.Spare file
  | .keeping files => (∀ e ∈ files, s.Spare e.2) ∧ (files.map Prod.snd).Nodup
  | _ => True

/-- The thread a point belongs to. -/
def Point.Of : Point → Thread → Prop
  | .free, i | .tested _, i | .taken _, i | .logged _, i => i = .parser
  | _, i => i = .ui

/-- The file that is written to from this point. -/
def Point.target : Point → Option FileHandle
  | .taken target | .logged target => target
  | _ => none

structure FileInv (ts : Thread → Option (Job × Point)) (_ : Thread → Option Job)
    (s : DataFiles) : Prop where
  thread : ∀ i j t, ts i = some (j, t) → t.Of i
  proper : s.Proper
  /-- Only the user's thread has the handle of a closed file, just before it clears it. -/
  fresh : ∀ k file, s.handle k = some file → file ∈ s.closed →
    ∃ j files, ts .ui = some (j, .closed k files)
  view : ∀ j t, ts .ui = some (j, t) → s.View t
  target : ∀ j t file, ts .parser = some (j, t) → t.target = some file → file ∉ s.closed

namespace FileInv

variable {ts : Thread → Option (Job × Point)} {last : Thread → Option Job} {s u : DataFiles}
variable {j : Job} {t t' : Point} {k : DataFile} {file : FileHandle}

/-- Before and after it closes files, the user's thread has no handle of a closed file. -/
theorem open_of (inv : FileInv ts last s) (state : ts .ui = some (j, t))
    (point : ∀ files, t ≠ .closed k files) (held : s.handle k = some file) : file ∉ s.closed := by
  intro closed
  obtain ⟨j', files, now⟩ := inv.fresh k file held closed
  obtain ⟨rfl, rfl⟩ : j = j' ∧ t = .closed k files := by
    simpa using state.symm.trans now
  exact point files rfl

/-- A call of the parser changes no file. -/
theorem parser_step (inv : FileInv ts last s) (of : t'.Of .parser)
    (target : ∀ file, t'.target = some file → file ∉ s.closed) :
    FileInv (Function.update ts .parser (some (j, t'))) last s where
  thread := active_update of fun i j u _ state => inv.thread i j u state
  proper := inv.proper
  fresh k file held closed := by
    rw [Function.update_of_ne (by decide)]
    exact inv.fresh k file held closed
  view j u state := by
    rw [Function.update_of_ne (by decide)] at state
    exact inv.view j u state
  target j' u file state := by
    rw [Function.update_self] at state
    cases state
    exact target file

/-- A call of the user's thread, where it closes no file the parser is to write to. -/
theorem ui_step (inv : FileInv ts last s) (of : t'.Of .ui) (proper : u.Proper)
    (fresh : ∀ k file, u.handle k = some file → file ∈ u.closed → ∃ files, t' = .closed k files)
    (view : u.View t')
    (target : ∀ j t file, ts .parser = some (j, t) → t.target = some file → file ∉ u.closed) :
    FileInv (Function.update ts .ui (some (j, t'))) last u where
  thread := active_update of fun i j u _ state => inv.thread i j u state
  proper := proper
  fresh k file held closed := by
    obtain ⟨files, rfl⟩ := fresh k file held closed
    rw [Function.update_self]
    exact ⟨j, files, rfl⟩
  view j' v state := by
    rw [Function.update_self] at state
    cases state
    exact view
  target j v file state := by
    rw [Function.update_of_ne (by decide)] at state
    exact target j v file state

/-- A call of the user's thread that leaves the streams as they are. -/
theorem ui_quiet (inv : FileInv ts last s) (state : ts .ui = some (j, t))
    (point : ∀ k files, t ≠ .closed k files) (of : t'.Of .ui) (view : s.View t') :
    FileInv (Function.update ts .ui (some (j, t'))) last s := by
  refine inv.ui_step of inv.proper ?_ view inv.target
  intro k file held closed
  exact absurd closed (inv.open_of state (point k) held)

/-- The user's thread closes a file that the parser is not about to write to. -/
theorem ui_close {files : List (DataFile × FileHandle)} (inv : FileInv ts last s)
    (state : ts .ui = some (j, .closing ((k, file) :: files)))
    (unused : ∀ j' t, ts .parser = some (j', t) → t.target ≠ some file) :
    FileInv (Function.update ts .ui (some (j, .closed k files))) last (s.closeFile file) := by
  have view : (k, file) :: files = both (s.handle .acc) (s.handle .pwm) := inv.view j _ state
  have held : s.handle k = some file := handle_of_mem_both (view ▸ List.mem_cons_self)
  refine inv.ui_step rfl (inv.proper.closeFile held) ?_ ⟨file, view⟩ ?_
  · intro l f other closed
    cases List.mem_cons.1 closed with
    | inl here =>
      subst here
      obtain rfl := inv.proper.distinct l k f other held
      exact ⟨files, rfl⟩
    | inr before => exact absurd before (inv.open_of state (by simp) other)
  · intro j' t f parser target closed
    cases List.mem_cons.1 closed with
    | inl here =>
      subst here
      exact unused j' t parser target
    | inr before => exact inv.target j' t f parser target before

/-- The user's thread clears the handle of the file it closed. -/
theorem ui_forget {files : List (DataFile × FileHandle)} (inv : FileInv ts last s)
    (state : ts .ui = some (j, .closed k files)) :
    FileInv (Function.update ts .ui (some (j, .closing files))) last (s.setHandle k none) := by
  obtain ⟨file, view⟩ := inv.view j _ state
  refine inv.ui_step rfl (inv.proper.forget k) ?_ (both_setHandle_none view) inv.target
  intro l f held closed
  obtain ⟨other, held⟩ := handle_of_setHandle_none held
  obtain ⟨j', files', now⟩ := inv.fresh l f held closed
  have same := now.symm.trans state
  simp only [Option.some.injEq, Prod.mk.injEq, Point.closed.injEq] at same
  exact absurd same.2.1 other

/-- The user's thread opens a file. -/
theorem ui_open (inv : FileInv ts last s) (state : ts .ui = some (j, t))
    (point : ∀ k files, t ≠ .closed k files) (of : t'.Of .ui) (view : (s.openFile file).View t') :
    FileInv (Function.update ts .ui (some (j, t'))) last (s.openFile file) := by
  refine inv.ui_step of (inv.proper.openFile file) ?_ view inv.target
  intro k f held closed
  exact absurd closed (inv.open_of state (point k) held)

/-- The user's thread keeps the handle of a file it opened. -/
theorem ui_keep {files : List (DataFile × FileHandle)} (inv : FileInv ts last s)
    (state : ts .ui = some (j, .keeping ((k, file) :: files))) :
    FileInv (Function.update ts .ui (some (j, .keeping files))) last
      (s.setHandle k (some file)) := by
  obtain ⟨spare, nodup⟩ := inv.view j _ state
  have first : s.Spare file := spare (k, file) List.mem_cons_self
  obtain ⟨notLater, nodup⟩ := List.nodup_cons.1 nodup
  refine inv.ui_step rfl (inv.proper.keep first k) ?_ ⟨?_, nodup⟩ inv.target
  · intro l f held closed
    cases handle_of_setHandle_some held with
    | inl new =>
      obtain ⟨_, rfl⟩ := new
      exact absurd closed first.fresh
    | inr old => exact absurd closed (inv.open_of state (by simp) old.2)
  · intro e later
    apply (spare e (List.mem_cons_of_mem _ later)).setHandle
    intro same
    have again : e.2 ∈ files.map Prod.snd := List.mem_map_of_mem later
    exact notLater (same ▸ again)

end FileInv

theorem res_nonempty (o : FileOp) : Nonempty (FileIo.Res o) := by
  cases o with
  | getFileHandle k | fopen k => exact ⟨(none : Option FileHandle)⟩
  | hasFileHandle k => exact ⟨false⟩
  | dataPath => exact ⟨false⟩
  | _ => exact ⟨()⟩

/-- A program that goes on from a point with a file uses this file next. -/
theorem uses_of_follows {rest : Program FileIo Unit} {j : Job} {t : Point} {file : FileHandle}
    (follows : rest.Follows Handling (fun u _ => u = lastPoint j) t)
    (target : t.target = some file) : ∃ o next, rest = .op o next ∧ Uses o file := by
  cases rest with
  | ret a =>
    obtain rfl : t = lastPoint j := follows
    cases j <;> cases target
  | op o next =>
    obtain ⟨r⟩ := res_nonempty o
    obtain ⟨u, permitted, _⟩ := follows r
    refine ⟨o, next, rfl, ?_⟩
    cases permitted with
    | log => exact target
    | flush => exact target
    | _ => cases target

/-- The parser's next call works on the file that its point is about. -/
theorem writing_of_target {p : Files} {ts : Thread → Option (Job × Point)} {j : Job} {t : Point}
    {file : FileHandle} (tracks : Tracks Handling (fun j t => t = lastPoint j) p ts)
    (state : ts .parser = some (j, t)) (target : t.target = some file) : Writing p file := by
  obtain ⟨rest, active, follows⟩ := tracks.of_state state
  obtain ⟨o, next, rfl, uses⟩ := uses_of_follows follows target
  exact ⟨o, Pool.next?_of_op active, uses⟩

/-- No call breaks the invariant, if it is made with care. -/
theorem exec_preserves {p : Files} {ts : Thread → Option (Job × Point)} {i : Thread} {j : Job}
    {t t' : Point} {o : FileOp} {r : FileIo.Res o} {u : DataFiles}
    (tracks : Tracks Handling (fun j t => t = lastPoint j) p ts) (inv : FileInv ts p.last p.mem)
    (state : ts i = some (j, t)) (permitted : Handling t o r t') (answer : threads.sem o p.mem r u)
    (careful : Careful p (.exec i o)) :
    FileInv (Function.update ts i (some (j, t'))) p.last u := by
  obtain ⟨ready, answer⟩ := answer
  have of : t.Of i := inv.thread i j t state
  cases permitted with
  | @test k isSet =>
    obtain rfl : i = .parser := of
    obtain ⟨_, rfl⟩ := answer
    cases isSet with
    | false => exact inv.parser_step rfl fun file target => nomatch target
    | true => exact inv.parser_step rfl fun file target => nomatch target
  | @take k target =>
    obtain rfl : i = .parser := of
    obtain ⟨rfl, rfl⟩ := answer
    exact inv.parser_step rfl careful
  | @log target =>
    obtain rfl : i = .parser := of
    obtain rfl : u = p.mem := answer
    exact inv.parser_step rfl fun file => inv.target j (.taken target) file state
  | flush =>
    obtain rfl : i = .parser := of
    obtain rfl : u = p.mem := answer
    exact inv.parser_step rfl fun file target => nomatch target
  | getAcc =>
    obtain rfl : i = .ui := of
    obtain ⟨rfl, rfl⟩ := answer
    exact inv.ui_quiet state (by simp) rfl rfl
  | @getPwm acc pwm =>
    obtain rfl : i = .ui := of
    obtain ⟨rfl, rfl⟩ := answer
    obtain rfl : acc = p.mem.handle .acc := inv.view j _ state
    exact inv.ui_quiet state (by simp) rfl rfl
  | @close k file files =>
    obtain rfl : i = .ui := of
    obtain rfl : u = p.mem.closeFile file := answer
    refine inv.ui_close state ?_
    intro j' t parser target
    exact careful (writing_of_target tracks parser target)
  | @forget k files =>
    obtain rfl : i = .ui := of
    obtain rfl : u = p.mem.setHandle k none := answer
    exact inv.ui_forget state
  | crtl =>
    obtain rfl : i = .ui := of
    obtain rfl : u = p.mem := answer
    exact inv.ui_quiet state (by simp) rfl trivial
  | @ask isReady =>
    obtain rfl : i = .ui := of
    obtain ⟨_, rfl⟩ := answer
    cases isReady with
    | false => exact inv.ui_quiet state (by simp) rfl trivial
    | true => exact inv.ui_quiet state (by simp) rfl trivial
  | openAcc =>
    obtain rfl : i = .ui := of
    obtain ⟨file, new, rfl, rfl⟩ := answer
    refine inv.ui_open state (by simp) rfl ?_
    intro f same
    cases same
    exact inv.proper.known.spare new
  | @openPwm acc =>
    obtain rfl : i = .ui := of
    obtain ⟨file, new, rfl, rfl⟩ := answer
    have view : ∀ file, acc = some file → p.mem.Spare file := inv.view j _ state
    exact inv.ui_open state (by simp) rfl (spare_both new (inv.proper.known.spare new) view)
  | @keep k file files =>
    obtain rfl : i = .ui := of
    obtain rfl : u = p.mem.setHandle k (some file) := answer
    exact inv.ui_keep state
  | data =>
    obtain rfl : i = .ui := of
    obtain rfl : u = p.mem := answer
    exact inv.ui_quiet state (by simp) rfl trivial

theorem firstPoint_switchMode (mode : UInt8) : firstPoint (.switchMode mode) = .asking ∨
    firstPoint (.switchMode mode) = .switching ∨ firstPoint (.switchMode mode) = .done := by
  simp only [firstPoint]
  split
  · exact .inl rfl
  · split
    · exact .inr (.inl rfl)
    · exact .inr (.inr rfl)

/-- A thread that starts a job keeps the invariant. -/
theorem start_preserves {ts : Thread → Option (Job × Point)} {last : Thread → Option Job}
    {s : DataFiles} {i : Thread} {j : Job} (inv : FileInv ts last s) (idle : ts i = none)
    (may : threads.may i j) :
    FileInv (Function.update ts i (some (j, firstPoint j))) last s := by
  cases j with
  | parse out =>
    obtain rfl : i = .parser := by
      cases i with
      | ui => exact may.elim
      | parser => rfl
    exact inv.parser_step rfl fun file target => nomatch target
  | switchMode mode =>
    obtain rfl : i = .ui := by
      cases i with
      | ui => rfl
      | parser => exact may.elim
    have fresh (k : DataFile) (file : FileHandle) (held : s.handle k = some file) :
        file ∉ s.closed := by
      intro closed
      obtain ⟨j, files, state⟩ := inv.fresh k file held closed
      cases idle.symm.trans state
    rcases firstPoint_switchMode mode with first | first | first <;> rw [first]
    all_goals
      refine inv.ui_step rfl inv.proper ?_ trivial inv.target
      intro k file held closed
      exact absurd closed (fresh k file held)

theorem finish_preserves {ts : Thread → Option (Job × Point)} {last last' : Thread → Option Job}
    {s : DataFiles} {i : Thread} {j : Job} (inv : FileInv ts last s)
    (state : ts i = some (j, lastPoint j)) :
    FileInv (Function.update ts i none) last' s where
  thread := active_retire fun i j u _ state => inv.thread i j u state
  proper := inv.proper
  fresh k file held closed := by
    obtain ⟨j', files, now⟩ := inv.fresh k file held closed
    have ne : i ≠ .ui := by
      rintro rfl
      rw [state] at now
      cases j <;> cases now
    rw [Function.update_of_ne ne.symm]
    exact ⟨j', files, now⟩
  view j' u now := by
    by_cases same : i = .ui
    · subst same
      rw [Function.update_self] at now
      cases now
    · rw [Function.update_of_ne (Ne.symm same)] at now
      exact inv.view j' u now
  target j' u file now := by
    by_cases same : i = .parser
    · subst same
      rw [Function.update_self] at now
      cases now
    · rw [Function.update_of_ne (Ne.symm same)] at now
      exact inv.target j' u file now

theorem preserved :
    Preserved threads Handling firstPoint (fun j t => t = lastPoint j) Careful FileInv where
  follows may := code_follows may
  start _ inv idle may := start_preserves inv idle may
  exec tracks inv state _ permitted answer careful :=
    exec_preserves tracks inv state permitted answer careful
  finish _ inv state final := by
    subst final
    exact finish_preserves inv state

theorem fileInv_start : FileInv (fun _ => none) (fun _ => none) {} where
  thread _ _ _ state := nomatch state
  proper := ⟨⟨by simp, by simp⟩, by simp⟩
  fresh _ _ _ closed := by simp at closed
  view _ _ state := nomatch state
  target _ _ _ state := nomatch state

/-- The invariant holds at every moment of a careful run. -/
theorem tracks_of_run {h : List (Label FileIo Thread Job × Files)} {p : Files}
    (run : Run (Restrict threads.Step Careful) (Pool.idle {}) h p) :
    ∃ ts, Tracks Handling (fun j t => t = lastPoint j) p ts ∧ FileInv ts p.last p.mem :=
  preserved.reaches (Tracks.idle ({} : DataFiles)) fileInv_start ⟨h, run⟩

/-! ### Careful runs -/

/-- Only the parser uses files, and its file is not closed. -/
theorem fresh_of_uses {ts : Thread → Option (Job × Point)} {last : Thread → Option Job}
    {s : DataFiles} {i : Thread} {j : Job} {t t' : Point} {o : FileOp} {r : FileIo.Res o}
    {file : FileHandle} (inv : FileInv ts last s) (state : ts i = some (j, t))
    (permitted : Handling t o r t') (uses : Uses o file) : file ∉ s.closed := by
  have of : t.Of i := inv.thread i j t state
  cases permitted with
  | log =>
    obtain rfl : i = .parser := of
    exact inv.target j _ file state uses
  | flush =>
    obtain rfl : i = .parser := of
    exact inv.target j _ file state uses
  | _ => cases uses

/-- In every run in which no file is closed that the parser has fetched and not yet flushed,
and no handle of a closed file is fetched to write to it, every write and every flush is on
a file that is not closed. -/
theorem not_closed_of_uses {h : List (Label FileIo Thread Job × Files)} {q : Files}
    (run : Run (Restrict threads.Step Careful) (Pool.idle {}) h q) {i : Thread} {o : FileOp}
    {u : Files} {h' : List (Label FileIo Thread Job × Files)} (moment : (.exec i o, u) :: h' <:+ h)
    {file : FileHandle} (uses : Uses o file) :
    file ∉ (stateAfter (Pool.idle {}) h').mem.closed := by
  have earlier := run.prefix_run moment
  cases earlier with
  | step before last =>
    rw [before.stateAfter_eq]
    obtain ⟨ts, tracks, inv⟩ := tracks_of_run before
    cases last.2 with
    | @exec _ j _ next r m active answer =>
      obtain ⟨t, state, follows⟩ := tracks.of_thread active
      obtain ⟨t', permitted, _⟩ := follows r
      exact fresh_of_uses inv state permitted uses

/-! ### Careless steps -/

/-- A call on an opened file can always be made. -/
theorem exists_step_of_uses {p : Files} {i : Thread} {o : FileOp} {file : FileHandle}
    (next : p.next? i = some o) (uses : Uses o file) : ∃ q, threads.Step p (.exec i o) q := by
  unfold Pool.next? at next
  split at next
  · next j o' rest active =>
    obtain rfl := Option.some.inj next
    cases o' with
    | log target data => exact ⟨_, .exec (r := ()) active ⟨true, rfl⟩⟩
    | fflush target => exact ⟨_, .exec (r := ()) active ⟨true, rfl⟩⟩
    | _ => cases uses
  · cases next

/-- After a careless step the parser needs no help to use a closed file. -/
theorem exists_use_of_careless {h : List (Label FileIo Thread Job × Files)} {p q : Files}
    {l : Label FileIo Thread Job} (run : Run (Restrict threads.Step Careful) (Pool.idle {}) h p)
    (step : threads.Step p l q) (careless : ¬ Careful p l) :
    ∃ o file u, threads.Step q (.exec .parser o) u ∧ Uses o file ∧ file ∈ q.mem.closed := by
  obtain ⟨ts, tracks, inv⟩ := tracks_of_run run
  cases step with
  | start idle may => exact absurd trivial careless
  | finish active => exact absurd trivial careless
  | @exec i j o next r m active answer =>
    obtain ⟨ready, answer⟩ := answer
    cases i with
    | ui =>
      cases o with
      | fclose file =>
        obtain rfl : m = p.mem.closeFile file := answer
        obtain ⟨o, next', uses⟩ := not_not.1 careless
        have still : (p.advance .ui j (next r) (p.mem.closeFile file)).next? .parser = some o :=
          next'
        obtain ⟨u, use⟩ := exists_step_of_uses still uses
        exact ⟨o, file, u, use, uses, List.mem_cons_self⟩
      | _ => exact absurd trivial careless
    | parser =>
      cases o with
      | getFileHandle k =>
        obtain ⟨rfl, rfl⟩ := answer
        obtain ⟨file, held, closed⟩ : ∃ file, p.mem.handle k = some file ∧ file ∈ p.mem.closed := by
          simpa [Careful] using careless
        obtain ⟨t, state, follows⟩ := tracks.of_thread active
        obtain ⟨t', permitted, rest⟩ := follows (p.mem.handle k)
        have target : t'.target = some file := by
          cases permitted with
          | take => exact held
          | getAcc => cases inv.thread _ _ _ state
          | getPwm => cases inv.thread _ _ _ state
        obtain ⟨o, next', code, uses⟩ := uses_of_follows rest target
        have now : (p.advance .parser j (next (p.mem.handle k)) p.mem).next? .parser = some o := by
          have thread : (p.advance .parser j (next (p.mem.handle k)) p.mem).thread .parser
              = some (j, .op o next') := by
            simp [Pool.advance, code]
          exact Pool.next?_of_op thread
        obtain ⟨u, use⟩ := exists_step_of_uses now uses
        exact ⟨o, file, u, use, uses, closed⟩
      | _ => exact absurd trivial careless

/-! ### Schedules -/

/-- Every call succeeds; `fopen` counts the streams. -/
def fileServer : Handler FileIo DataFiles
  | .getFileHandle k, s => (s.handle k, s)
  | .hasFileHandle k, s => ((s.handle k).isSome, s)
  | .updateFileHandle k handle, s => ((), s.setHandle k handle)
  | .dataPath, s => (true, s)
  | .fopen _, s => (some s.opened.length, s.openFile s.opened.length)
  | .fclose file, s => ((), s.closeFile file)
  | .log _ _, s => ((), s)
  | .fflush _, s => ((), s)
  | .devSwitchMode _, s => ((), s)

/-- The stream of a call of `fopen` is a new one. -/
def givesNew (p : Files) : Label FileIo Thread Job → Bool
  | .exec _ (.fopen _) => !p.mem.opened.contains p.mem.opened.length
  | _ => true

theorem fileServer_within (p : Files) (i : Thread) (o : FileOp)
    (new : givesNew p (.exec i o) = true) :
    threads.sem o p.mem (fileServer o p.mem).1 (fileServer o p.mem).2 := by
  refine ⟨true, ?_⟩
  cases o with
  | fopen k =>
    refine ⟨p.mem.opened.length, ?_, rfl, rfl⟩
    simpa [givesNew] using new
  | getFileHandle k => exact ⟨rfl, rfl⟩
  | hasFileHandle k => exact ⟨rfl, rfl⟩
  | dataPath => exact ⟨rfl, rfl⟩
  | _ => rfl

/-- To data mode, and a message with no samples up to the write. -/
def recordingSchedule : List (System.Move Thread Job) :=
  .start .ui (.switchMode lraUsbDataMode) :: List.replicate 6 (.go .ui) ++ [.finish .ui] ++
    [.start .parser (.parse { acc := some [] }), .go .parser, .go .parser]

/-- The parser writes, and the user goes back to control mode. -/
def carefulSchedule : List (System.Move Thread Job) :=
  recordingSchedule ++ [.go .parser, .go .parser, .finish .parser,
    .start .ui (.switchMode lraUsbCrtlMode)] ++ List.replicate 7 (.go .ui)

/-- The user closes the file before the parser writes. -/
def carelessSchedule : List (System.Move Thread Job) :=
  recordingSchedule ++ [.start .ui (.switchMode lraUsbCrtlMode)] ++ List.replicate 3 (.go .ui)

/-- Files are closed while the parser is idle, and none is closed when it fetches a handle. -/
def inTurns (p : Files) : Label FileIo Thread Job → Bool
  | .exec .ui (.fclose _) => (p.thread .parser).isNone
  | .exec .parser (.getFileHandle _) => p.mem.closed.isEmpty
  | _ => true

theorem careful_of_inTurns (p : Files) (l : Label FileIo Thread Job) (h : inTurns p l = true) :
    Careful p l := by
  cases l with
  | start | finish => trivial
  | exec i o =>
    cases i with
    | ui =>
      cases o with
      | fclose file =>
        intro ⟨o, next, _⟩
        have idle : p.thread .parser = none := by simpa [inTurns] using h
        simp [Pool.next?, idle] at next
      | _ => trivial
    | parser =>
      cases o with
      | getFileHandle k =>
        intro file _
        have empty : p.mem.closed = [] := by simpa [inTurns] using h
        simp [empty]
      | _ => trivial

instance (i : Thread) (j : Job) : Decidable (threads.may i j) := by
  cases i <;> cases j <;> first | exact isTrue trivial | exact isFalse id

/-- A session in which both files are closed at the end. -/
theorem not_closed_of_uses_session :
    ∃ h q, Run (Restrict threads.Step Careful) (Pool.idle {}) h q ∧ q.mem.closed = [1, 0] ∧
      ∀ i o u h', (Label.exec i o, u) :: h' <:+ h → ∀ file, Uses o file →
        file ∉ (stateAfter (Pool.idle {}) h').mem.closed := by
  have played : (threads.play fileServer (fun p l => givesNew p l && inTurns p l) carefulSchedule
      (Pool.idle {})).any (fun q => q.mem.closed == [1, 0]) = true := by
    decide +kernel
  obtain ⟨q, ⟨h, run⟩, check⟩ := System.exists_of_tested_play
    (fun p i o test => fileServer_within p i o (Bool.and_eq_true_iff.1 test).1)
    (fun p l test => careful_of_inTurns p l (Bool.and_eq_true_iff.1 test).2) (by decide) played
  refine ⟨h, q, run, beq_iff_eq.1 check, ?_⟩
  intro i o u h' moment file uses
  exact not_closed_of_uses run moment uses

/-- The parser's next call writes to a closed file. -/
def writesClosed (q : Files) : Bool :=
  match q.next? .parser with
  | some (.log (some file) _) => q.mem.closed.contains file
  | _ => false

/-- The user closes the file that the parser has fetched, and the parser writes to it. -/
theorem write_after_close :
    ∃ q o file u, threads.Reaches (Pool.idle {}) q ∧ threads.Step q (.exec .parser o) u ∧
      Uses o file ∧ file ∈ q.mem.closed := by
  have played : (threads.play fileServer givesNew carelessSchedule (Pool.idle {})).any
      writesClosed = true := by
    decide +kernel
  obtain ⟨q, reached, check⟩ := System.exists_of_tested_play fileServer_within
    (fun _ _ _ => trivial) (by decide) played
  unfold writesClosed at check
  split at check
  · next file data next =>
    have uses : Uses (.log (some file) data) file := rfl
    obtain ⟨u, use⟩ := exists_step_of_uses next uses
    exact ⟨q, _, file, u, reached, use, uses, by simpa using check⟩
  · cases check

end DataFiles

end Lra
