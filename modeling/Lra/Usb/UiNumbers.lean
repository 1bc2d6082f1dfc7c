import Lra.Usb.UiParser

/-!
# The numbers a user types

The commands `r`, `s`, `p` and `g` convert their answers to `int` and keep eight bits of each
before they look at the range. A command acts on the number that was typed unless these bits
make a valid number of one that is not.
-/

namespace Lra

open Effect Numeral

namespace UiParser

/-! ### What a part of a command leaves alone -/

/-- The data files and the pipe are as they were, and no call is forgotten. -/
def Kept (s t : UiState) : Prop :=
  s.calls.length ≤ t.calls.length ∧ t.files = s.files ∧ t.pipeName = s.pipeName

/-- A part that always returns, and has then made at least `n` calls. -/
def Makes {α : Type} (n : Nat) (x : Ui α) : Prop :=
  ∀ s, ∃ a t, x s = .ok a t ∧ s.calls.length + n ≤ t.calls.length

/-- A part that takes answers and does nothing else, or waits for more of them. -/
def Asks {α : Type} (x : Ui α) : Prop :=
  ∀ s, ∃ answers, (∃ a, x s = .ok a { s with answers }) ∨
    x s = .error .waiting { s with answers }

section Parts

variable {α β : Type} {n : Nat} {x : Ui α} {f : α → Ui β}

theorem Kept.refl (s : UiState) : Kept s s := ⟨Nat.le_refl _, rfl, rfl⟩

theorem Kept.trans (s t u : UiState) (first : Kept s t) (rest : Kept t u) : Kept s u :=
  ⟨Nat.le_trans first.1 rest.1, rest.2.1.trans first.2.1, rest.2.2.trans first.2.2⟩

theorem makes_pure (a : α) : Makes 0 (pure a : Ui α) := fun s => ⟨a, s, rfl, Nat.le_refl _⟩

theorem makes_get : Makes 0 (get : Ui UiState) := fun s => ⟨s, s, rfl, Nat.le_refl _⟩

theorem makes_modify {g : UiState → UiState} (h : ∀ s, (g s).calls = s.calls) :
    Makes 0 (modify g) := fun s => ⟨⟨⟩, g s, rfl, Nat.le_of_eq (congrArg List.length (h s).symm)⟩

theorem makes_call (c : UiCall) : Makes 1 (call c) := fun s => ⟨⟨⟩, _, rfl, by simp⟩

theorem Makes.le {m : Nat} (hx : Makes n x) (le : m ≤ n) : Makes m x := by
  intro s
  obtain ⟨a, t, run, grown⟩ := hx s
  exact ⟨a, t, run, by omega⟩

/-- The calls of a part whose sequel returns. -/
theorem Makes.first (hx : Makes n x) (hf : ∀ a, Makes 0 (f a)) : Makes n (x >>= f) := by
  intro s
  obtain ⟨a, t, run, grown⟩ := hx s
  obtain ⟨b, u, rest, grown'⟩ := hf a t
  exact ⟨b, u, (bind_of_ok run).trans rest, by omega⟩

/-- The calls of the sequel of a part that returns. -/
theorem Makes.next {m : Nat} (hx : Makes m x) (hf : ∀ a, Makes n (f a)) : Makes n (x >>= f) := by
  intro s
  obtain ⟨a, t, run, grown⟩ := hx s
  obtain ⟨b, u, rest, grown'⟩ := hf a t
  exact ⟨b, u, (bind_of_ok run).trans rest, by omega⟩

theorem kept_pure (a : α) : Leads Kept (pure a : Ui α) := leads_pure Kept.refl a

theorem kept_bind (hx : Leads Kept x) (hf : ∀ a, Leads Kept (f a)) : Leads Kept (x >>= f) :=
  hx.bind Kept.trans hf

theorem kept_call (c : UiCall) : Leads Kept (call c) :=
  leads_modify fun s => by simp [Kept]

theorem asks_nextInput : Asks nextInput := by
  intro s
  cases answers : s.answers with
  | nil =>
      have waits : nextInput s = .error .waiting s := by rw [nextInput, answers]
      exact ⟨s.answers, .inr waits⟩
  | cons answer rest => exact ⟨rest, .inl ⟨answer, by rw [nextInput, answers]⟩⟩

theorem asks_nextNonEmpty : Asks nextNonEmpty := by
  intro s
  cases answers : s.answers.dropWhile String.isEmpty with
  | nil => exact ⟨[], .inr (by rw [nextNonEmpty, answers])⟩
  | cons answer rest => exact ⟨rest, .inl ⟨answer, by rw [nextNonEmpty, answers]⟩⟩

theorem Asks.kept (asks : Asks x) : Leads Kept x := by
  intro s
  obtain ⟨answers, ⟨a, run⟩ | run⟩ := asks s
  · rw [run]
    exact ⟨Nat.le_refl _, rfl, rfl⟩
  · rw [run]
    exact ⟨Nat.le_refl _, rfl, rfl⟩

theorem Asks.raises (asks : Asks x) : Raises (· = .waiting) x := by
  intro s e t stopped
  obtain ⟨answers, ⟨a, run⟩ | run⟩ := asks s
  · cases run.symm.trans stopped
  · cases run.symm.trans stopped
    rfl

theorem kept_nextInput : Leads Kept nextInput := asks_nextInput.kept

theorem kept_nextNonEmpty : Leads Kept nextNonEmpty := asks_nextNonEmpty.kept

theorem kept_convert (v : Except StdException α) : Leads Kept (convert v) := by
  cases v with
  | ok a => exact kept_pure a
  | error e => exact leads_throw Kept.refl _

/-- Whatever is thrown is caught. -/
theorem raises_tryAll (x : Ui α) : Raises (· = .waiting) (tryAll x) := by
  apply Raises.attempt
  intro s e t _ notCaught
  cases e with
  | thrown e => cases notCaught
  | waiting => rfl

theorem raises_nextInput : Raises (· = .waiting) nextInput := asks_nextInput.raises

theorem raises_nextNonEmpty : Raises (· = .waiting) nextNonEmpty := asks_nextNonEmpty.raises

end Parts

/-! ### The parts of the command `s` -/

section SwitchMode

variable (w : UiWorld)

theorem makes_keepDataFile (k : DataFile) (path : String) (tmp : Option FileHandle) :
    Makes 0 (keepDataFile k path tmp) := by
  cases tmp with
  | none => exact makes_pure ()
  | some file => exact makes_modify fun _ => rfl

theorem makes_openDataFile (k : DataFile) (path : String) : Makes 0 (openDataFile w k path) := by
  refine (makes_call _).next fun _ => ?_
  split
  · refine (makes_modify ?_).next fun _ => makes_pure _
    exact fun _ => rfl
  · exact makes_pure none

theorem makes_startPlot (accPath pwmPath : String) : Makes 0 (startPlot w accPath pwmPath) := by
  refine makes_get.next fun s => ?_
  dsimp only
  split
  · refine (makes_call _).next fun _ => ?_
    split
    · refine (makes_call _).next fun _ => ?_
      split
      · exact (makes_call _).next fun _ => makes_modify fun _ => rfl
      · exact makes_pure ()
    · exact makes_pure ()
  · exact makes_pure ()

theorem makes_closeDataFile (k : DataFile) (handle : Option FileHandle) :
    Makes 0 (closeDataFile k handle) := by
  cases handle with
  | none => exact makes_pure ()
  | some file => exact (makes_call _).next fun _ => makes_modify fun _ => rfl

theorem makes_stopData : Makes 0 stopData :=
  makes_get.next fun _ => makes_get.next fun _ =>
    (makes_closeDataFile _ _).next fun _ => makes_closeDataFile _ _

theorem makes_stopPlot : Makes 0 stopPlot := by
  refine makes_get.next fun s => ?_
  dsimp only
  split
  · exact (makes_call _).next fun _ => makes_modify fun _ => rfl
  · exact makes_pure ()

/-- After both names have been made. -/
theorem makes_record (accPath pwmPath : String) : Makes 0 (do
    let accTmp ← openDataFile w .acc accPath
    let pwmTmp ← openDataFile w .pwm pwmPath
    keepDataFile .acc accPath accTmp
    keepDataFile .pwm pwmPath pwmTmp
    startPlot w accPath pwmPath
    return true) :=
  (makes_openDataFile w _ _).next fun _ => (makes_openDataFile w _ _).next fun _ =>
    (makes_keepDataFile _ _ _).next fun _ => (makes_keepDataFile _ _ _).next fun _ =>
      (makes_startPlot w _ _).next fun _ => makes_pure true

/-- Both names can be made. -/
def NamesFit : Prop := Rcws.IndicesFit w.entries .acc ∧ Rcws.IndicesFit w.entries .pwm

/-- Only the search for a name throws, and nothing has been opened then. -/
theorem startData_of_unfit (ready : w.dataPathReady = true) (unfit : ¬ NamesFit w) (s : UiState) :
    startData w s = .error (.thrown .outOfRange) { s with calls := s.calls ++ [.dataPath] } := by
  have called : call .dataPath s = .ok () { s with calls := s.calls ++ [.dataPath] } := rfl
  rw [startData, bind_of_ok called, if_pos ready]
  rcases Rcws.getNextFileName_cases w.entries .acc with ⟨fit, name, found⟩ | ⟨_, thrown⟩
  · rcases Rcws.getNextFileName_cases w.entries .pwm with ⟨fit', _⟩ | ⟨_, thrown⟩
    · exact absurd ⟨fit, fit'⟩ unfit
    · rw [found, thrown]
      rfl
  · rw [thrown]
    rfl

theorem makes_startData (fit : w.dataPathReady = true → NamesFit w) : Makes 1 (startData w) := by
  refine (makes_call _).first fun _ => ?_
  split
  · next ready =>
      have fit := fit ready
      rcases Rcws.getNextFileName_cases w.entries .acc with ⟨_, acc, foundAcc⟩ | ⟨unfit, _⟩
      · rcases Rcws.getNextFileName_cases w.entries .pwm with ⟨_, pwm, foundPwm⟩ | ⟨unfit, _⟩
        · rw [foundAcc, foundPwm]
          exact (makes_pure acc).next fun _ => (makes_pure pwm).next fun _ => makes_record w _ _
        · exact absurd fit.2 unfit
      · exact absurd fit.1 unfit
  · exact makes_pure false

/-- Where no name is missing, a known mode is set. -/
theorem makes_setMode {mode : UInt8}
    (fit : mode = lraUsbDataMode → w.dataPathReady = true → NamesFit w) :
    Makes 1 (setMode w mode) := by
  unfold setMode
  split
  · next data =>
      refine (makes_startData w (fit data)).first fun ready => ?_
      split
      · exact (makes_call _).le (Nat.zero_le _)
      · exact makes_pure ()
  · exact makes_stopData.next fun _ => (makes_call _).first fun _ => makes_stopPlot

theorem setMode_of_unfit (ready : w.dataPathReady = true) (unfit : ¬ NamesFit w) (s : UiState) :
    setMode w lraUsbDataMode s =
      .error (.thrown .outOfRange) { s with calls := s.calls ++ [.dataPath] } := by
  rw [setMode, if_pos rfl]
  exact bind_of_error (startData_of_unfit w ready unfit s)

end SwitchMode

/-! ### The other commands -/

section Others

variable (w : UiWorld) (stof : String → Except StdException UInt32)

theorem kept_chooseRcws (index : Nat) : Leads Kept (chooseRcws w index) :=
  kept_bind (kept_call _) fun _ => leads_modify fun _ => Kept.refl _

theorem kept_openRcws : Leads Kept (openRcws w) := by
  refine kept_bind (Leads.attempt (kept_bind (kept_call _) fun _ => ?_)) fun _ => kept_pure ()
  split
  · exact kept_pure ()
  · exact leads_throw Kept.refl _

theorem kept_caseO : Leads Kept (caseO w) := by
  unfold caseO
  split
  · exact kept_pure ()
  · exact kept_bind (kept_chooseRcws w _) fun _ => kept_openRcws w
  · refine kept_bind kept_nextInput fun _ => kept_bind (Leads.attempt ?_) fun _ => kept_openRcws w
    refine kept_bind (kept_convert _) fun _ => ?_
    dsimp only
    split
    · exact kept_chooseRcws w _
    · exact kept_pure ()

theorem kept_caseR : Leads Kept caseR := by
  refine kept_bind kept_nextInput fun _ => kept_bind (Leads.attempt ?_) fun _ => kept_pure ()
  refine kept_bind (kept_convert _) fun _ => ?_
  dsimp only
  split
  · exact kept_call _
  · exact kept_pure ()

theorem asks_getFloats : Asks (getFloats stof) := by
  intro s
  cases read : readFloats stof s.answers [] with
  | none => exact ⟨[], .inr (by rw [getFloats, read])⟩
  | some got => exact ⟨got.2, .inl ⟨got.1, by rw [getFloats, read]⟩⟩

theorem kept_pwmManual : Leads Kept (pwmManual stof) :=
  kept_bind (asks_getFloats stof).kept fun _ => kept_call _

theorem kept_getInt : Leads Kept (getInt stof) :=
  kept_bind kept_nextInput fun _ => kept_bind (kept_convert _) fun _ => kept_pure _

theorem kept_chooseCsv : Leads Kept (chooseCsv w stof) := by
  unfold chooseCsv
  dsimp only
  split
  · exact kept_pure ()
  · refine kept_bind (kept_getInt stof) fun _ => ?_
    split
    · exact kept_pure ()
    · split
      · exact kept_bind kept_nextInput fun _ => kept_bind (kept_call _) fun _ => kept_call _
      · exact kept_pure ()

/-- After it was asked whether the thread is running. -/
theorem kept_pwmFile_rest : Leads Kept (do
    if w.pwmCmdThreadRunning then
      let sCancel ← nextInput
      if isYes sCancel then
        call .pwmCmdThreadClose
        call .cleanPwmCmdQueue
      else pure ()
    else
      call .pwmCmdPath
      if w.pwmCmdPathReady then chooseCsv w stof else pure ()) := by
  split
  · refine kept_bind kept_nextInput fun _ => ?_
    split
    · exact kept_bind (kept_call _) fun _ => kept_call _
    · exact kept_pure ()
  · refine kept_bind (kept_call _) fun _ => ?_
    split
    · exact kept_chooseCsv w stof
    · exact kept_pure ()

theorem kept_pwmFile : Leads Kept (pwmFile w stof) :=
  kept_bind (kept_call _) fun _ => kept_pwmFile_rest w stof

theorem kept_runPwm (mode : UInt8) : Leads Kept (runPwm w stof mode) := by
  unfold runPwm
  split
  · exact kept_pwmManual stof
  · exact kept_pwmFile w stof

theorem kept_caseP : Leads Kept (caseP w stof) := by
  refine kept_bind kept_nextInput fun _ => kept_bind (Leads.attempt ?_) fun _ => kept_pure ()
  refine kept_bind (kept_convert _) fun _ => ?_
  dsimp only
  split
  · exact kept_pure ()
  · exact kept_runPwm w stof _

theorem kept_getIaddr : Leads Kept getIaddr :=
  kept_bind kept_nextNonEmpty fun _ =>
    Leads.attempt (kept_bind (kept_convert _) fun _ => kept_pure _)

theorem kept_caseG : Leads Kept caseG := by
  refine kept_bind kept_nextNonEmpty fun _ => kept_bind (Leads.attempt ?_) fun devIndex => ?_
  · refine kept_bind (kept_convert _) fun _ => ?_
    dsimp only
    split
    · exact leads_throw Kept.refl _
    · exact kept_pure _
  · cases devIndex with
    | none => exact kept_pure ()
    | some devIndex =>
        refine kept_bind kept_getIaddr fun iaddrBegin => ?_
        cases iaddrBegin with
        | none => exact kept_pure ()
        | some iaddrBegin =>
            refine kept_bind kept_getIaddr fun iaddrEnd => ?_
            cases iaddrEnd with
            | none => exact kept_pure ()
            | some iaddrEnd => exact kept_call _

end Others

/-! ### Requests -/

/-- A command with the numbers typed for it. -/
inductive Request where
  | reset (devIndex : Int)
  | switchMode (mode : Int)
  | pwm (mode : Int)
  | getReg (devIndex iaddrBegin iaddrEnd : Int)
  deriving DecidableEq

namespace Request

def letter : Request → Char
  | reset _ => 'r'
  | switchMode _ => 's'
  | pwm _ => 'p'
  | getReg _ _ _ => 'g'

def numbers : Request → List Int
  | reset n => [n]
  | switchMode n => [n]
  | pwm n => [n]
  | getReg n b e => [n, b, e]

/-- The numbers are in the ranges of the command. -/
def Valid : Request → Prop
  | reset n => 0 ≤ n ∧ n ≤ 6
  | switchMode n => n = 2 ∨ n = 3
  | pwm n => n = 0 ∨ n = 1
  | getReg n b e => (0 ≤ n ∧ n ≤ 6) ∧ (0 ≤ b ∧ b ≤ 255) ∧ 0 ≤ e ∧ e ≤ 255

instance : DecidablePred Valid
  | reset n => inferInstanceAs (Decidable (0 ≤ n ∧ n ≤ 6))
  | switchMode n => inferInstanceAs (Decidable (n = 2 ∨ n = 3))
  | pwm n => inferInstanceAs (Decidable (n = 0 ∨ n = 1))
  | getReg n b e =>
    inferInstanceAs (Decidable ((0 ≤ n ∧ n ≤ 6) ∧ (0 ≤ b ∧ b ≤ 255) ∧ 0 ≤ e ∧ e ≤ 255))

/-- What is left of the numbers in eight bits. -/
def narrow : Request → Request
  | reset n => reset (n % 256)
  | switchMode n => switchMode (n % 256)
  | pwm n => pwm (n % 256)
  | getReg n b e => getReg (n % 256) (b % 256) (e % 256)

/-- The answers `stoi` converts to the numbers, and those that follow. -/
inductive Typed : Request → List String → List String → Prop where
  | reset {answer n rest} : stoi answer 10 = .ok n → Typed (.reset n) (answer :: rest) rest
  | switchMode {answer n rest} : stoi answer 10 = .ok n →
      Typed (.switchMode n) (answer :: rest) rest
  | pwm {answer n rest} : stoi answer 10 = .ok n → Typed (.pwm n) (answer :: rest) rest
  | getReg {dev first last n b e rest} : stoi dev 10 = .ok n → stoi first 0 = .ok b →
      stoi last 0 = .ok e → Typed (.getReg n b e) (dev :: first :: last :: rest) rest

/-- What a command does with its numbers: the frame, or the branch. -/
def perform (w : UiWorld) (stof : String → Except StdException UInt32) : Request → Ui Unit
  | reset n => call (.devReset (.ofInt n))
  | switchMode n => do
    let _ ← tryInvalidArgument (setMode w (.ofInt n))
  | pwm n => do
    let _ ← tryAll (runPwm w stof (.ofInt n))
  | getReg n b e => call (.devSend .getReg [.ofInt n, .ofInt b, .ofInt e])

theorem toNat_ofInt (n : Int) : ((UInt8.ofInt n).toNat : Int) = n % 256 := by
  have small : (n % 256).toNat < 256 := by omega
  change ((UInt8.ofNat (n % 256).toNat).toNat : Int) = _
  rw [UInt8.toNat_ofNat_of_lt' small]
  omega

theorem ofInt_lt_iff (n : Int) : UInt8.ofInt n < lraDeviceInvalid ↔ 0 ≤ n % 256 ∧ n % 256 ≤ 6 := by
  have value := toNat_ofInt n
  have bound : lraDeviceInvalid.toNat = 7 := rfl
  rw [UInt8.lt_iff_toNat_lt, bound]
  omega

theorem ofInt_eq_iff (n : Int) (k : UInt8) : UInt8.ofInt n = k ↔ n % 256 = k.toNat := by
  have value := toNat_ofInt n
  rw [← UInt8.toNat_inj]
  omega

theorem ofInt_ne_iff (n : Int) (k l : UInt8) :
    UInt8.ofInt n ≠ k ∧ UInt8.ofInt n ≠ l ↔ ¬ (n % 256 = k.toNat ∨ n % 256 = l.toNat) := by
  rw [ne_eq, ne_eq, ofInt_eq_iff, ofInt_eq_iff, not_or]

end Request

/-- `Parse` acts on exactly the numbers typed: those in range are the bytes it works with,
and with any other it does nothing but read answers. -/
structure ActsOn (w : UiWorld) (stof : String → Except StdException UInt32) (req : Request)
    (input : String) (s : UiState) (rest : List String) : Prop where
  valid : req.Valid → (∀ n ∈ req.numbers, ((UInt8.ofInt n).toNat : Int) = n) ∧
    parse w stof input s = req.perform w stof { s with answers := rest }
  invalid : ¬ req.Valid → ∃ answers, parse w stof input s = .ok () { s with answers }

section Parse

variable (w : UiWorld) (stof : String → Except StdException UInt32) {req : Request}
  {input : String} {s t : UiState} {rest : List String} {answer : String}

theorem nextInput_cons (h : s.answers = answer :: rest) :
    nextInput s = .ok answer { s with answers := rest } := by
  rw [nextInput, h]

theorem nextNonEmpty_cons (h : s.answers = answer :: rest) (notEmpty : answer.isEmpty = false) :
    nextNonEmpty s = .ok answer { s with answers := rest } := by
  rw [nextNonEmpty, h, List.dropWhile_cons, notEmpty]
  rfl

theorem isEmpty_of_stoi {n : Int} {base : Nat} (typed : stoi answer base = .ok n) :
    answer.isEmpty = false := by
  by_contra empty
  obtain rfl : answer = "" := by simpa using empty
  rw [stoi_empty] at typed
  cases typed

/-- A letter that begins neither of the two words. -/
theorem parse_letter {c : Char} (letter : input.toList.head? = some c)
    (notExit : c ≠ 'e') (notClear : c ≠ 'c') : parse w stof input = command w stof (some c) := by
  unfold parse
  rw [if_neg, if_neg, letter]
  · rintro rfl
    exact notClear (Option.some.inj letter).symm
  · rintro rfl
    exact notExit (Option.some.inj letter).symm

theorem parse_request (letter : input.toList.head? = some req.letter) :
    parse w stof input = command w stof (some req.letter) := by
  apply parse_letter w stof letter
  · cases req <;> simp [Request.letter]
  · cases req <;> simp [Request.letter]

/-- An answer whose number is looked at in a `try`. -/
theorem try_convert {α β : Type} {n : Int} {base : Nat} {x : Int → Ui α} {caught : UiStop → Bool}
    {f : Option α → Ui β} (typed : stoi answer base = .ok n) :
    (attempt caught (convert (stoi answer base) >>= x) >>= f) s =
      (attempt caught (x n) >>= f) s := by
  rw [typed]
  rfl

/-- A part that returns needs no `try`. -/
theorem try_of_ok {α β : Type} {x : Ui α} {a : α} {caught : UiStop → Bool}
    {f : Option α → Ui β} (run : x s = .ok a t) :
    (attempt caught x >>= f) s = f (some a) t :=
  bind_of_ok (attempt_of_ok run)

theorem caseR_typed {n : Int} (answers : s.answers = answer :: rest)
    (typed : stoi answer 10 = .ok n) :
    caseR s =
      if 0 ≤ n % 256 ∧ n % 256 ≤ 6 then call (.devReset (.ofInt n)) { s with answers := rest }
      else .ok () { s with answers := rest } := by
  rw [caseR, bind_of_ok (nextInput_cons answers)]
  refine (try_convert typed).trans ?_
  by_cases inRange : 0 ≤ n % 256 ∧ n % 256 ≤ 6
  · rw [if_pos inRange, if_pos ((Request.ofInt_lt_iff n).mpr inRange)]
    exact try_of_ok rfl
  · rw [if_neg inRange, if_neg (mt (Request.ofInt_lt_iff n).mp inRange)]
    exact try_of_ok rfl

theorem caseS_typed {n : Int} (answers : s.answers = answer :: rest)
    (typed : stoi answer 10 = .ok n) :
    caseS w s =
      if n % 256 = 2 ∨ n % 256 = 3 then
        Request.perform w stof (.switchMode n) { s with answers := rest }
      else .ok () { s with answers := rest } := by
  have other : UInt8.ofInt n ≠ lraUsbCrtlMode ∧ UInt8.ofInt n ≠ lraUsbDataMode ↔
      ¬ (n % 256 = 2 ∨ n % 256 = 3) := Request.ofInt_ne_iff n _ _
  rw [caseS, bind_of_ok (nextInput_cons answers)]
  refine (try_convert typed).trans ?_
  by_cases known : n % 256 = 2 ∨ n % 256 = 3
  · rw [if_pos known, if_neg (mt other.mp (not_not_intro known))]
    rfl
  · rw [if_neg known, if_pos (other.mpr known)]
    exact try_of_ok rfl

theorem caseP_typed {n : Int} (answers : s.answers = answer :: rest)
    (typed : stoi answer 10 = .ok n) :
    caseP w stof s =
      if n % 256 = 0 ∨ n % 256 = 1 then
        Request.perform w stof (.pwm n) { s with answers := rest }
      else .ok () { s with answers := rest } := by
  have other : UInt8.ofInt n ≠ rcwsPwmManualMode ∧ UInt8.ofInt n ≠ rcwsPwmFileMode ↔
      ¬ (n % 256 = 0 ∨ n % 256 = 1) := Request.ofInt_ne_iff n _ _
  rw [caseP, bind_of_ok (nextInput_cons answers)]
  refine (try_convert typed).trans ?_
  by_cases known : n % 256 = 0 ∨ n % 256 = 1
  · rw [if_pos known, if_neg (mt other.mp (not_not_intro known))]
    rfl
  · rw [if_neg known, if_pos (other.mpr known)]
    exact try_of_ok rfl

theorem getIaddr_typed {n : Int} (answers : s.answers = answer :: rest)
    (typed : stoi answer 0 = .ok n) :
    getIaddr s = .ok (some (.ofInt n)) { s with answers := rest } := by
  rw [getIaddr, bind_of_ok (nextNonEmpty_cons answers (isEmpty_of_stoi typed)), typed]
  rfl

theorem caseG_typed {n b e : Int} {dev first last : String}
    (answers : s.answers = dev :: first :: last :: rest) (typed : stoi dev 10 = .ok n)
    (typedFirst : stoi first 0 = .ok b) (typedLast : stoi last 0 = .ok e) :
    caseG s =
      if 0 ≤ n % 256 ∧ n % 256 ≤ 6 then
        call (.devSend .getReg [.ofInt n, .ofInt b, .ofInt e]) { s with answers := rest }
      else .ok () { s with answers := first :: last :: rest } := by
  rw [caseG, bind_of_ok (nextNonEmpty_cons answers (isEmpty_of_stoi typed))]
  refine (try_convert typed).trans ?_
  by_cases inRange : 0 ≤ n % 256 ∧ n % 256 ≤ 6
  · have small : ¬ UInt8.ofInt n ≥ lraDeviceInvalid :=
      UInt8.not_le.mpr ((Request.ofInt_lt_iff n).mpr inRange)
    rw [if_pos inRange, if_neg small]
    refine (try_of_ok rfl).trans ?_
    refine (bind_of_ok (getIaddr_typed rfl typedFirst)).trans ?_
    exact bind_of_ok (getIaddr_typed rfl typedLast)
  · have large : UInt8.ofInt n ≥ lraDeviceInvalid :=
      UInt8.not_lt.mp (mt (Request.ofInt_lt_iff n).mp inRange)
    rw [if_neg inRange, if_pos large]
    have stopped (t : UiState) :
        tryAll (throw (.thrown .runtimeError) : Ui UInt8) t = .ok none t := rfl
    exact bind_of_ok (stopped _)

/-- The command acts on what the narrowed numbers say. -/
theorem parse_typed (letter : input.toList.head? = some req.letter)
    (typed : req.Typed s.answers rest) :
    ∃ answers, parse w stof input s =
      if req.narrow.Valid then req.perform w stof { s with answers := rest }
      else .ok () { s with answers } := by
  rw [parse_request w stof letter]
  generalize answered : s.answers = answers at typed
  cases typed with
  | reset typed => exact ⟨rest, caseR_typed answered typed⟩
  | switchMode typed => exact ⟨rest, caseS_typed w stof answered typed⟩
  | pwm typed => exact ⟨rest, caseP_typed w stof answered typed⟩
  | @getReg _ first last _ _ _ _ typed typedFirst typedLast =>
      refine ⟨first :: last :: rest, (caseG_typed answered typed typedFirst typedLast).trans ?_⟩
      refine if_congr ?_ rfl rfl
      simp only [Request.narrow, Request.Valid]
      omega

theorem ofInt_narrow (n : Int) : UInt8.ofInt (n % 256) = UInt8.ofInt n := by
  have narrowed := Request.toNat_ofInt (n % 256)
  have whole := Request.toNat_ofInt n
  apply UInt8.toNat_inj.mp
  omega

theorem perform_narrow : req.narrow.perform w stof = req.perform w stof := by
  cases req <;> simp only [Request.narrow, Request.perform, ofInt_narrow]

theorem narrow_number (valid : req.Valid) {n : Int} (member : n ∈ req.numbers) : n % 256 = n := by
  cases req with
  | reset | switchMode | pwm =>
      simp only [Request.Valid, Request.numbers, List.mem_singleton] at valid member
      omega
  | getReg =>
      simp only [Request.Valid, Request.numbers, List.mem_cons, List.not_mem_nil, or_false]
        at valid member
      omega

theorem narrow_eq (valid : req.Valid) : req.narrow = req := by
  have same : ∀ n ∈ req.numbers, n % 256 = n := fun n => narrow_number valid
  clear valid
  cases req <;> simpa [Request.narrow, Request.numbers] using same

/-! A command that is performed makes a call, or it waits or throws. -/

theorem call_calls (c : UiCall) (s : UiState) :
    s.calls.length < (left (call c s)).calls.length := by
  obtain ⟨a, t, run, grown⟩ := makes_call c s
  rw [run]
  exact grown

theorem pwmFile_calls (s : UiState) : s.calls.length < (left (pwmFile w stof s)).calls.length := by
  let t : UiState := { s with calls := s.calls ++ [.pwmCmdThreadRunning] }
  have called : call .pwmCmdThreadRunning s = .ok () t := rfl
  have counted : s.calls.length < t.calls.length := call_calls .pwmCmdThreadRunning s
  have rest := (kept_pwmFile_rest w stof t).1
  rw [pwmFile, bind_of_ok called]
  exact Nat.lt_of_lt_of_le counted rest

theorem pwmManual_calls (s : UiState) :
    (∃ t, pwmManual stof s = .error .waiting t) ∨
      s.calls.length < (left (pwmManual stof s)).calls.length := by
  cases read : readFloats stof s.answers [] with
  | none =>
      have waits : getFloats stof s = .error .waiting { s with answers := [] } := by
        rw [getFloats, read]
      exact .inl ⟨_, bind_of_error waits⟩
  | some got =>
      obtain ⟨fdata, answers⟩ := got
      have reads : getFloats stof s = .ok fdata { s with answers } := by
        rw [getFloats, read]
      have called := call_calls (.devPwmCmd (infoOf fdata)) { s with answers }
      rw [pwmManual, bind_of_ok reads]
      exact .inr called

theorem runPwm_calls (mode : UInt8) (s : UiState) :
    (∃ t, runPwm w stof mode s = .error .waiting t) ∨
      s.calls.length < (left (runPwm w stof mode s)).calls.length := by
  unfold runPwm
  split
  · exact pwmManual_calls stof s
  · exact .inr (pwmFile_calls w stof s)

theorem perform_calls (valid : req.Valid) :
    (∃ e t, req.perform w stof s = .error e t) ∨
      s.calls.length < (left (req.perform w stof s)).calls.length := by
  cases req with
  | reset n => exact .inr (call_calls _ s)
  | getReg n b e => exact .inr (call_calls _ s)
  | switchMode n =>
      by_cases fit : UInt8.ofInt n = lraUsbDataMode → w.dataPathReady = true → NamesFit w
      · obtain ⟨a, t, run, grown⟩ := makes_setMode w fit s
        have done : Request.perform w stof (.switchMode n) s = .ok () t := try_of_ok run
        rw [done]
        exact .inr grown
      · obtain ⟨data, unfit⟩ := Classical.not_imp.mp fit
        obtain ⟨ready, unfit⟩ := Classical.not_imp.mp unfit
        have thrown := setMode_of_unfit w ready unfit s
        rw [← data] at thrown
        exact .inl ⟨_, _, bind_of_error (attempt_of_error thrown)⟩
  | pwm n =>
      rcases runPwm_calls w stof (.ofInt n) s with ⟨t, waits⟩ | grown
      · exact .inl ⟨_, _, bind_of_error (attempt_of_error waits)⟩
      · cases run : runPwm w stof (.ofInt n) s with
        | ok a t =>
            rw [run] at grown
            have done : Request.perform w stof (.pwm n) s = .ok () t := try_of_ok run
            rw [done]
            exact .inr grown
        | error e t =>
            rw [run] at grown
            cases e with
            | waiting => exact .inl ⟨_, _, bind_of_error (attempt_of_error run)⟩
            | thrown e =>
                have done : Request.perform w stof (.pwm n) s = .ok () t :=
                  bind_of_ok (attempt_of_error run)
                rw [done]
                exact .inr grown

theorem perform_ne {answers : List String} (valid : req.Valid) :
    req.perform w stof s ≠ .ok () { s with answers } := by
  intro idle
  rcases perform_calls w stof (s := s) valid with ⟨e, t, stopped⟩ | grown
  · rw [stopped] at idle
    cases idle
  · rw [idle] at grown
    exact Nat.lt_irrefl _ grown

theorem actsOn_iff (letter : input.toList.head? = some req.letter)
    (typed : req.Typed s.answers rest) :
    ActsOn w stof req input s rest ↔ (req.narrow.Valid → req.Valid) := by
  obtain ⟨answers, parsed⟩ := parse_typed w stof letter typed
  constructor
  · intro acts narrowed
    by_contra outside
    obtain ⟨answers', idle⟩ := acts.invalid outside
    rw [parsed, if_pos narrowed, ← perform_narrow w stof] at idle
    exact perform_ne w stof narrowed idle
  · intro safe
    constructor
    · intro valid
      refine ⟨fun n member => ?_, parsed.trans (if_pos ((narrow_eq valid).symm ▸ valid))⟩
      rw [Request.toNat_ofInt, narrow_number valid member]
    · intro outside
      exact ⟨answers, parsed.trans (if_neg (mt safe outside))⟩

/-- No float is converted. -/
def noFloat : String → Except StdException UInt32 := fun _ => .error .invalidArgument

theorem actsOn_three : ActsOn {} noFloat (.reset 3) "r" { answers := ["3"] } [] :=
  (actsOn_iff {} noFloat rfl (.reset (by decide))).mpr fun _ => by decide

/-- The controller itself, which has the index 0, is reset for the answer `256`. -/
theorem not_actsOn_wrapped :
    ¬ ∀ (w : UiWorld) (stof : String → Except StdException UInt32) (req : Request)
        (input : String) (s : UiState) (rest : List String),
      input.toList.head? = some req.letter → req.Typed s.answers rest →
        ActsOn w stof req input s rest := by
  intro all
  have acts := all {} noFloat (.reset 256) "r" { answers := ["256"] } [] (by decide)
    (.reset (by decide))
  obtain ⟨answers, idle⟩ := acts.invalid (by decide)
  have calls : (left (parse {} noFloat "r" { answers := ["256"] })).calls = [.devReset 0] := by
    decide
  rw [idle] at calls
  cases calls

end Parse

end UiParser

end Lra
