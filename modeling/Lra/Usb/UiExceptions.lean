import Lra.Usb.UiNumbers

/-!
# The exceptions of the conversions

Every command converts its answers in a `try`. That of the command `s` is for
`std::invalid_argument` alone, so a number that does not fit an `int` ends the program, be it
typed or in the name of a data file.
-/

namespace Lra

open Effect Numeral

namespace UiParser

section Raises

variable (w : UiWorld) (stof : String → Except StdException UInt32)

/-- A `try` for every exception at the end of a command. -/
theorem raises_try_end {α : Type} (x : Ui α) :
    Raises (· = .waiting) (tryAll x >>= fun _ => (pure () : Ui Unit)) :=
  (raises_tryAll x).bind fun _ => raises_pure ()

theorem raises_call (c : UiCall) : Raises (· = .waiting) (call c) := raises_modify _

theorem raises_caseO : Raises (· = .waiting) (caseO w) := by
  have choose (index : Nat) : Raises (· = .waiting) (chooseRcws w index) :=
    (raises_call _).bind fun _ => raises_modify _
  have opens : Raises (· = .waiting) (openRcws w) := raises_try_end _
  unfold caseO
  split
  · exact raises_pure ()
  · exact (choose 0).bind fun _ => opens
  · exact raises_nextInput.bind fun _ => (raises_tryAll _).bind fun _ => opens

theorem raises_caseR : Raises (· = .waiting) caseR :=
  raises_nextInput.bind fun _ => raises_try_end _

theorem raises_caseP : Raises (· = .waiting) (caseP w stof) :=
  raises_nextInput.bind fun _ => raises_try_end _

theorem raises_getIaddr : Raises (· = .waiting) getIaddr :=
  raises_nextNonEmpty.bind fun _ => raises_tryAll _

theorem raises_caseG : Raises (· = .waiting) caseG := by
  refine raises_nextNonEmpty.bind fun _ => (raises_tryAll _).bind fun devIndex => ?_
  cases devIndex with
  | none => exact raises_pure ()
  | some devIndex =>
      refine raises_getIaddr.bind fun iaddrBegin => ?_
      cases iaddrBegin with
      | none => exact raises_pure ()
      | some iaddrBegin =>
          refine raises_getIaddr.bind fun iaddrEnd => ?_
          cases iaddrEnd with
          | none => exact raises_pure ()
          | some iaddrEnd => exact raises_call _

end Raises

/-! ### The command `s` -/

/-- The answer is a number, and as the mode it leads to a file whose name cannot be made. -/
def NamesMissing (w : UiWorld) (n : Int) : Prop :=
  n % 256 = 3 ∧ w.dataPathReady = true ∧ ¬ NamesFit w

/-- The first answer is a number that does not fit, or there is no next file. -/
def Unfit (w : UiWorld) (s : UiState) : Prop :=
  ∃ answer ∈ s.answers.head?, stoi answer 10 = .error .outOfRange ∨
    ∃ n, stoi answer 10 = .ok n ∧ NamesMissing w n

section CaseS

variable {w : UiWorld} {s : UiState} {answer : String} {rest : List String}

theorem caseS_invalidArgument (answers : s.answers = answer :: rest)
    (invalid : stoi answer 10 = .error .invalidArgument) :
    caseS w s = .ok () { s with answers := rest } := by
  rw [caseS, bind_of_ok (nextInput_cons answers), invalid]
  rfl

theorem caseS_outOfRange (answers : s.answers = answer :: rest)
    (large : stoi answer 10 = .error .outOfRange) :
    caseS w s = .error (.thrown .outOfRange) { s with answers := rest } := by
  rw [caseS, bind_of_ok (nextInput_cons answers), large]
  rfl

theorem caseS_waiting (answers : s.answers = []) : caseS w s = .error .waiting s := by
  unfold caseS
  apply bind_of_error
  rw [nextInput, answers]

/-- A number that does not make it search for a name in vain is no reason to throw. -/
theorem caseS_ok {n : Int} (answers : s.answers = answer :: rest)
    (typed : stoi answer 10 = .ok n) (named : ¬ NamesMissing w n) :
    ∃ t, caseS w s = .ok () t := by
  rw [caseS_typed w noFloat answers typed]
  split
  · have fit : UInt8.ofInt n = lraUsbDataMode → w.dataPathReady = true → NamesFit w := by
      intro data ready
      by_contra unfit
      exact named ⟨(Request.ofInt_eq_iff n _).mp data, ready, unfit⟩
    obtain ⟨a, t, run, _⟩ := makes_setMode w fit { s with answers := rest }
    exact ⟨t, try_of_ok run⟩
  · exact ⟨_, rfl⟩

theorem caseS_namesMissing {n : Int} (answers : s.answers = answer :: rest)
    (typed : stoi answer 10 = .ok n) (missing : NamesMissing w n) :
    ∃ t, caseS w s = .error (.thrown .outOfRange) t := by
  obtain ⟨mode, ready, unfit⟩ := missing
  have data : UInt8.ofInt n = lraUsbDataMode := (Request.ofInt_eq_iff n _).mpr mode
  rw [caseS_typed w noFloat answers typed, if_pos (.inr mode)]
  have thrown := setMode_of_unfit w ready unfit { s with answers := rest }
  rw [← data] at thrown
  exact ⟨_, bind_of_error (attempt_of_error thrown)⟩

/-- The command throws exactly then. -/
theorem caseS_throws_iff :
    (∃ e t, caseS w s = .error (.thrown e) t) ↔ Unfit w s := by
  cases answers : s.answers with
  | nil =>
      refine iff_of_false ?_ ?_
      · rintro ⟨e, t, thrown⟩
        rw [caseS_waiting answers] at thrown
        cases thrown
      · rintro ⟨answer, first, _⟩
        rw [answers] at first
        cases first
  | cons answer rest =>
      have first : answer ∈ s.answers.head? := by simp [answers]
      have only : ∀ a ∈ s.answers.head?, a = answer := by
        intro a member
        exact Option.some.inj (member.symm.trans first)
      rcases stoi_cases answer 10 with ⟨n, typed⟩ | invalid | large
      · by_cases missing : NamesMissing w n
        · obtain ⟨t, thrown⟩ := caseS_namesMissing answers typed missing
          exact iff_of_true ⟨_, t, thrown⟩ ⟨answer, first, .inr ⟨n, typed, missing⟩⟩
        · obtain ⟨t, done⟩ := caseS_ok answers typed missing
          refine iff_of_false ?_ ?_
          · rintro ⟨e, u, thrown⟩
            rw [done] at thrown
            cases thrown
          · rintro ⟨a, member, unfit⟩
            rw [only a member, typed] at unfit
            rcases unfit with large | ⟨m, same, missing'⟩
            · cases large
            · cases same
              exact missing missing'
      · refine iff_of_false ?_ ?_
        · rintro ⟨e, u, thrown⟩
          rw [caseS_invalidArgument answers invalid] at thrown
          cases thrown
        · rintro ⟨a, member, unfit⟩
          rw [only a member, invalid] at unfit
          rcases unfit with large | ⟨m, same, _⟩
          · cases large
          · cases same
      · exact iff_of_true ⟨_, _, caseS_outOfRange answers large⟩ ⟨answer, first, .inl large⟩

end CaseS

/-! ### All commands -/

section Commands

variable {w : UiWorld} {stof : String → Except StdException UInt32} {input : String} {s : UiState}

/-- The command `s` is given an answer that is converted. -/
def Switches (input : String) (s : UiState) : Prop :=
  input.toList.head? = some 's' ∧ ∃ answer ∈ s.answers.head?, ∃ n, stoi answer 10 = .ok n

/-- No exception gets out, and unless a mode was typed the data files and the pipe are what
they were. -/
structure Contained (w : UiWorld) (stof : String → Except StdException UInt32)
    (input : String) (s : UiState) : Prop where
  caught : ∀ e t, parse w stof input s ≠ .error (.thrown e) t
  kept : ¬ Switches input s → (left (parse w stof input s)).files = s.files ∧
    (left (parse w stof input s)).pipeName = s.pipeName

/-- Every letter but `s` stands for a command that catches and leaves the files alone. -/
theorem command_other {c : Option Char} (other : c ≠ some 's') :
    Raises (· = .waiting) (command w stof c) ∧ Leads Kept (command w stof c) := by
  unfold command
  split
  · exact ⟨raises_caseO w, kept_caseO w⟩
  · exact ⟨raises_call _, kept_call _⟩
  · exact ⟨raises_caseR, kept_caseR⟩
  · exact ⟨raises_call _, kept_call _⟩
  · exact absurd rfl other
  · exact ⟨raises_caseP w stof, kept_caseP w stof⟩
  · exact ⟨raises_caseG, kept_caseG⟩
  · exact ⟨raises_pure (), kept_pure ()⟩

theorem parse_other (w : UiWorld) (stof : String → Except StdException UInt32)
    (other : input.toList.head? ≠ some 's') :
    Raises (· = .waiting) (parse w stof input) ∧ Leads Kept (parse w stof input) := by
  unfold parse
  split
  · exact ⟨raises_call _, kept_call _⟩
  · split
    · exact ⟨raises_call _, kept_call _⟩
    · exact command_other other

theorem parse_s (w : UiWorld) (stof : String → Except StdException UInt32)
    (letter : input.toList.head? = some 's') :
    parse w stof input = caseS w := by
  rw [parse_letter w stof letter (by decide) (by decide)]
  rfl

/-- The command `s` that is not given a number changes no file. -/
theorem kept_caseS (noMode : ¬ ∃ answer ∈ s.answers.head?, ∃ n, stoi answer 10 = .ok n) :
    Kept s (left (caseS w s)) := by
  cases answers : s.answers with
  | nil =>
      rw [caseS_waiting answers]
      exact Kept.refl s
  | cons answer rest =>
      rcases stoi_cases answer 10 with typed | invalid | large
      · exact absurd ⟨answer, by simp [answers], typed⟩ noMode
      · rw [caseS_invalidArgument answers invalid]
        exact ⟨Nat.le_refl _, rfl, rfl⟩
      · rw [caseS_outOfRange answers large]
        exact ⟨Nat.le_refl _, rfl, rfl⟩

/-- Exceptions are contained unless the command is `s` and its answer does not fit an `int`,
or asks for data mode where an index does not. -/
theorem contained_iff :
    Contained w stof input s ↔ ¬ (input.toList.head? = some 's' ∧ Unfit w s) := by
  constructor
  · rintro contained ⟨letter, unfit⟩
    obtain ⟨e, t, thrown⟩ := caseS_throws_iff.mpr unfit
    rw [← parse_s w stof letter] at thrown
    exact contained.caught e t thrown
  · intro fits
    by_cases letter : input.toList.head? = some 's'
    · have parsed := parse_s w stof letter
      constructor
      · intro e t thrown
        rw [parsed] at thrown
        exact fits ⟨letter, caseS_throws_iff.mp ⟨e, t, thrown⟩⟩
      · intro noMode
        rw [parsed]
        exact (kept_caseS fun mode => noMode ⟨letter, mode⟩).2
    · obtain ⟨raises, kept⟩ := parse_other w stof letter
      constructor
      · intro e t thrown
        exact absurd (raises s _ t thrown) (by simp)
      · exact fun _ => (kept s).2

/-- Ten digits are enough, while a recording is on. -/
theorem not_contained_digits :
    ¬ ∀ (w : UiWorld) (stof : String → Except StdException UInt32) (input : String) (s : UiState),
      Contained w stof input s := by
  intro all
  refine (all {} noFloat "s" { answers := ["9999999999"] }).caught .outOfRange { answers := [] } ?_
  exact caseS_outOfRange rfl (by decide)

end Commands

end UiParser

end Lra
