import Lra.Effect.Transition
import Lra.Number.Numeral
import Lra.Usb.FileCallback

/-!
# Following a data file

`FileObserver` reads a file again whenever it is told of a change, and gives the lines it has
not given yet to a callback. A line that the writer has not finished is given as well. When
the lines that the callback took are lines of the file is determined exactly.
-/

namespace Lra

open Effect Text

/-- `FileObserver` with its handler: the lines counted, the time of the last change that was
not skipped, and what the callback works on. `taken` are the lines for which it returned. -/
structure FileObserver (σ : Type) where
  line : Nat := 0
  lastTriggered : ℚ := 0
  fargs : σ
  taken : List Line := []

namespace FileObserver

variable {ε σ : Type}

/-- A change of the file: when the handler is told of it, and what is then in the file. -/
structure Modified where
  currentTime : ℚ
  content : List Char

section Code

variable (userCallback : Option (Line → EStateM ε σ Unit)) (minInterval : ℚ)

/-- The loop over the new lines, which the first exception ends. -/
def visit : FileObserver σ → List Line → FileObserver σ
  | s, [] => s
  | s, newLine :: newLines =>
    match userCallback with
    | none => visit s newLines
    | some call =>
      match call newLine s.fargs with
      | .ok _ fargs =>
        visit { s with line := s.line + 1, fargs, taken := s.taken ++ [newLine] } newLines
      | .error _ fargs => { s with fargs }

/-- `_internal_callback`. -/
def internalCallback (s : FileObserver σ) (content : List Char) : FileObserver σ :=
  visit userCallback s ((readlines (universalNewlines content)).drop s.line)

/-- `on_modified`. -/
def onModified (s : FileObserver σ) (event : Modified) : FileObserver σ :=
  if event.currentTime - s.lastTriggered > minInterval then
    { internalCallback userCallback s event.content with lastTriggered := event.currentTime }
  else s

/-- The handler is told of a change, while the file holds a part of what it will hold. -/
def Step (final : List Char) (s : FileObserver σ) (event : Modified) (t : FileObserver σ) :
    Prop :=
  event.content <+: final ∧ t = onModified userCallback minInterval s event

/-- The callback returns for one line after the other. -/
inductive Accepts : σ → List Line → Prop where
  | nil (fargs) : Accepts fargs []
  | cons {call newLine newLines fargs fargs'} : userCallback = some call →
      call newLine fargs = .ok () fargs' → Accepts fargs' newLines →
      Accepts fargs (newLine :: newLines)

/-- The change is not skipped and shows a line that is still being written, and the callback
takes what is new up to this line and the line itself. -/
def TakesCut (s : FileObserver σ) (event : Modified) : Prop :=
  let text := universalNewlines event.content
  event.currentTime - s.lastTriggered > minInterval ∧ cut text ≠ [] ∧
    s.line ≤ (terminated text).length ∧
    Accepts userCallback s.fargs ((terminated text).drop s.line ++ [cut text])

end Code

/-! ### One reading -/

variable {userCallback : Option (Line → EStateM ε σ Unit)} {minInterval : ℚ}

theorem visit_none (s : FileObserver σ) (lines : List Line) :
    visit (none : Option (Line → EStateM ε σ Unit)) s lines = s := by
  induction lines with
  | nil => rfl
  | cons line lines ih => exact ih

/-- The callback returns for the first line and accepts the others after it. -/
theorem Accepts.of_cons {call : Line → EStateM ε σ Unit} {fargs : σ} {newLine : Line}
    {newLines : List Line} (accepts : Accepts (some call) fargs (newLine :: newLines)) :
    ∃ fargs', call newLine fargs = .ok () fargs' ∧ Accepts (some call) fargs' newLines := by
  obtain _ | ⟨given, returned, rest⟩ := accepts
  obtain rfl := Option.some.inj given
  exact ⟨_, returned, rest⟩

/-- The loop takes the first lines, and all of them exactly if the callback accepts them. -/
theorem visit_spec (userCallback : Option (Line → EStateM ε σ Unit)) (s : FileObserver σ)
    (lines : List Line) :
    ∃ k ≤ lines.length, (visit userCallback s lines).line = s.line + k ∧
      (visit userCallback s lines).taken = s.taken ++ lines.take k ∧
      (k = lines.length ↔ Accepts userCallback s.fargs lines) := by
  induction lines generalizing s with
  | nil => exact ⟨0, Nat.le_refl 0, rfl, by simp [visit], iff_of_true rfl (.nil _)⟩
  | cons newLine newLines ih =>
    cases called : userCallback with
    | none =>
      rw [visit_none]
      refine ⟨0, Nat.zero_le _, rfl, by simp, ?_⟩
      refine iff_of_false (by simp) ?_
      rintro (_ | ⟨given, _, _⟩)
      cases given
    | some call =>
      subst called
      cases result : call newLine s.fargs with
      | ok _ fargs =>
        have first : visit (some call) s (newLine :: newLines) = visit (some call)
            { s with line := s.line + 1, fargs, taken := s.taken ++ [newLine] } newLines := by
          rw [visit, result]
        obtain ⟨k, le, line, taken, all⟩ :=
          ih { s with line := s.line + 1, fargs, taken := s.taken ++ [newLine] }
        rw [first]
        refine ⟨k + 1, Nat.succ_le_succ le, ?_, ?_, ?_⟩
        · rw [line]
          dsimp only
          omega
        · rw [taken, List.take_succ_cons, List.append_assoc]
          rfl
        · rw [List.length_cons, Nat.add_left_inj, all]
          constructor
          · exact .cons rfl result
          · intro accepts
            obtain ⟨fargs', returned, rest⟩ := accepts.of_cons
            rw [result] at returned
            cases returned
            exact rest
      | error e fargs =>
        have first : visit (some call) s (newLine :: newLines) = { s with fargs } := by
          rw [visit, result]
        rw [first]
        refine ⟨0, Nat.zero_le _, rfl, by simp, ?_⟩
        refine iff_of_false (by simp) ?_
        intro accepts
        obtain ⟨fargs', returned, _⟩ := accepts.of_cons
        rw [result] at returned
        cases returned

/-- As many lines are counted as were taken. -/
theorem line_eq_visit {s : FileObserver σ} (counted : s.line = s.taken.length)
    (lines : List Line) : (visit userCallback s lines).line =
      (visit userCallback s lines).taken.length := by
  obtain ⟨k, le, line, taken, _⟩ := visit_spec userCallback s lines
  rw [line, taken, List.length_append, List.length_take_of_le le, counted]

section Reading

variable {s : FileObserver σ} {text final : List Char}

/-- The lines that are read and not yet counted. -/
theorem drop_readlines (inside : s.line ≤ (terminated text).length) :
    (readlines text).drop s.line
      = (terminated text).drop s.line ++ if cut text = [] then [] else [cut text] :=
  List.drop_append_of_le_length inside

theorem drop_readlines_of_lt (beyond : (terminated text).length < s.line) :
    (readlines text).drop s.line = [] := by
  apply List.drop_eq_nil_of_le
  rw [readlines, List.length_append]
  split
  · rw [List.length_nil]
    omega
  · rw [List.length_singleton]
    omega

/-- What was taken and the terminated lines not yet counted are the terminated lines. -/
theorem taken_append_drop (grows : text <+: final) (counted : s.line = s.taken.length)
    (good : s.taken <+: terminated final) (inside : s.line ≤ (terminated text).length) :
    s.taken ++ (terminated text).drop s.line = terminated text := by
  rw [counted] at inside ⊢
  have older : s.taken <+: terminated text :=
    List.prefix_of_prefix_length_le good (terminated_mono grows) inside
  exact List.prefix_iff_eq_append.1 older

/-- The lines taken in one reading keep to those terminated in the end, unless the callback
gets to the cut line and takes it. -/
theorem prefix_visit_iff (grows : text <+: final) (counted : s.line = s.taken.length)
    (good : s.taken <+: terminated final) :
    (visit userCallback s ((readlines text).drop s.line)).taken <+: terminated final ↔
      ¬ (cut text ≠ [] ∧ s.line ≤ (terminated text).length ∧
        Accepts userCallback s.fargs ((terminated text).drop s.line ++ [cut text])) := by
  obtain ⟨k, le, _, taken, all⟩ :=
    visit_spec userCallback s ((readlines text).drop s.line)
  rw [taken]
  rcases Nat.lt_or_ge (terminated text).length s.line with beyond | inside
  · rw [drop_readlines_of_lt beyond, List.take_nil, List.append_nil]
    exact iff_of_true good fun ⟨_, within, _⟩ => absurd within (Nat.not_le.2 beyond)
  have joined := taken_append_drop grows counted good inside
  have fits := terminated_mono grows
  -- Whatever part of the terminated lines is taken, it is one of the final ones.
  have part (k : Nat) : s.taken ++ ((terminated text).drop s.line).take k <+: terminated final := by
    refine List.IsPrefix.trans ?_ fits
    have front := (List.prefix_append_right_inj s.taken).2
      (List.take_prefix k ((terminated text).drop s.line))
    rwa [joined] at front
  rw [drop_readlines inside] at le all ⊢
  by_cases whole : cut text = []
  · rw [if_pos whole, List.append_nil]
    exact iff_of_true (part k) fun ⟨begun, _⟩ => begun whole
  · rw [if_neg whole] at le all ⊢
    rw [← all]
    by_cases last : k = ((terminated text).drop s.line ++ [cut text]).length
    · rw [last, List.take_length, ← List.append_assoc, joined]
      refine iff_of_false (fun front => ?_) fun other => other ⟨whole, inside, rfl⟩
      refine cut_not_mem_terminated text final (front.mem ?_)
      exact List.mem_append_right _ List.mem_cons_self
    · have short : k ≤ ((terminated text).drop s.line).length := by
        rw [List.length_append, List.length_singleton] at le last
        omega
      rw [List.take_append_of_le_length short]
      exact iff_of_true (part k) fun ⟨_, _, here⟩ => last here

end Reading

/-! ### Runs -/

section Runs

variable {final : List Char} {fargs : σ} {s t : FileObserver σ} {event : Modified}
  {h : List (Modified × FileObserver σ)}

theorem counted_step (step : Step userCallback minInterval final s event t)
    (counted : s.line = s.taken.length) : t.line = t.taken.length := by
  obtain ⟨_, rfl⟩ := step
  unfold onModified
  split
  · exact line_eq_visit counted _
  · exact counted

theorem prefix_step_iff (step : Step userCallback minInterval final s event t)
    (counted : s.line = s.taken.length)
    (good : s.taken <+: terminated (universalNewlines final)) :
    t.taken <+: terminated (universalNewlines final) ↔
      ¬ TakesCut userCallback minInterval s event := by
  obtain ⟨grows, rfl⟩ := step
  unfold onModified TakesCut
  split
  · next told =>
    rw [and_iff_right told]
    exact prefix_visit_iff (universalNewlines_mono grows) counted good
  · next skipped => exact iff_of_true good fun both => skipped both.1

/-- At every moment of a run of a new observer, the lines taken are the first lines of those
terminated in the end, exactly if no change is seen at which a cut line is taken. -/
theorem taken_prefix_iff
    (run : Run (Step userCallback minInterval final) { fargs := fargs } h t) :
    (∀ h', h' <:+ h → (stateAfter { fargs := fargs } h').taken
        <+: terminated (universalNewlines final)) ↔
      ∀ event u h', (event, u) :: h' <:+ h →
        ¬ TakesCut userCallback minInterval (stateAfter { fargs := fargs } h') event := by
  refine run.always_iff List.nil_prefix ?_
  intro h t event u earlier good last
  have counted := earlier.invariant (P := fun s => s.line = s.taken.length) rfl
    fun counted step => counted_step step counted
  rw [earlier.stateAfter_eq] at good ⊢
  exact prefix_step_iff last counted good

end Runs

/-! ### A cut number -/

/-- `float` on numbers without sign and exponent. -/
def decimal (s : Line) : Option ℚ :=
  let number (whole fraction : Line) : Option ℚ :=
    if (whole ++ fraction).all Char.isDigit && !(whole ++ fraction).isEmpty then
      some (Numeral.value 10 (Numeral.digits 10 (whole ++ fraction)) / 10 ^ fraction.length)
    else none
  match (RealtimePlot.strip s).splitOn '.' with
  | [whole] => number whole []
  | [whole, fraction] => number whole fraction
  | _ => none

/-- The observer of the accelerometer's file. -/
def accObserver : FileObserver RealtimePlot.Data := { fargs := fun _ => [] }

def accCallback : Option RealtimePlot.Callback := some (RealtimePlot.accFileCallback decimal)

def accFile : List Char := "0.001000, 0.5000, 0.2500, 1.2500\n".toList

/-- The file is seen as a whole. -/
theorem taken_prefix_whole :
    (onModified accCallback (1 / 100) accObserver ⟨1, accFile⟩).taken
      <+: terminated (universalNewlines accFile) := by
  have step : Step accCallback (1 / 100) accFile accObserver ⟨1, accFile⟩ _ :=
    ⟨List.prefix_rfl, rfl⟩
  refine (taken_prefix_iff (Run.nil.step step)).2 ?_ _ List.suffix_rfl
  refine forall_steps_cons.mpr ⟨fun takes => ?_, forall_steps_nil⟩
  exact absurd takes.2.1 (by decide +kernel)

/-- Seen with `1` of `1.2500`, the line is taken, and its last number is 1. -/
theorem not_taken_prefix_cut :
    ∃ h t, Run (Step accCallback (1 / 100) accFile) accObserver h t ∧ t.fargs "z" = [1] ∧
      ¬ t.taken <+: terminated (universalNewlines accFile) := by
  have step : Step accCallback (1 / 100) accFile accObserver
      ⟨1, "0.001000, 0.5000, 0.2500, 1".toList⟩ _ := ⟨by decide +kernel, rfl⟩
  refine ⟨_, _, Run.nil.step step, ?_, ?_⟩
  · decide +kernel
  · decide +kernel

end FileObserver

end Lra
