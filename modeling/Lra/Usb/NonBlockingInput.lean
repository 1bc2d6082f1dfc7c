import Lra.Effect.Fed
import Lra.Effect.Transition
import Lra.Usb.ManualPwm
import Lra.Usb.UiNumbers

/-!
# The console

`NonBlockingInput` and the loop of `main` that asks it. A thread of its own reads the lines the
user types and puts them into a queue; `main` takes them out, the first as a command and, while
that prompts, the next ones as its answers. Whatever the threads' order and however slowly the
user types, what is done is what the commands do on the whole script.
-/

namespace Lra

open Effect Numeral

namespace UiParser

/-! ### Answers -/

/-- Answers that come later. What was done before is not undone by them. -/
def answering : Feeding UiStop UiState String where
  feed more s := { s with answers := s.answers ++ more }
  Empty s := s.answers = []
  wants stop := stop = .waiting
  After s t := s.calls <+: t.calls
  refl _ := List.prefix_rfl
  trans _ _ _ := List.IsPrefix.trans

section Fed

variable {α : Type} (w : UiWorld) (stof : String → Except StdException UInt32)

/-- A change of the state that has to do neither with the answers nor with the calls. -/
theorem fed_change {g : UiState → UiState} (calls : ∀ s, (g s).calls = s.calls)
    (answers : ∀ s, (g s).answers = s.answers)
    (feed : ∀ more s, g (answering.feed more s) = answering.feed more (g s)) :
    Fed answering (modify g) := by
  refine fed_modify (fun s => ?_) (fun s none => (answers s).trans none) feed
  show s.calls <+: (g s).calls
  rw [calls]

theorem fed_call (c : UiCall) : Fed answering (call c) :=
  fed_modify (fun _ => List.prefix_append ..) (fun _ none => none) fun _ _ => rfl

theorem fed_throw_exception (e : StdException) : Fed answering (throw (.thrown e) : Ui α) :=
  fed_throw rfl

theorem fed_convert (v : Except StdException α) : Fed answering (convert v) := by
  cases v with
  | ok a => exact fed_pure a
  | error e => exact fed_throw_exception e

/-- A part that only takes answers off the front. -/
theorem fed_of_takes {x : Ui α} (takes : List String → Option (α × List String))
    (run : ∀ s, x s = match takes s.answers with
      | some (a, answers) => .ok a { s with answers }
      | none => .error .waiting { s with answers := [] })
    (empty : takes [] = none)
    (append : ∀ {answers a rest} more, takes answers = some (a, rest) →
      takes (answers ++ more) = some (a, rest ++ more))
    (last : ∀ {answers answer a rest}, takes answers = none →
      takes (answers ++ [answer]) = some (a, rest) → rest = []) : Fed answering x where
  leads s := by
    rw [run]
    split <;> exact List.prefix_rfl
  empty s none := by
    have nothing : takes s.answers = .none := by rw [none, empty]
    rw [run, nothing]
    rfl
  ok {s a t} more returned := by
    rw [run] at returned ⊢
    cases taken : takes s.answers with
    | none =>
        rw [taken] at returned
        cases returned
    | some got =>
        rw [taken] at returned
        cases returned
        have later : takes (answering.feed more s).answers = some (got.1, got.2 ++ more) :=
          append more taken
        rw [later]
        rfl
  error {s e t} more thrown other := by
    rw [run] at thrown
    cases taken : takes s.answers with
    | none =>
        rw [taken] at thrown
        cases thrown
        cases other
    | some got =>
        rw [taken] at thrown
        cases thrown
  goesOn {s e t} more thrown _ := by
    rw [run] at thrown ⊢
    cases taken : takes s.answers with
    | none =>
        rw [taken] at thrown
        cases thrown
        split <;> exact List.prefix_rfl
    | some got =>
        rw [taken] at thrown
        cases thrown
  taken {s e t} answer thrown _ := by
    rw [run] at thrown ⊢
    cases taken : takes s.answers with
    | none =>
        cases next : takes (answering.feed [answer] s).answers with
        | none => rfl
        | some got => exact last taken next
    | some got =>
        rw [taken] at thrown
        cases thrown

theorem fed_nextInput : Fed answering nextInput := by
  refine fed_of_takes (fun answers => answers.head?.map fun a => (a, answers.tail))
    (fun s => ?_) rfl ?_ ?_
  · obtain ⟨answers, _, _, _, _, _⟩ := s
    cases answers <;> rfl
  · intro answers a rest more taken
    cases answers with
    | nil => cases taken
    | cons answer answers =>
        cases taken
        rfl
  · intro answers answer a rest waits taken
    cases answers with
    | nil =>
        cases taken
        rfl
    | cons answer answers => cases waits

theorem fed_nextNonEmpty : Fed answering nextNonEmpty := by
  refine fed_of_takes (fun answers => (answers.dropWhile String.isEmpty).head?.map fun a =>
    (a, (answers.dropWhile String.isEmpty).tail)) (fun s => ?_) rfl ?_ ?_
  · rw [nextNonEmpty]
    cases s.answers.dropWhile String.isEmpty <;> rfl
  · intro answers a rest more taken
    cases some : answers.dropWhile String.isEmpty with
    | nil =>
        rw [some] at taken
        cases taken
    | cons answer answers =>
        rw [some] at taken
        cases taken
        rw [List.dropWhile_append, some]
        rfl
  · intro answers answer a rest waits taken
    cases none : answers.dropWhile String.isEmpty with
    | nil =>
        rw [List.dropWhile_append, none] at taken
        cases empty : answer.isEmpty with
        | true =>
            simp [empty] at taken
        | false =>
            simp [empty] at taken
            exact taken.2
    | cons answer answers =>
        rw [none] at waits
        cases waits

theorem readFloats_append {answers rest : List String} {fdata out : List UInt32}
    (more : List String) (reads : readFloats stof answers fdata = some (out, rest)) :
    readFloats stof (answers ++ more) fdata = some (out, rest ++ more) := by
  induction answers generalizing fdata with
  | nil =>
      rw [readFloats] at reads
      split at reads
      · cases reads
      · next full =>
          cases reads
          exact readFloats_full full
  | cons answer answers ih =>
      by_cases open_ : fdata.length < floatNum
      · rw [readFloats_cons open_] at reads
        rw [List.cons_append, readFloats_cons open_]
        cases taken : accept stof fdata.length answer with
        | some floatCandidate =>
            rw [taken] at reads
            exact ih reads
        | none =>
            rw [taken] at reads
            exact ih reads
      · rw [readFloats_full open_] at reads
        cases reads
        exact readFloats_full open_

theorem readFloats_last {answers rest : List String} {answer : String} {fdata out : List UInt32}
    (waits : readFloats stof answers fdata = none)
    (reads : readFloats stof (answers ++ [answer]) fdata = some (out, rest)) : rest = [] := by
  induction answers generalizing fdata with
  | nil =>
      have nothing {fdata : List UInt32} (reads : readFloats stof [] fdata = some (out, rest)) :
          rest = [] := by
        rw [readFloats] at reads
        split at reads <;> cases reads
        rfl
      rw [readFloats] at waits
      split at waits
      · next open_ =>
          rw [List.nil_append, readFloats_cons open_] at reads
          split at reads <;> exact nothing reads
      · cases waits
  | cons earlier answers ih =>
      by_cases open_ : fdata.length < floatNum
      · rw [readFloats_cons open_] at waits
        rw [List.cons_append, readFloats_cons open_] at reads
        cases taken : accept stof fdata.length earlier with
        | some floatCandidate =>
            rw [taken] at waits reads
            exact ih waits reads
        | none =>
            rw [taken] at waits reads
            exact ih waits reads
      · rw [readFloats_full open_] at waits
        cases waits

theorem fed_getFloats : Fed answering (getFloats stof) := by
  refine fed_of_takes (fun answers => readFloats stof answers []) (fun s => ?_) rfl
    (fun more reads => readFloats_append stof more reads)
    fun waits reads => readFloats_last stof waits reads
  rw [getFloats]
  cases readFloats stof s.answers [] <;> rfl

theorem fed_tryAll {x : Ui α} (hx : Fed answering x) : Fed answering (tryAll x) := by
  refine hx.attempt fun e wants => ?_
  obtain rfl : e = .waiting := of_decide_eq_true wants
  rfl

theorem fed_tryInvalidArgument {x : Ui α} (hx : Fed answering x) :
    Fed answering (tryInvalidArgument x) := by
  refine hx.attempt fun e wants => ?_
  obtain rfl : e = .waiting := of_decide_eq_true wants
  rfl

/-! ### Commands -/

theorem fed_chooseRcws (index : Nat) : Fed answering (chooseRcws w index) :=
  (fed_call _).bind fun _ => fed_change (fun _ => rfl) (fun _ => rfl) fun _ _ => rfl

theorem fed_openRcws : Fed answering (openRcws w) := by
  refine (fed_tryAll ((fed_call _).bind fun _ => ?_)).bind fun _ => fed_pure ()
  split
  · exact fed_pure ()
  · exact fed_throw rfl

theorem fed_caseO : Fed answering (caseO w) := by
  unfold caseO
  split
  · exact fed_pure ()
  · exact (fed_chooseRcws w _).bind fun _ => fed_openRcws w
  · refine fed_nextInput.bind fun _ => (fed_tryAll ?_).bind fun _ => fed_openRcws w
    refine (fed_convert _).bind fun _ => ?_
    dsimp only
    split
    · exact fed_chooseRcws w _
    · exact fed_pure ()

theorem fed_caseR : Fed answering caseR := by
  refine fed_nextInput.bind fun _ => (fed_tryAll ?_).bind fun _ => fed_pure ()
  refine (fed_convert _).bind fun _ => ?_
  dsimp only
  split
  · exact fed_call _
  · exact fed_pure ()

theorem fed_keepDataFile (k : DataFile) (path : String) (tmp : Option FileHandle) :
    Fed answering (keepDataFile k path tmp) := by
  cases tmp with
  | none => exact fed_pure ()
  | some file =>
      exact fed_change (fun _ => rfl) (fun _ => rfl) fun _ _ => rfl

theorem fed_openDataFile (k : DataFile) (path : String) :
    Fed answering (openDataFile w k path) := by
  refine (fed_call _).bind fun _ => ?_
  split
  · refine (fed_change ?_ ?_ ?_).bind fun _ => fed_pure _
    · exact fun _ => rfl
    · exact fun _ => rfl
    · exact fun _ _ => rfl
  · exact fed_pure _

theorem fed_startPlot (accPath pwmPath : String) :
    Fed answering (startPlot w accPath pwmPath) := by
  refine fed_get_bind (fun _ _ => rfl) fun s => ?_
  dsimp only
  split
  · refine (fed_call _).bind fun _ => ?_
    split
    · refine (fed_call _).bind fun _ => ?_
      split
      · exact (fed_call _).bind fun _ =>
          fed_change (fun _ => rfl) (fun _ => rfl) fun _ _ => rfl
      · exact fed_pure ()
    · exact fed_pure ()
  · exact fed_pure ()

theorem fed_startData : Fed answering (startData w) := by
  refine (fed_call _).bind fun _ => ?_
  split
  · refine (fed_convert _).bind fun accName => (fed_convert _).bind fun pwmName => ?_
    refine (fed_openDataFile w ..).bind fun accTmp => (fed_openDataFile w ..).bind fun pwmTmp => ?_
    refine (fed_keepDataFile ..).bind fun _ => (fed_keepDataFile ..).bind fun _ => ?_
    exact (fed_startPlot w ..).bind fun _ => fed_pure true
  · exact fed_pure false

theorem fed_closeDataFile (k : DataFile) (handle : Option FileHandle) :
    Fed answering (closeDataFile k handle) := by
  cases handle with
  | none => exact fed_pure ()
  | some file =>
      exact (fed_call _).bind fun _ =>
        fed_change (fun _ => rfl) (fun _ => rfl) fun _ _ => rfl

theorem fed_stopData : Fed answering stopData :=
  fed_get_bind (fun _ _ => rfl) fun _ => fed_get_bind (fun _ _ => rfl) fun _ =>
    (fed_closeDataFile .acc _).bind fun _ => fed_closeDataFile .pwm _

theorem fed_stopPlot : Fed answering stopPlot := by
  refine fed_get_bind (fun _ _ => rfl) fun s => ?_
  dsimp only
  split
  · exact (fed_call _).bind fun _ => fed_change (fun _ => rfl) (fun _ => rfl) fun _ _ => rfl
  · exact fed_pure ()

theorem fed_setMode (mode : UInt8) : Fed answering (setMode w mode) := by
  unfold setMode
  split
  · refine (fed_startData w).bind fun ready => ?_
    split
    · exact fed_call _
    · exact fed_pure ()
  · exact fed_stopData.bind fun _ => (fed_call _).bind fun _ => fed_stopPlot

theorem fed_caseS : Fed answering (caseS w) := by
  refine fed_nextInput.bind fun _ => (fed_tryInvalidArgument ?_).bind fun _ => fed_pure ()
  refine (fed_convert _).bind fun _ => ?_
  dsimp only
  split
  · exact fed_pure ()
  · exact fed_setMode w _

theorem fed_chooseCsv : Fed answering (chooseCsv w stof) := by
  have getInt : Fed answering (getInt stof) :=
    fed_nextInput.bind fun _ => (fed_convert _).bind fun _ => fed_pure _
  unfold chooseCsv
  dsimp only
  split
  · exact fed_pure ()
  · refine getInt.bind fun _ => ?_
    split
    · exact fed_pure ()
    · split
      · exact fed_nextInput.bind fun _ => (fed_call _).bind fun _ => fed_call _
      · exact fed_pure ()

theorem fed_pwmFile : Fed answering (pwmFile w stof) := by
  refine (fed_call _).bind fun _ => ?_
  split
  · refine fed_nextInput.bind fun _ => ?_
    split
    · exact (fed_call _).bind fun _ => fed_call _
    · exact fed_pure ()
  · refine (fed_call _).bind fun _ => ?_
    split
    · exact fed_chooseCsv w stof
    · exact fed_pure ()

theorem fed_caseP : Fed answering (caseP w stof) := by
  refine fed_nextInput.bind fun _ => (fed_tryAll ?_).bind fun _ => fed_pure ()
  refine (fed_convert _).bind fun _ => ?_
  dsimp only
  split
  · exact fed_pure ()
  · unfold runPwm
    split
    · exact (fed_getFloats stof).bind fun _ => fed_call _
    · exact fed_pwmFile w stof

theorem fed_caseG : Fed answering caseG := by
  have getIaddr : Fed answering getIaddr :=
    fed_nextNonEmpty.bind fun _ => fed_tryAll ((fed_convert _).bind fun _ => fed_pure _)
  refine fed_nextNonEmpty.bind fun _ => (fed_tryAll ?_).bind fun devIndex => ?_
  · refine (fed_convert _).bind fun _ => ?_
    dsimp only
    split
    · exact fed_throw rfl
    · exact fed_pure _
  · cases devIndex with
    | none => exact fed_pure ()
    | some devIndex =>
        refine getIaddr.bind fun iaddrBegin => ?_
        cases iaddrBegin with
        | none => exact fed_pure ()
        | some iaddrBegin =>
            refine getIaddr.bind fun iaddrEnd => ?_
            cases iaddrEnd with
            | none => exact fed_pure ()
            | some iaddrEnd => exact fed_call _

/-- No command looks at an answer before it asks for it. -/
theorem fed_parse (input : String) : Fed answering (parse w stof input) := by
  unfold parse
  split
  · exact fed_call _
  · split
    · exact fed_call _
    · unfold command
      split
      · exact fed_caseO w
      · exact fed_call _
      · exact fed_caseR
      · exact fed_call _
      · exact fed_caseS w
      · exact fed_caseP w stof
      · exact fed_caseG
      · exact fed_pure ()

end Fed

end UiParser

/-! ### The two threads -/

/-- Where the thread that reads the lines is. -/
inductive InputPoint where
  | testingExit
  /-- `std::cin.peek()`, and then the line goes into the queue under the lock. -/
  | peeking
  | ended
  deriving DecidableEq

/-- Where `main` is. -/
inductive MainPoint where
  /-- The loop of `main` takes `GetExitFlag`. -/
  | testingExit
  /-- The loop of `ProcessInput`. -/
  | processing
  /-- A command waits for its next answer; `start` is the state it began in, with the answers
  it has got so far. -/
  | asking (input : String) (start : UiState)
  | ended
  /-- An exception was not caught. -/
  | terminated (e : StdException)

structure NonBlockingInput where
  /-- What the user has typed and `std::cin` still holds, and whether no more will come. -/
  cin : List String := []
  eof : Bool := false
  inputQueue : List String := []
  exitFlag : Bool := false
  inputLoop : InputPoint := .testingExit
  main : MainPoint := .testingExit
  /-- The number of commands before the present one. -/
  count : Nat := 0
  ui : UiState := {}

namespace NonBlockingInput

/-- Without a line this waits, unless the console is to be left. -/
def popFirst (s : NonBlockingInput) : Option (String × NonBlockingInput) :=
  match s.inputQueue with
  | input :: inputQueue => some (input, { s with inputQueue })
  | [] => if s.exitFlag then some ("", s) else none

/-- A step of `InputLoop`, if it does not wait. -/
def inputStep (s : NonBlockingInput) : Option NonBlockingInput :=
  match s.inputLoop with
  | .testingExit => some { s with inputLoop := if s.exitFlag then .ended else .peeking }
  | .peeking =>
    match s.cin with
    | input :: cin =>
      some { s with cin, inputQueue := s.inputQueue ++ [input], inputLoop := .testingExit }
    | [] => if s.eof then some { s with inputLoop := .testingExit } else none
  | .ended => none

def isExit (input : String) : Bool :=
  input = "exit" || input = "e" || input = "q" || input = "quit"

section Main

variable (world : Nat → UiWorld) (stof : String → Except StdException UInt32)

/-- A command runs until it needs another answer, with those it has got. What it did with
fewer of them it does again (`UiParser.fed_parse`). -/
def parse (s : NonBlockingInput) (input : String) (start : UiState) : NonBlockingInput :=
  match UiParser.parse (world s.count) stof input start with
  | .ok _ ui => { s with main := .processing, count := s.count + 1, ui }
  | .error .waiting ui => { s with main := .asking input start, ui }
  | .error (.thrown e) ui => { s with main := .terminated e, ui }

/-- A step of `main`, if it does not wait. -/
def mainStep (s : NonBlockingInput) : Option NonBlockingInput :=
  match s.main with
  | .testingExit => some { s with main := if s.exitFlag then .ended else .processing }
  | .processing =>
    if s.inputQueue.isEmpty then some { s with main := .testingExit }
    else do
      let (input, s) ← s.popFirst
      if isExit input then
        return { s with
          ui := left (UiParser.parse (world s.count) stof "exit" s.ui)
          exitFlag := true
          main := .testingExit }
      else return parse world stof s input s.ui
  | .asking input start => do
    let (answer, s) ← s.popFirst
    return parse world stof s input { start with answers := start.answers ++ [answer] }
  | .ended => none
  | .terminated _ => none

/-- The user types, or one of the threads takes a step. -/
inductive ConsoleEvent where
  | typed (line : String)
  | eof
  | inputLoop
  | main

def Terminated (s : NonBlockingInput) : Prop := ∃ e, s.main = .terminated e

inductive ConsoleStep : NonBlockingInput → ConsoleEvent → NonBlockingInput → Prop where
  | typed {s line} : s.eof = false →
      ConsoleStep s (.typed line) { s with cin := s.cin ++ [line] }
  | eof {s} : ConsoleStep s .eof { s with eof := true }
  | inputLoop {s t} : ¬ s.Terminated → s.inputStep = some t → ConsoleStep s .inputLoop t
  | main {s t} : s.mainStep world stof = some t → ConsoleStep s .main t

/-! ### The script -/

/-- What becomes of a script. -/
inductive ScriptEnd where
  /-- The next line is a command. -/
  | ready
  /-- The next line is an answer. -/
  | waiting
  | left
  | terminated (e : StdException)
  deriving DecidableEq

/-- The commands of a script one after the other, `n` at most, without any thread: the lines
still to come are the answers of `s`. -/
def session : Nat → Nat → UiState → ScriptEnd × UiState
  | 0, _, s => (.ready, s)
  | n + 1, count, s =>
    match s.answers with
    | [] => (.ready, s)
    | input :: answers =>
      if isExit input then
        (.left, left (UiParser.parse (world count) stof "exit" { s with answers }))
      else
        match UiParser.parse (world count) stof input { s with answers } with
        | .ok _ t => session n (count + 1) t
        | .error .waiting t => (.waiting, t)
        | .error (.thrown e) t => (.terminated e, t)

/-- A whole script. -/
def script (ui : UiState) (lines : List String) : ScriptEnd × UiState :=
  session world stof lines.length 0 { ui with answers := lines }

/-- A step that types a line. -/
def ConsoleEvent.line : ConsoleEvent → List String
  | .typed line => [line]
  | _ => []

/-- What has become of the lines so far. -/
def outcome (s : NonBlockingInput) : ScriptEnd :=
  match s.main with
  | .asking _ _ => .waiting
  | .terminated e => .terminated e
  | _ => if s.exitFlag then .left else .ready

/-- From `s` the first `k` commands return and lead to `t`. -/
inductive Commands (s : UiState) : Nat → UiState → Prop where
  | nil : Commands s 0 s
  | step {k t u input answers} : Commands s k t → t.answers = input :: answers →
      isExit input = false →
      UiParser.parse (world k) stof input { t with answers } = .ok () u → Commands s (k + 1) u

/-- Where a script stands after `k` commands, when all of its lines are used. -/
inductive Stands (s : UiState) : Nat → ScriptEnd → UiState → Prop where
  | ready {k t} : Commands world stof s k t → t.answers = [] → Stands s k .ready t
  | waiting {k t u input answers} : Commands world stof s k t → t.answers = input :: answers →
      isExit input = false →
      UiParser.parse (world k) stof input { t with answers } = .error .waiting u →
      Stands s k .waiting u
  | left {k t input answers} : Commands world stof s k t → t.answers = input :: answers →
      isExit input = true →
      Stands s k .left (left (UiParser.parse (world k) stof "exit" { t with answers }))
  | terminated {k t u input answers e} : Commands world stof s k t → t.answers = input :: answers →
      isExit input = false →
      UiParser.parse (world k) stof input { t with answers } = .error (.thrown e) u →
      Stands s k (.terminated e) u

section Script

variable {world stof} {s t u : UiState} {k n : Nat} {o : ScriptEnd}

/-- With more lines behind, the commands are the same. -/
theorem Commands.feed (commands : Commands world stof s k t) (more : List String) :
    Commands world stof (UiParser.answering.feed more s) k (UiParser.answering.feed more t) := by
  induction commands with
  | nil => exact .nil
  | @step k t u input answers _ line command run ih =>
      have longer : (UiParser.answering.feed more t).answers = input :: (answers ++ more) :=
        congrArg (· ++ more) line
      have again := (UiParser.fed_parse (world k) stof input).ok more run
      exact .step ih longer command again

theorem Commands.session_eq (commands : Commands world stof s k t) (n : Nat) :
    session world stof (k + n) 0 s = session world stof n k t := by
  induction commands generalizing n with
  | nil => rw [Nat.zero_add]
  | @step k t u input answers _ line command run ih =>
      rw [Nat.add_assoc, Nat.add_comm 1, ih, session, line]
      simp [command, run]

theorem session_cons (line : t.answers = input :: answers) :
    session world stof (n + 1) k t =
      if isExit input then (.left, left (UiParser.parse (world k) stof "exit" { t with answers }))
      else
        match UiParser.parse (world k) stof input { t with answers } with
        | .ok _ u => session world stof n (k + 1) u
        | .error .waiting u => (.waiting, u)
        | .error (.thrown e) u => (.terminated e, u) := by
  rw [session, line]

/-- Nothing is undone of what a command did. -/
theorem calls_command (later : ∀ k s, s.calls <+: (session world stof n k s).2.calls)
    (line : t.answers = input :: answers) (command : isExit input = false) :
    (left (UiParser.parse (world k) stof input { t with answers })).calls
      <+: (session world stof (n + 1) k t).2.calls := by
  rw [session_cons line, if_neg (Bool.eq_false_iff.mp command)]
  split
  · next u run =>
      rw [run]
      exact later _ u
  · next u run =>
      rw [run]
      exact List.prefix_rfl
  · next e u run =>
      rw [run]
      exact List.prefix_rfl

/-- A session only adds to the calls. -/
theorem calls_session (n k : Nat) (s : UiState) :
    s.calls <+: (session world stof n k s).2.calls := by
  induction n generalizing k s with
  | zero => exact List.prefix_rfl
  | succ n ih =>
      cases line : s.answers with
      | nil =>
          rw [session, line]
      | cons input answers =>
          cases command : isExit input with
          | true =>
              rw [session_cons line, if_pos command]
              exact (UiParser.fed_parse (world k) stof "exit").leads { s with answers }
          | false =>
              have grown := (UiParser.fed_parse (world k) stof input).leads { s with answers }
              exact List.IsPrefix.trans grown (calls_command ih line command)

theorem Stands.session_eq (stands : Stands world stof s k o u) (ready : o = .ready → k ≤ n)
    (others : o ≠ .ready → k < n) : session world stof n 0 s = (o, u) := by
  cases stands with
  | ready commands none =>
      obtain ⟨m, rfl⟩ := Nat.exists_eq_add_of_le (ready rfl)
      rw [commands.session_eq]
      cases m <;> simp [session, none]
  | waiting commands line command run =>
      obtain ⟨m, rfl⟩ := Nat.exists_eq_add_of_lt (others nofun)
      rw [Nat.add_assoc, commands.session_eq, session_cons line, run,
        if_neg (Bool.eq_false_iff.mp command)]
  | left commands line exits =>
      obtain ⟨m, rfl⟩ := Nat.exists_eq_add_of_lt (others nofun)
      rw [Nat.add_assoc, commands.session_eq, session_cons line, if_pos exits]
  | terminated commands line command run =>
      obtain ⟨m, rfl⟩ := Nat.exists_eq_add_of_lt (others nofun)
      rw [Nat.add_assoc, commands.session_eq, session_cons line, run,
        if_neg (Bool.eq_false_iff.mp command)]

theorem feed_answers (line : t.answers = input :: answers) (more : List String) :
    (UiParser.answering.feed more t).answers = input :: (answers ++ more) :=
  congrArg (· ++ more) line

theorem parse_exit (w : UiWorld) (s : UiState) :
    UiParser.parse w stof "exit" s = .ok () { s with calls := s.calls ++ [.close] } := by
  rw [UiParser.parse, if_pos rfl]
  rfl

/-- A script that has come to its end. -/
def ScriptEnd.Final (o : ScriptEnd) : Prop := o = .left ∨ ∃ e, o = .terminated e

/-- Behind its end a script is not read. -/
theorem Stands.final (stands : Stands world stof s k o u) (final : o.Final) (lt : k < n)
    (more : List String) : session world stof n 0 (UiParser.answering.feed more s)
      = (o, UiParser.answering.feed more u) := by
  obtain ⟨m, rfl⟩ := Nat.exists_eq_add_of_lt lt
  cases stands with
  | ready commands none => simp [ScriptEnd.Final] at final
  | waiting commands line command run => simp [ScriptEnd.Final] at final
  | left commands line exits =>
      rw [Nat.add_assoc, (commands.feed more).session_eq, session_cons (feed_answers line more),
        if_pos exits, parse_exit, parse_exit]
      rfl
  | @terminated t _ input answers e commands line command run =>
      have same : UiParser.parse (world k) stof input
          { UiParser.answering.feed more t with answers := answers ++ more }
            = .error (.thrown e) (UiParser.answering.feed more u) :=
        (UiParser.fed_parse (world k) stof input).error more run rfl
      rw [Nat.add_assoc, (commands.feed more).session_eq, session_cons (feed_answers line more),
        if_neg (Bool.eq_false_iff.mp command), same]

/-- With more lines nothing is undone. -/
theorem Stands.calls_feed (stands : Stands world stof s k o u) (more : List String)
    (ready : o = .ready → k ≤ n) (others : o ≠ .ready → k < n) :
    u.calls <+: (session world stof n 0 (UiParser.answering.feed more s)).2.calls := by
  by_cases final : o.Final
  · have lt : k < n := others (by rintro rfl; simp [ScriptEnd.Final] at final)
    rw [stands.final final lt]
    exact List.prefix_rfl
  · cases stands with
    | ready commands none =>
        obtain ⟨m, rfl⟩ := Nat.exists_eq_add_of_le (ready rfl)
        rw [(commands.feed more).session_eq]
        exact calls_session m k (UiParser.answering.feed more u)
    | waiting commands line command run =>
        obtain ⟨m, rfl⟩ := Nat.exists_eq_add_of_lt (others nofun)
        rw [Nat.add_assoc, (commands.feed more).session_eq]
        have goesOn := (UiParser.fed_parse (world k) stof _).goesOn more run rfl
        exact List.IsPrefix.trans goesOn
          (calls_command (calls_session m) (feed_answers line more) command)
    | left commands line exits => exact absurd (.inl rfl) final
    | terminated commands line command run => exact absurd (.inr ⟨_, rfl⟩) final

end Script

/-! ### Any order -/

/-- What the console keeps: the lines that left the queue were handled as the script's first
ones, and the others are still in their order. -/
structure Follows (ui : UiState) (typed popped : List String) (s : NonBlockingInput) : Prop where
  lines : typed = popped ++ (s.inputQueue ++ s.cin)
  stands : Stands world stof { ui with answers := popped } s.count s.outcome s.ui
  count_le : s.count ≤ popped.length
  count_lt : s.outcome ≠ .ready → s.count < popped.length
  asking : ∀ input start, s.main = .asking input start →
    Commands world stof { ui with answers := popped } s.count
      { start with answers := input :: start.answers } ∧ isExit input = false ∧
      UiParser.parse (world s.count) stof input start = .error .waiting s.ui
  leaving : s.exitFlag = true → s.main = .testingExit ∨ s.main = .ended

section Follows

variable {world stof} {ui : UiState} {typed popped : List String} {s t : NonBlockingInput}

theorem popFirst_eq {input : String} (taken : s.popFirst = some (input, t))
    (going : s.exitFlag = false) :
    ∃ rest, s.inputQueue = input :: rest ∧ t = { s with inputQueue := rest } := by
  rw [popFirst] at taken
  split at taken
  · next first rest queue =>
      cases taken
      exact ⟨rest, queue, rfl⟩
  · rw [going] at taken
    cases taken

/-- A command that has got one more answer, or has just begun. -/
theorem follows_parse {input : String} {start : UiState}
    (lines : typed = popped ++ (s.inputQueue ++ s.cin))
    (commands : Commands world stof { ui with answers := popped } s.count
      { start with answers := input :: start.answers })
    (command : isExit input = false) (lt : s.count < popped.length) (going : s.exitFlag = false)
    (spent : (left (UiParser.parse (world s.count) stof input start)).answers = []) :
    Follows world stof ui typed popped (parse world stof s input start) := by
  rw [parse]
  cases run : UiParser.parse (world s.count) stof input start with
  | ok a u =>
      rw [run] at spent
      have ready : Stands world stof { ui with answers := popped } (s.count + 1) .ready u :=
        .ready (.step commands rfl command run) spent
      refine ⟨lines, ?_, lt, fun other => ?_, nofun, fun left => ?_⟩
      · simpa [outcome, going] using ready
      · simp [outcome, going] at other
      · simp [going] at left
  | error e u =>
      cases e with
      | waiting =>
          refine ⟨lines, .waiting commands rfl command run, lt.le, fun _ => lt, ?_, fun left => ?_⟩
          · rintro _ _ ⟨⟩
            exact ⟨commands, command, run⟩
          · simp [going] at left
      | thrown e =>
          refine ⟨lines, .terminated commands rfl command run, lt.le, fun _ => lt, nofun,
            fun left => ?_⟩
          simp [going] at left

theorem Follows.inputStep (follows : Follows world stof ui typed popped s)
    (step : s.inputStep = some t) : Follows world stof ui typed popped t := by
  rw [NonBlockingInput.inputStep] at step
  split at step
  · cases step
    exact ⟨follows.lines, follows.stands, follows.count_le, follows.count_lt, follows.asking,
      follows.leaving⟩
  · split at step
    · next input cin inside =>
        cases step
        refine ⟨?_, follows.stands, follows.count_le, follows.count_lt, follows.asking,
          follows.leaving⟩
        rw [follows.lines, inside]
        simp
    · split at step
      · cases step
        exact ⟨follows.lines, follows.stands, follows.count_le, follows.count_lt, follows.asking,
          follows.leaving⟩
      · cases step
  · cases step

/-- `main` goes on without a command. -/
theorem Follows.move (follows : Follows world stof ui typed popped s) {main : MainPoint}
    (same : outcome { s with main } = s.outcome)
    (none : ∀ input start, main ≠ .asking input start)
    (leaving : s.exitFlag = true → main = .testingExit ∨ main = .ended) :
    Follows world stof ui typed popped { s with main } := by
  refine ⟨follows.lines, ?_, follows.count_le, ?_, fun input start asks => ?_, leaving⟩
  · rw [same]
    exact follows.stands
  · rw [same]
    exact follows.count_lt
  · exact absurd asks (none input start)

theorem Follows.going (follows : Follows world stof ui typed popped s)
    (exit : s.main ≠ .testingExit) (ended : s.main ≠ .ended) : s.exitFlag = false := by
  rw [Bool.eq_false_iff]
  intro left
  exact (follows.leaving left).elim exit ended

/-- The line taken between two commands. -/
theorem Follows.begin (follows : Follows world stof ui typed popped s)
    (between : s.main = .processing) (step : s.mainStep world stof = some t) :
    ∃ popped, Follows world stof ui typed popped t := by
  have going := follows.going (by simp [between]) (by simp [between])
  obtain ⟨commands, none⟩ : Commands world stof { ui with answers := popped } s.count s.ui ∧
      s.ui.answers = [] := by
    have ready : s.outcome = .ready := by simp [outcome, between, going]
    have stands := follows.stands
    rw [ready] at stands
    cases stands with
    | ready commands none => exact ⟨commands, none⟩
  rw [NonBlockingInput.mainStep, between] at step
  dsimp only at step
  split at step
  · cases step
    refine ⟨popped, follows.move (by simp [outcome, between]) nofun fun _ => .inl rfl⟩
  · obtain ⟨⟨input, s'⟩, taken, step⟩ := Option.bind_eq_some_iff.mp step
    obtain ⟨rest, queue, rfl⟩ := popFirst_eq taken going
    have lines : typed = (popped ++ [input]) ++ (rest ++ s.cin) := by
      rw [follows.lines, queue]
      simp
    have longer : Commands world stof { ui with answers := popped ++ [input] } s.count
        { s.ui with answers := input :: s.ui.answers } := by
      have fed := commands.feed [input]
      simpa [UiParser.answering, none] using fed
    have lt : s.count < (popped ++ [input]).length := by
      rw [List.length_append]
      exact Nat.lt_succ_of_le follows.count_le
    refine ⟨popped ++ [input], ?_⟩
    split at step
    · next exits =>
        cases step
        have stands := Stands.left longer rfl exits
        exact ⟨lines, stands, lt.le, fun _ => lt, nofun, fun _ => .inl rfl⟩
    · next other =>
        cases step
        exact follows_parse lines longer (Bool.eq_false_iff.mpr other) lt going
          ((UiParser.fed_parse (world s.count) stof input).empty s.ui none)

theorem Follows.mainStep (follows : Follows world stof ui typed popped s)
    (step : s.mainStep world stof = some t) :
    ∃ popped, Follows world stof ui typed popped t := by
  cases point : s.main with
  | testingExit =>
      rw [NonBlockingInput.mainStep, point] at step
      cases step
      refine ⟨popped, follows.move ?_ ?_ fun left => .inr (if_pos left)⟩
      · cases left : s.exitFlag <;> simp [outcome, point, left]
      · cases s.exitFlag <;> nofun
  | processing => exact follows.begin point step
  | asking input start =>
      have going := follows.going (by simp [point]) (by simp [point])
      obtain ⟨commands, command, run⟩ := follows.asking input start point
      rw [NonBlockingInput.mainStep, point] at step
      obtain ⟨⟨answer, s'⟩, taken, step⟩ := Option.bind_eq_some_iff.mp step
      obtain ⟨rest, queue, rfl⟩ := popFirst_eq taken going
      cases step
      have lines : typed = (popped ++ [answer]) ++ (rest ++ s.cin) := by
        rw [follows.lines, queue]
        simp
      have lt : s.count < (popped ++ [answer]).length := by
        rw [List.length_append]
        exact Nat.lt_succ_of_le follows.count_le
      exact ⟨popped ++ [answer], follows_parse lines (commands.feed [answer]) command lt going
        ((UiParser.fed_parse (world s.count) stof input).taken answer run rfl)⟩
  | ended =>
      rw [NonBlockingInput.mainStep, point] at step
      cases step
  | terminated e =>
      rw [NonBlockingInput.mainStep, point] at step
      cases step

theorem follows_of_run {h : List (ConsoleEvent × NonBlockingInput)} (fresh : ui.answers = [])
    (run : Run (ConsoleStep world stof) { ui } h s) :
    ∃ popped, Follows world stof ui (emitted ConsoleEvent.line h) popped s := by
  induction run with
  | nil =>
      have start : { ui with answers := [] } = ui := by rw [← fresh]
      refine ⟨[], rfl, .ready ?_ fresh, Nat.le_refl 0, fun other => absurd rfl other, nofun, nofun⟩
      rw [start]
      exact .nil
  | @step h s l t _ last ih =>
      obtain ⟨popped, follows⟩ := ih
      have lines (quiet : l.line = []) :
          emitted ConsoleEvent.line ((l, t) :: h) = emitted ConsoleEvent.line h := by
        rw [emitted, quiet, List.append_nil]
      cases last with
      | typed more =>
          refine ⟨popped, ?_, follows.stands, follows.count_le, follows.count_lt, follows.asking,
            follows.leaving⟩
          rw [emitted, follows.lines]
          simp [ConsoleEvent.line]
      | eof =>
          rw [lines rfl]
          exact ⟨popped, follows.lines, follows.stands, follows.count_le, follows.count_lt,
            follows.asking, follows.leaving⟩
      | inputLoop alive step =>
          rw [lines rfl]
          exact ⟨popped, follows.inputStep step⟩
      | main step =>
          rw [lines rfl]
          exact follows.mainStep step

end Follows

/-- Whatever the user types and however the threads take turns: no line is lost, handled twice
or out of its order, and the calls made are the first ones of the whole script's. They are all
of them once every line was taken or the script has come to its end. -/
theorem calls_of_script {ui : UiState} {h : List (ConsoleEvent × NonBlockingInput)}
    {s : NonBlockingInput} (fresh : ui.answers = [])
    (run : Run (ConsoleStep world stof) { ui } h s) :
    s.ui.calls <+: (script world stof ui (emitted ConsoleEvent.line h)).2.calls ∧
      (∃ popped, emitted ConsoleEvent.line h = popped ++ (s.inputQueue ++ s.cin) ∧
        script world stof ui popped = (s.outcome, s.ui)) ∧
      (s.outcome.Final → (script world stof ui (emitted ConsoleEvent.line h)).1 = s.outcome ∧
        (script world stof ui (emitted ConsoleEvent.line h)).2.calls = s.ui.calls) := by
  obtain ⟨popped, follows⟩ := follows_of_run fresh run
  have fuel : popped.length ≤ (emitted ConsoleEvent.line h).length := by
    rw [follows.lines, List.length_append]
    exact Nat.le_add_right _ _
  have fed : ({ ui with answers := emitted ConsoleEvent.line h } : UiState)
      = UiParser.answering.feed (s.inputQueue ++ s.cin) { ui with answers := popped } := by
    rw [follows.lines]
    rfl
  refine ⟨?_, ⟨popped, follows.lines, ?_⟩, fun final => ?_⟩
  · rw [script, fed]
    exact follows.stands.calls_feed _ (fun _ => follows.count_le.trans fuel)
      fun other => (follows.count_lt other).trans_le fuel
  · exact follows.stands.session_eq (fun _ => follows.count_le) follows.count_lt
  · have other : s.outcome ≠ .ready := by
      intro ready
      simp [ScriptEnd.Final, ready] at final
    have ends := follows.stands.final final ((follows.count_lt other).trans_le fuel)
      (s.inputQueue ++ s.cin)
    rw [script, fed, ends]
    exact ⟨rfl, rfl⟩

end Main

/-- The command waits until its answer is typed. -/
theorem calls_of_script_reset : ∃ h s, Run (ConsoleStep (fun _ => {}) UiParser.noFloat) {} h s ∧
    emitted ConsoleEvent.line h = ["r", "3", "q"] ∧ s.ui.calls = [.devReset 3, .close] ∧
    (script (fun _ => {}) UiParser.noFloat {} ["r", "3", "q"]).2.calls = s.ui.calls := by
  have asks : Run (ConsoleStep (fun _ => {}) UiParser.noFloat) {} _ _ := Run.nil
    |>.step (.typed rfl : ConsoleStep _ _ _ (.typed "r") _)
    |>.step (.inputLoop (by rintro ⟨_, ⟨⟩⟩) rfl)
    |>.step (.inputLoop (by rintro ⟨_, ⟨⟩⟩) rfl)
    |>.step (.main rfl)
    |>.step (.main rfl)
  have run := asks
    |>.step (.typed rfl : ConsoleStep _ _ _ (.typed "3") _)
    |>.step (.typed rfl : ConsoleStep _ _ _ (.typed "q") _)
    |>.step (.inputLoop (by rintro ⟨_, ⟨⟩⟩) rfl)
    |>.step (.inputLoop (by rintro ⟨_, ⟨⟩⟩) rfl)
    |>.step (.main rfl)
    |>.step (.inputLoop (by rintro ⟨_, ⟨⟩⟩) rfl)
    |>.step (.inputLoop (by rintro ⟨_, ⟨⟩⟩) rfl)
    |>.step (.main rfl)
  have same := (calls_of_script (fun _ => {}) UiParser.noFloat rfl run).2.2 (.inl rfl)
  exact ⟨_, _, run, rfl, rfl, same.2⟩

end NonBlockingInput

end Lra
