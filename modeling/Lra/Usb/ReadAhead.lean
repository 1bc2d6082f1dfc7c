import Lra.Effect.Transition
import Lra.Usb.LineReader

/-!
# Reading ahead

The thread of `AsynchronousReader` reads the next block of a command file while the lines of
the blocks before it are handed out. Both threads hold the lock where they look at what was
asked for and what has arrived, so each such part is one step, and so is the work of
`next_line` between two of them, which keeps to the first two blocks. A waiting thread wakes
up when it is notified, or without a reason.

In any order of the steps the lines are handed out as if each block was read when it is
needed, and no call is left waiting.
-/

namespace Lra

open Effect Text

inductive WorkerPoint where
  /-- It tests what it waits for. -/
  | testing
  /-- In `read_requested_condition.wait`. -/
  | waiting
  | ended
  deriving DecidableEq

/-- Where the thread is that owns the line reader. -/
inductive OwnerPoint where
  /-- The thread is started, and the first block is to be asked for. -/
  | constructing
  | outside
  /-- `finish_read` tests what it waits for. -/
  | finishing
  /-- In `read_finished_condition.wait`. -/
  | waiting
  /-- Behind `finish_read`. -/
  | copying
  /-- Before `start_read`. -/
  | starting
  /-- In the part of `next_line` that takes a line. -/
  | taking
  | failed (e : CsvError)
  /-- In the destructor, with `termination_requested` set. -/
  | notifying
  | joining
  | gone
  deriving DecidableEq

def WorkerPoint.notified : WorkerPoint → WorkerPoint
  | .waiting => .testing
  | point => point

def OwnerPoint.notified : OwnerPoint → OwnerPoint
  | .waiting => .finishing
  | point => point

/-- A line reader with its `AsynchronousReader`: `lines.reader` only says whether there is
one, and `byteSource` is what it has not read of the file. -/
structure ReadAhead where
  lines : LineReader
  byteSource : List UInt8
  desiredByteCount : Option Nat := none
  readByteCount : Option Nat := none
  terminationRequested : Bool := false
  worker : WorkerPoint
  owner : OwnerPoint

namespace ReadAhead

open LineReader

inductive Label where
  | constructed
  /-- `next_line` is called, and there are lines. -/
  | call
  /-- `next_line` returns a null pointer. -/
  | null
  | finished
  | sleep
  | copied
  | started
  | line (line : List UInt8)
  | fail
  | worker
  /-- The destructor is called. -/
  | terminate
  | notify
  | join
  /-- Spurious wakeups. -/
  | wakeOwner
  | wakeWorker

section Code

variable (blockLen : Nat)

/-- The constructor up to the first `start_read`. -/
def begin (fresh file : List UInt8) : ReadAhead :=
  let r := init blockLen fresh file
  match r.reader with
  | none => { lines := r, byteSource := [], worker := .ended, owner := .outside }
  | some left =>
    { lines := { r with reader := some [] }, byteSource := left, worker := .testing,
      owner := .constructing }

def startRead (s : ReadAhead) : ReadAhead :=
  { s with
    desiredByteCount := some blockLen
    readByteCount := none
    worker := s.worker.notified }

/-- The first block is used up. -/
def shift (r : LineReader) : LineReader :=
  { r with
    buffer := memcpy r.buffer 0 blockLen blockLen
    dataBegin := r.dataBegin - blockLen
    dataEnd := r.dataEnd - blockLen }

/-- `next_line` up to `finish_read`, or to the search for the line. -/
def enter (s : ReadAhead) : ReadAhead :=
  let r := { s.lines with fileLine := s.lines.fileLine + 1 }
  if r.dataBegin ≥ blockLen then
    { s with
      lines := shift blockLen r
      owner := if r.reader.isSome then .finishing else .taking }
  else { s with lines := r, owner := .taking }

/-- The worker with the lock, until it waits again or ends. After a read there is nothing
else to do: it is the first to know, and the lock was never released. -/
def work (s : ReadAhead) : ReadAhead :=
  if s.terminationRequested then { s with worker := .ended }
  else
    match s.desiredByteCount with
    | none => { s with worker := .waiting }
    | some n =>
      let bytes := s.byteSource.take n
      { s with
        lines := { s.lines with buffer := store s.lines.buffer (2 * blockLen) bytes }
        byteSource := s.byteSource.drop n
        desiredByteCount := none
        readByteCount := some bytes.length
        worker := if bytes = [] then .ended else .waiting
        owner := s.owner.notified }

/-- Where the destructor may be called. -/
def Idle (s : ReadAhead) : Prop := s.owner = .outside ∨ ∃ e, s.owner = .failed e

inductive Step : ReadAhead → Label → ReadAhead → Prop where
  | constructed {s} : s.owner = .constructing →
      Step s .constructed { s.startRead blockLen with owner := .outside }
  | call {s} : s.owner = .outside → s.lines.dataBegin ≠ s.lines.dataEnd →
      Step s .call (s.enter blockLen)
  | null {s} : s.owner = .outside → s.lines.dataBegin = s.lines.dataEnd → Step s .null s
  | finished {s n} : s.owner = .finishing → s.readByteCount = some n →
      Step s .finished { s with
        lines := { s.lines with dataEnd := s.lines.dataEnd + n }
        owner := .copying }
  | sleep {s} : s.owner = .finishing → s.readByteCount = none →
      Step s .sleep { s with owner := .waiting }
  | copied {s} : s.owner = .copying →
      Step s .copied { s with
        lines := { s.lines with
          buffer := memcpy s.lines.buffer blockLen (2 * blockLen) blockLen }
        owner := .starting }
  | started {s} : s.owner = .starting →
      Step s .started { s.startRead blockLen with owner := .taking }
  | line {s line r} : s.owner = .taking → takeLine blockLen s.lines = .ok (line, r) →
      Step s (.line line) { s with lines := r, owner := .outside }
  | fail {s e} : s.owner = .taking → takeLine blockLen s.lines = .error e →
      Step s .fail { s with owner := .failed e }
  | worker {s} : s.worker = .testing → Step s .worker (s.work blockLen)
  | terminate {s} : s.Idle → Step s .terminate
      (if s.lines.reader.isSome then { s with terminationRequested := true, owner := .notifying }
        else { s with owner := .gone })
  | notify {s} : s.owner = .notifying →
      Step s .notify { s with worker := s.worker.notified, owner := .joining }
  | join {s} : s.owner = .joining → s.worker = .ended → Step s .join { s with owner := .gone }
  | wakeOwner {s} : s.owner = .waiting → Step s .wakeOwner { s with owner := .finishing }
  | wakeWorker {s} : s.worker = .waiting → Step s .wakeWorker { s with worker := .testing }

end Code

/-! ### The two blocks in use -/

section Blocks

variable {blockLen : Nat} {r r' : LineReader} {line : List UInt8}

/-- The line is taken in the first two blocks, and the data end where they ended or with it. -/
theorem takeLine_frame (valid : r.Valid blockLen) (low : r.dataBegin < blockLen)
    (taken : r.takeLine blockLen = .ok (line, r')) :
    r'.buffer.drop (2 * blockLen) = r.buffer.drop (2 * blockLen) ∧
      (r'.dataEnd = r.dataEnd ∨ r'.dataBegin = r'.dataEnd) := by
  obtain ⟨pre, first, c, tail, next⟩ := exists_next valid (by omega)
  have length := next.length
  rcases Nat.lt_or_ge first.length blockLen with short | long
  · obtain ⟨out, outLength, same⟩ := takeLine_short next short
    rw [taken] at same
    obtain ⟨-, rfl⟩ := Prod.mk.inj (Except.ok.inj same)
    have beyond : (pre ++ out).length ≤ 2 * blockLen := by
      rw [List.length_append]
      omega
    have front : (pre ++ (first ++ [c])).length = (pre ++ out).length := by
      simp only [List.length_append, List.length_singleton]
      omega
    refine ⟨?_, ?_⟩
    · have before : r.buffer = (pre ++ (first ++ [c])) ++ tail := by
        rw [next.buffer]
        simp
      have behind (front : List UInt8) (inside : front.length ≤ 2 * blockLen) :
          (front ++ tail).drop (2 * blockLen) = tail.drop (2 * blockLen - front.length) := by
        rw [List.drop_append, List.drop_eq_nil_of_le inside, List.nil_append]
      rw [before, ← List.append_assoc, behind _ beyond, behind _ (front.le.trans beyond), front]
    · dsimp only
      split
      · exact .inl rfl
      · next other =>
          have used := next.ends.resolve_left other
          exact .inr (congrArg (· + 1) used)
  · rw [takeLine_long next long] at taken
    cases taken

theorem reader_of_takeLine (taken : r.takeLine blockLen = .ok (line, r')) :
    r'.reader = r.reader := by
  simp only [takeLine] at taken
  split at taken
  · cases taken
  · obtain ⟨-, rfl⟩ := Prod.mk.inj (Except.ok.inj taken)
    rfl

/-- What is left of the file plays no part in it. -/
theorem takeLine_reader (r : LineReader) (reader : Option (List UInt8)) :
    takeLine blockLen { r with reader }
      = (takeLine blockLen r).map fun taken => (taken.1, { taken.2 with reader }) := by
  simp only [takeLine]
  split
  · rfl
  · rfl

section Store

variable {buffer bytes : List UInt8}

theorem length_store (length : buffer.length = 3 * blockLen) (fits : bytes.length ≤ blockLen) :
    (store buffer (2 * blockLen) bytes).length = 3 * blockLen := by
  simp only [store, List.length_append, List.length_take, List.length_drop]
  omega

theorem take_store (length : buffer.length = 3 * blockLen) (bytes : List UInt8) :
    (store buffer (2 * blockLen) bytes).take (2 * blockLen) = buffer.take (2 * blockLen) := by
  have front : (buffer.take (2 * blockLen)).length = 2 * blockLen := by
    rw [List.length_take]
    omega
  rw [store, List.append_assoc, List.take_left' front]

theorem drop_store (length : buffer.length = 3 * blockLen) (bytes : List UInt8) :
    ((store buffer (2 * blockLen) bytes).drop (2 * blockLen)).take bytes.length = bytes := by
  have front : (buffer.take (2 * blockLen)).length = 2 * blockLen := by
    rw [List.length_take]
    omega
  rw [store, List.append_assoc, List.drop_left' front, List.take_left]

/-- Bytes that are there may be stored again. -/
theorem store_self (there : (buffer.drop (2 * blockLen)).take bytes.length = bytes) :
    store buffer (2 * blockLen) bytes = buffer := by
  have parts := List.take_append_drop bytes.length (buffer.drop (2 * blockLen))
  rw [there, List.drop_drop] at parts
  rw [store, List.append_assoc, parts, List.take_append_drop]

end Store

/-- Behind the first two blocks the buffer is of no importance. -/
theorem valid_of_take (valid : r.Valid blockLen) {buffer : List UInt8}
    (length : buffer.length = 3 * blockLen)
    (same : buffer.take (2 * blockLen) = r.buffer.take (2 * blockLen)) :
    Valid blockLen { r with buffer } ∧ rest { r with buffer } = r.rest := by
  refine ⟨⟨length, valid.le, valid.dataEnd_le, valid.full⟩, ?_⟩
  have front : buffer.take r.dataEnd = r.buffer.take r.dataEnd := by
    have inside := valid.dataEnd_le
    rw [← Nat.min_eq_left inside, ← List.take_take, same, List.take_take]
  rw [rest, rest, window, window]
  dsimp only
  rw [front]
  rfl

end Blocks

/-! ### What is kept -/

section Places

variable (blockLen : Nat)

/-- The line reader with what is left of the file. -/
def view (s : ReadAhead) (left : List UInt8) : LineReader := { s.lines with reader := some left }

/-- The next block is asked for, or has arrived behind the first two. -/
inductive Asked (s : ReadAhead) (left : List UInt8) : Prop where
  | pending : s.desiredByteCount = some blockLen → s.readByteCount = none →
      s.byteSource = left → Asked s left
  | answered : s.desiredByteCount = none →
      s.readByteCount = some (left.take blockLen).length → s.byteSource = left.drop blockLen →
      (s.lines.buffer.drop (2 * blockLen)).take (left.take blockLen).length
        = left.take blockLen → Asked s left

/-- Between two refills. When the worker has ended there will be no other one, or its answer
is there. -/
structure Between (s : ReadAhead) (left : List UInt8) : Prop where
  reader : s.lines.reader = some []
  asked : Asked blockLen s left
  drained : s.worker = .ended → left = [] ∧ (s.readByteCount = none →
    s.lines.dataEnd ≤ blockLen ∨ s.lines.dataBegin = s.lines.dataEnd)

/-- In a refill of `v`. -/
structure Refilling (s : ReadAhead) (v : LineReader) (left : List UInt8) : Prop where
  reader : s.lines.reader = some []
  pending : v.reader = some left
  valid : v.Valid blockLen
  used : blockLen ≤ v.dataBegin
  more : v.dataBegin < v.dataEnd
  drained : s.worker = .ended → left = []

/-- The first part of a refill, in which the next block may arrive. -/
def shifted (v : LineReader) (left : List UInt8) (arrived : Bool) : LineReader :=
  let r := shift blockLen v
  { r with
    buffer := if arrived then store r.buffer (2 * blockLen) (left.take blockLen) else r.buffer
    reader := some [] }

/-- The line being looked for, and the lines behind it. -/
def current (v : LineReader) : List (UInt32 × List UInt8) :=
  (v.fileLine, upTo newline v.rest) ::
    numbered v.fileLine (records newline (after newline v.rest))

/-- The lines still to come, by the place of the owner. -/
inductive Place (s : ReadAhead) : List (UInt32 × List UInt8) → Prop where
  | constructing {left lines} : s.owner = .constructing → s.lines.reader = some [] →
      s.desiredByteCount = none → s.byteSource = left → s.worker ≠ .ended →
      (s.view left).Holds blockLen lines → Place s lines
  | outside {left lines} : s.owner = .outside → Between blockLen s left →
      (s.view left).Holds blockLen lines → Place s lines
  | fetching {v left} : s.owner = .finishing ∨ s.owner = .waiting ∧ s.readByteCount = none →
      Refilling blockLen s v left → Asked blockLen s left →
      s.lines = shifted blockLen v left s.readByteCount.isSome →
      (s.worker = .ended → s.readByteCount ≠ none) → Place s (current v)
  | copying {v left} : s.owner = .copying → Refilling blockLen s v left →
      s.desiredByteCount = none → s.byteSource = left.drop blockLen →
      s.lines = { shifted blockLen v left true with
        dataEnd := v.dataEnd - blockLen + (left.take blockLen).length } → Place s (current v)
  | starting {v left} : s.owner = .starting → Refilling blockLen s v left →
      s.desiredByteCount = none → s.byteSource = left.drop blockLen →
      s.view (left.drop blockLen) = v.refill blockLen → Place s (current v)
  | taking {left} : s.owner = .taking → Between blockLen s left →
      (s.view left).Valid blockLen → (s.view left).rest ≠ [] → s.lines.dataBegin < blockLen →
      Place s (current (s.view left))
  | bare {lines} : s.owner = .outside → s.lines.reader = none → s.worker = .ended →
      s.lines.Holds blockLen lines → Place s lines
  | bareTaking : s.owner = .taking → s.lines.reader = none → s.worker = .ended →
      s.lines.Valid blockLen → s.lines.rest ≠ [] → s.lines.dataBegin < blockLen →
      Place s (current s.lines)
  | failed {e line lines} : s.owner = .failed e → lineOf blockLen line = .error e →
      Place s (line :: lines)
  | leaving {lines} : s.owner = .notifying ∨ s.owner = .joining ∨ s.owner = .gone → Place s lines

/-- What is asked of the worker when it sleeps, and who asks it to end. -/
structure Control (s : ReadAhead) : Prop where
  sleeping : s.worker = .waiting → s.desiredByteCount = none ∧
    (s.terminationRequested = true → s.owner = .notifying)
  asks : s.terminationRequested = true →
    s.owner = .notifying ∨ s.owner = .joining ∨ s.owner = .gone
  asked : s.owner = .notifying ∨ s.owner = .joining → s.terminationRequested = true

end Places

section Control

variable {blockLen : Nat} {s t : ReadAhead} {l : Label}

theorem notified_ne_waiting (point : WorkerPoint) : point.notified ≠ .waiting := by
  cases point <;> nofun

theorem ended_of_notified {point : WorkerPoint} (ended : point.notified = .ended) :
    point = .ended := by
  cases point with
  | ended => rfl
  | testing | waiting => cases ended

/-- The owner has not begun to leave. -/
def Inside (s : ReadAhead) : Prop :=
  s.owner ≠ .notifying ∧ s.owner ≠ .joining ∧ s.owner ≠ .gone

theorem Control.quiet (control : Control s) (inside : s.Inside) :
    s.terminationRequested = false := by
  rw [Bool.eq_false_iff]
  intro asked
  rcases control.asks asked with there | there | there
  · exact inside.1 there
  · exact inside.2.1 there
  · exact inside.2.2 there

theorem control_of_quiet (quiet : s.terminationRequested = false) (inside : s.Inside)
    (sleeping : s.worker = .waiting → s.desiredByteCount = none) : Control s := by
  refine ⟨fun asleep => ⟨sleeping asleep, fun asked => ?_⟩, fun asked => ?_, fun leaving => ?_⟩
  · rw [quiet] at asked
    cases asked
  · rw [quiet] at asked
    cases asked
  · exact (leaving.elim inside.1 inside.2.1).elim

theorem control_work (control : Control s) : Control (s.work blockLen) := by
  rw [work]
  split
  · exact ⟨nofun, control.asks, control.asked⟩
  · next going =>
      have quiet : s.terminationRequested = false := Bool.eq_false_iff.mpr going
      have inside : s.owner ≠ .notifying ∧ s.owner ≠ .joining :=
        ⟨fun here => going (control.asked (.inl here)),
          fun here => going (control.asked (.inr here))⟩
      split
      · next desired =>
          exact ⟨fun _ => ⟨desired, fun asked => absurd asked going⟩, control.asks, control.asked⟩
      · next n _ =>
          refine ⟨fun _ => ⟨rfl, fun asked => absurd asked going⟩, fun asked => absurd asked going,
            fun leaving => ?_⟩
          cases point : s.owner <;> simp_all [OwnerPoint.notified]

/-- Nobody sleeps through what is asked of him. -/
theorem Control.step (control : Control s) (step : Step blockLen s l t) : Control t := by
  have asleep (waiting : s.worker = .waiting) : s.desiredByteCount = none :=
    (control.sleeping waiting).1
  cases step with
  | constructed here =>
      have inside : s.Inside := by simp [Inside, here]
      exact control_of_quiet (control.quiet inside) (by simp [Inside])
        fun waiting => absurd waiting (notified_ne_waiting _)
  | started here =>
      have inside : s.Inside := by simp [Inside, here]
      exact control_of_quiet (control.quiet inside) (by simp [Inside])
        fun waiting => absurd waiting (notified_ne_waiting _)
  | call here _ =>
      have inside : s.Inside := by simp [Inside, here]
      rw [enter]
      dsimp only
      split
      · refine control_of_quiet (control.quiet inside) ?_ asleep
        dsimp only [Inside]
        split <;> simp
      · exact control_of_quiet (control.quiet inside) (by simp [Inside]) asleep
  | null _ _ => exact control
  | finished here _ | sleep here _ | copied here | line here _ | fail here _ =>
      have inside : s.Inside := by simp [Inside, here]
      exact control_of_quiet (control.quiet inside) (by simp [Inside]) asleep
  | wakeOwner here =>
      have inside : s.Inside := by simp [Inside, here]
      exact control_of_quiet (control.quiet inside) (by simp [Inside]) asleep
  | worker _ => exact control_work control
  | terminate idle =>
      have inside : s.Inside := by
        rcases idle with here | ⟨e, here⟩ <;> simp [Inside, here]
      split
      · exact ⟨fun waiting => ⟨asleep waiting, fun _ => rfl⟩, fun _ => .inl rfl, fun _ => rfl⟩
      · exact ⟨fun waiting => ⟨asleep waiting, fun asked => absurd asked
          (by simp [control.quiet inside])⟩, fun _ => .inr (.inr rfl), by simp⟩
  | notify here =>
      exact ⟨fun waiting => absurd waiting (notified_ne_waiting _), fun _ => .inr (.inl rfl),
        fun _ => control.asked (.inl here)⟩
  | join here ended =>
      exact ⟨fun waiting => by simp [ended] at waiting, fun _ => .inr (.inr rfl), by simp⟩
  | wakeWorker _ => exact ⟨nofun, control.asks, control.asked⟩

end Control

section Worker

variable {blockLen : Nat} {s : ReadAhead} {left : List UInt8}
  {lines : List (UInt32 × List UInt8)}

/-- An answer with the next block. -/
def answer (blockLen : Nat) (s : ReadAhead) (left : List UInt8) : ReadAhead :=
  { s with
    lines := { s.lines with
      buffer := store s.lines.buffer (2 * blockLen) (left.take blockLen) }
    byteSource := left.drop blockLen
    desiredByteCount := none
    readByteCount := some (left.take blockLen).length
    worker := if left.take blockLen = [] then .ended else .waiting
    owner := s.owner.notified }

theorem work_of_none (going : s.terminationRequested = false) (none : s.desiredByteCount = none) :
    s.work blockLen = { s with worker := .waiting } := by
  rw [work, if_neg (by simp [going]), none]

theorem work_of_some (going : s.terminationRequested = false)
    (some : s.desiredByteCount = some blockLen) (source : s.byteSource = left) :
    s.work blockLen = s.answer blockLen left := by
  subst source
  rw [work, if_neg (by simp [going]), some]
  rfl

theorem eq_nil_of_take (two : 0 < blockLen) (none : left.take blockLen = []) : left = [] := by
  rcases List.take_eq_nil_iff.mp none with zero | none
  · omega
  · exact none

theorem asked_answer (length : s.lines.buffer.length = 3 * blockLen) :
    Asked blockLen (s.answer blockLen left) left :=
  .answered rfl rfl rfl (drop_store length _)

theorem over_answer (two : 0 < blockLen) (ended : (s.answer blockLen left).worker = .ended) :
    left = [] := by
  refine eq_nil_of_take two ?_
  by_contra some
  simp [answer, some] at ended

theorem Between.answer (two : 0 < blockLen) (between : Between blockLen s left)
    (length : s.lines.buffer.length = 3 * blockLen) :
    Between blockLen (s.answer blockLen left) left :=
  ⟨between.reader, asked_answer length, fun ended => ⟨over_answer two ended, nofun⟩⟩

/-- The answer is behind the two blocks in use. -/
theorem view_answer (valid : (s.view left).Valid blockLen) :
    ((s.answer blockLen left).view left).Valid blockLen ∧
      ((s.answer blockLen left).view left).rest = (s.view left).rest :=
  valid_of_take valid (length_store valid.length (List.length_take_le ..))
    (take_store valid.length _)

theorem Asked.congr {t : ReadAhead} (asked : Asked blockLen s left)
    (desired : t.desiredByteCount = s.desiredByteCount)
    (count : t.readByteCount = s.readByteCount) (source : t.byteSource = s.byteSource)
    (behind : t.lines.buffer.drop (2 * blockLen) = s.lines.buffer.drop (2 * blockLen)) :
    Asked blockLen t left := by
  cases asked with
  | pending h₁ h₂ h₃ => exact .pending (desired.trans h₁) (count.trans h₂) (source.trans h₃)
  | answered h₁ h₂ h₃ h₄ =>
      exact .answered (desired.trans h₁) (count.trans h₂) (source.trans h₃) (behind ▸ h₄)

theorem Refilling.congr {t : ReadAhead} {v : LineReader} (now : Refilling blockLen s v left)
    (reader : t.lines.reader = s.lines.reader)
    (drained : t.worker = .ended → left = []) : Refilling blockLen t v left :=
  ⟨reader.trans now.reader, now.pending, now.valid, now.used, now.more, drained⟩

/-- Whether the worker sleeps makes no difference. -/
theorem Place.alive (place : Place blockLen s lines) (alive : s.worker ≠ .ended)
    {worker : WorkerPoint} (still : worker ≠ .ended) :
    Place blockLen { s with worker } lines := by
  cases place with
  | constructing here reader desired source _ holds =>
      exact .constructing here reader desired source still holds
  | outside here between holds =>
      have asked := between.asked.congr (t := { s with worker }) rfl rfl rfl rfl
      exact .outside here ⟨between.reader, asked, fun ended => absurd ended still⟩ holds
  | fetching here now asked lines _ =>
      have asked := asked.congr (t := { s with worker }) rfl rfl rfl rfl
      exact .fetching here (now.congr rfl fun ended => absurd ended still) asked lines
        fun ended => absurd ended still
  | copying here now desired source lines =>
      exact .copying here (now.congr rfl fun ended => absurd ended still) desired source lines
  | starting here now desired source refill =>
      exact .starting here (now.congr rfl fun ended => absurd ended still) desired source refill
  | taking here between valid more low =>
      have asked := between.asked.congr (t := { s with worker }) rfl rfl rfl rfl
      exact .taking (s := { s with worker }) here
        ⟨between.reader, asked, fun ended => absurd ended still⟩ valid more low
  | bare _ _ ended _ => exact absurd ended alive
  | bareTaking _ _ ended _ _ _ => exact absurd ended alive
  | failed here long => exact .failed here long
  | leaving here => exact .leaving here

/-- The first block's memory is as long as before, and the third one's is the same. -/
theorem memcpy_frame {buffer : List UInt8} (length : buffer.length = 3 * blockLen) :
    (memcpy buffer 0 blockLen blockLen).length = 3 * blockLen ∧
      (memcpy buffer 0 blockLen blockLen).drop (2 * blockLen) = buffer.drop (2 * blockLen) := by
  obtain ⟨a, b, c, rfl, ha, hb, hc⟩ := exists_blocks length
  rw [memcpy_first ha hb]
  constructor
  · simp only [List.length_append]
    omega
  · have first : (b ++ b).length = 2 * blockLen := by
      rw [List.length_append]
      omega
    have second : (a ++ b).length = 2 * blockLen := by
      rw [List.length_append]
      omega
    rw [← List.append_assoc, ← List.append_assoc, List.drop_left' first, List.drop_left' second]

/-- The owner stays where it is, or is woken up. -/
theorem owner_work (blockLen : Nat) (s : ReadAhead) :
    (s.work blockLen).owner = s.owner ∨ (s.work blockLen).owner = s.owner.notified := by
  rw [work]
  split
  · exact .inl rfl
  · split
    · exact .inl rfl
    · exact .inr rfl

/-- A step of the worker leaves the lines that are still to come. -/
theorem place_work (two : 0 < blockLen) (control : Control s) (testing : s.worker = .testing)
    (place : Place blockLen s lines) : Place blockLen (s.work blockLen) lines := by
  have alive : s.worker ≠ .ended := by simp [testing]
  cases asked : s.terminationRequested with
  | true =>
      have leaving := control.asks asked
      have same : s.work blockLen = { s with worker := .ended } := by
        rw [work, if_pos asked]
      rw [same]
      exact .leaving leaving
  | false =>
      have sleeps (none : s.desiredByteCount = none) : Place blockLen (s.work blockLen) lines := by
        rw [work_of_none asked none]
        exact place.alive alive nofun
      cases place with
      | constructing _ _ desired _ _ _ => exact sleeps desired
      | copying _ _ desired _ _ => exact sleeps desired
      | starting _ _ desired _ _ => exact sleeps desired
      | bare _ _ ended _ => exact absurd ended alive
      | bareTaking _ _ ended _ _ _ => exact absurd ended alive
      | @outside left lines here between holds =>
          cases between.asked with
          | answered desired _ _ _ => exact sleeps desired
          | pending desired _ source =>
              rw [work_of_some asked desired source]
              obtain ⟨valid, rest⟩ := view_answer holds.valid
              have here : (s.answer blockLen left).owner = .outside := by
                simp [answer, here, OwnerPoint.notified]
              refine .outside here (between.answer two holds.valid.length) ⟨valid, ?_⟩
              rw [rest]
              exact holds.lines
      | @taking left here between valid more low =>
          cases between.asked with
          | answered desired _ _ _ => exact sleeps desired
          | pending desired _ source =>
              rw [work_of_some asked desired source]
              obtain ⟨valid', rest⟩ := view_answer valid
              have here : (s.answer blockLen left).owner = .taking := by
                simp [answer, here, OwnerPoint.notified]
              have same : current (s.view left) = current ((s.answer blockLen left).view left) := by
                rw [current, current, rest]
                rfl
              rw [same]
              exact .taking here (between.answer two valid.length) valid' (rest ▸ more) low
      | @fetching v left here now asked' lines answered =>
          cases asked' with
          | answered desired _ _ _ => exact sleeps desired
          | pending desired count source =>
              rw [work_of_some asked desired source]
              have woken : (s.answer blockLen left).owner = .finishing := by
                rcases here with here | ⟨here, _⟩ <;> simp [answer, here, OwnerPoint.notified]
              have moved := (memcpy_frame now.valid.length).1
              have before : s.lines.buffer = memcpy v.buffer 0 blockLen blockLen := by
                rw [lines, count]
                rfl
              have after : (s.answer blockLen left).lines = shifted blockLen v left true := by
                rw [answer, before, lines]
                rfl
              exact .fetching (.inl woken) (now.congr rfl (over_answer two))
                (asked_answer (before ▸ moved)) after nofun
      | failed here long =>
          refine .failed ?_ long
          rcases owner_work blockLen s with same | same
          · exact same.trans here
          · rw [same, here]
            rfl
      | leaving here =>
          refine .leaving ?_
          rcases owner_work blockLen s with same | same
          · rwa [same]
          · rcases here with here | here | here <;> simp [same, here, OwnerPoint.notified]

end Worker

section Owner

variable {blockLen : Nat} {s : ReadAhead} {lines : List (UInt32 × List UInt8)}

theorem current_of_holds {r : LineReader} (holds : r.Holds blockLen lines)
    (unused : r.dataBegin ≠ r.dataEnd) :
    Valid blockLen { r with fileLine := r.fileLine + 1 } ∧ r.rest ≠ [] ∧
      r.dataBegin < r.dataEnd ∧ lines = current { r with fileLine := r.fileLine + 1 } := by
  have valid := holds.valid
  have more : r.rest ≠ [] := mt (rest_eq_nil_iff valid).mp unused
  refine ⟨⟨valid.length, valid.le, valid.dataEnd_le, valid.full⟩, more,
    Nat.lt_of_le_of_ne valid.le unused, ?_⟩
  rw [holds.lines, records_of_ne_nil more]
  rfl

theorem place_constructed (place : Place blockLen s lines) (here : s.owner = .constructing) :
    Place blockLen { s.startRead blockLen with owner := .outside } lines := by
  cases place with
  | constructing _ reader desired source alive holds =>
      refine .outside rfl ⟨reader, .pending rfl rfl source, fun ended => ?_⟩ holds
      exact absurd (ended_of_notified ended) alive
  | fetching there | leaving there => simp [here] at there
  | outside there | copying there | starting there | taking there | bare there
  | bareTaking there | failed there => simp [here] at there

/-- A refill may begin when the next block has already arrived. -/
theorem shift_eq_shifted {r : LineReader} {left : List UInt8} {arrived : Bool}
    (length : r.buffer.length = 3 * blockLen) (reader : r.reader = some [])
    (there : arrived = true → (r.buffer.drop (2 * blockLen)).take (left.take blockLen).length
      = left.take blockLen) :
    shift blockLen r = shifted blockLen { r with reader := some left } left arrived := by
  cases arrived with
  | false =>
      rw [shifted, shift, reader]
      rfl
  | true =>
      have behind := (memcpy_frame length).2
      have stored : store (memcpy r.buffer 0 blockLen blockLen) (2 * blockLen)
          (left.take blockLen) = memcpy r.buffer 0 blockLen blockLen :=
        store_self (behind ▸ there rfl)
      rw [shifted, shift, shift, if_pos rfl, stored, reader]

/-- A call looks for the next line. -/
theorem place_call (place : Place blockLen s lines) (here : s.owner = .outside)
    (unused : s.lines.dataBegin ≠ s.lines.dataEnd) : Place blockLen (s.enter blockLen) lines := by
  cases place with
  | @outside left lines _ between holds =>
      obtain ⟨valid, more, lt, rfl⟩ := current_of_holds holds unused
      have reader := between.reader
      rw [enter]
      dsimp only
      split
      · next used =>
          have answered (arrived : s.readByteCount.isSome = true) :
              (s.lines.buffer.drop (2 * blockLen)).take (left.take blockLen).length
                = left.take blockLen := by
            cases between.asked with
            | pending _ none _ => simp [none] at arrived
            | answered _ _ _ there => exact there
          have shifted := shift_eq_shifted (r := { s.lines with fileLine := s.lines.fileLine + 1 })
            holds.valid.length reader answered
          refine .fetching (.inl (if_pos (by simp [reader])))
            ⟨reader, rfl, valid, used, lt, fun ended => (between.drained ended).1⟩
            (between.asked.congr rfl rfl rfl (memcpy_frame valid.length).2) shifted
            fun ended none => ?_
          have small := (between.drained ended).2 none
          change blockLen ≤ s.lines.dataBegin at used
          change s.lines.dataBegin < s.lines.dataEnd at lt
          omega
      · next low =>
          exact .taking rfl ⟨reader, between.asked.congr rfl rfl rfl rfl, between.drained⟩ valid
            more (Nat.lt_of_not_le low)
  | bare _ none ended holds =>
      obtain ⟨valid, more, lt, rfl⟩ := current_of_holds holds unused
      rw [enter]
      dsimp only
      split
      · next used =>
          have refill : refill blockLen { s.lines with fileLine := s.lines.fileLine + 1 }
              = shift blockLen { s.lines with fileLine := s.lines.fileLine + 1 } := by
            simp only [LineReader.refill, none]
            rfl
          obtain ⟨valid, rest, low, fileLine⟩ := refill_spec valid used lt
          rw [refill] at valid rest low fileLine
          have same : current { s.lines with fileLine := s.lines.fileLine + 1 }
              = current (shift blockLen { s.lines with fileLine := s.lines.fileLine + 1 }) := by
            rw [current, current, rest]
            rfl
          rw [same]
          exact .bareTaking (if_neg (by simp [none])) none ended valid (rest ▸ more) low
      · next low =>
          exact .bareTaking rfl none ended valid more (Nat.lt_of_not_le low)
  | _ => simp_all

/-- The next block is there. -/
theorem place_finished {n : Nat} (place : Place blockLen s lines) (here : s.owner = .finishing)
    (count : s.readByteCount = some n) :
    Place blockLen { s with
      lines := { s.lines with dataEnd := s.lines.dataEnd + n }
      owner := .copying } lines := by
  cases place with
  | @fetching v left _ now asked lines _ =>
      cases asked with
      | pending _ none _ => simp [count] at none
      | answered desired read source _ =>
          obtain rfl := Option.some.inj (count.symm.trans read)
          refine .copying rfl (now.congr rfl now.drained) desired source ?_
          rw [lines, count]
          rfl
  | _ => simp_all

theorem place_sleep (place : Place blockLen s lines) (here : s.owner = .finishing)
    (none : s.readByteCount = none) : Place blockLen { s with owner := .waiting } lines := by
  cases place with
  | @fetching v left _ now asked lines answered =>
      exact .fetching (.inr ⟨rfl, none⟩) (now.congr rfl now.drained) (asked.congr rfl rfl rfl rfl)
        lines answered
  | _ => simp_all

theorem place_wakeOwner (place : Place blockLen s lines) (here : s.owner = .waiting) :
    Place blockLen { s with owner := .finishing } lines := by
  cases place with
  | @fetching v left _ now asked lines answered =>
      exact .fetching (.inl rfl) (now.congr rfl now.drained) (asked.congr rfl rfl rfl rfl) lines
        answered
  | _ => simp_all

/-- With the copy the refill is complete. -/
theorem place_copied (place : Place blockLen s lines) (here : s.owner = .copying) :
    Place blockLen { s with
      lines := { s.lines with
        buffer := memcpy s.lines.buffer blockLen (2 * blockLen) blockLen }
      owner := .starting } lines := by
  cases place with
  | @copying v left _ now desired source lines =>
      refine .starting rfl (now.congr rfl now.drained) desired source ?_
      rw [view, lines, refill, now.pending]
      rfl
  | _ => simp_all

/-- The following block is asked for. -/
theorem place_started (place : Place blockLen s lines) (here : s.owner = .starting) :
    Place blockLen { s.startRead blockLen with owner := .taking } lines := by
  cases place with
  | @starting v left _ now desired source refilled =>
      obtain ⟨valid, rest, low, fileLine⟩ := refill_spec now.valid now.used now.more
      rw [← refilled] at valid rest low fileLine
      have more : v.rest ≠ [] := mt (rest_eq_nil_iff now.valid).mp now.more.ne
      have same : current v = current (s.view (left.drop blockLen)) := by
        rw [current, current, rest, fileLine]
      rw [same]
      refine .taking (s := { s.startRead blockLen with owner := .taking }) rfl
        ⟨now.reader, .pending rfl rfl source, fun ended => ?_⟩ valid (rest ▸ more) low
      have none := now.drained (ended_of_notified ended)
      have dataEnd : s.lines.dataEnd = v.dataEnd - blockLen := by
        have same := congrArg LineReader.dataEnd refilled
        rw [refill, now.pending, none] at same
        simpa [view] using same
      have inside := now.valid.dataEnd_le
      refine ⟨by rw [none, List.drop_nil], fun _ => .inl ?_⟩
      change s.lines.dataEnd ≤ blockLen
      omega
  | _ => simp_all

/-- The current line is taken, or it is too long. -/
theorem takeLine_current {v : LineReader} (valid : v.Valid blockLen)
    (low : v.dataBegin < blockLen) :
    match v.takeLine blockLen with
    | .ok (line, r) => ∃ first rest, current v = first :: rest ∧
        lineOf blockLen first = .ok line ∧ r.Holds blockLen rest
    | .error e => ∃ first rest, current v = first :: rest ∧ lineOf blockLen first = .error e := by
  have taken := takeLine_spec valid low
  split at taken
  · next long =>
      rw [taken]
      exact ⟨_, _, rfl, if_pos long⟩
  · next short =>
      obtain ⟨r, taken, valid, rest, fileLine⟩ := taken
      rw [taken]
      refine ⟨_, _, rfl, if_neg short, ⟨valid, ?_⟩⟩
      rw [fileLine, rest]

theorem place_line {line : List UInt8} {r : LineReader} (place : Place blockLen s lines)
    (here : s.owner = .taking) (taken : takeLine blockLen s.lines = .ok (line, r)) :
    ∃ first rest, lines = first :: rest ∧ lineOf blockLen first = .ok line ∧
      Place blockLen { s with lines := r, owner := .outside } rest := by
  cases place with
  | @taking left _ between valid more low =>
      have viewed : takeLine blockLen (s.view left)
          = .ok (line, { r with reader := some left }) := by
        rw [view, takeLine_reader, taken]
        rfl
      have current := takeLine_current valid low
      rw [viewed] at current
      obtain ⟨first, rest, lines, read, holds⟩ := current
      obtain ⟨behind, dataEnd⟩ := takeLine_frame valid low viewed
      refine ⟨first, rest, lines, read, .outside rfl ⟨?_, ?_, fun ended => ?_⟩ holds⟩
      · exact (reader_of_takeLine taken).trans between.reader
      · exact between.asked.congr rfl rfl rfl behind
      · obtain ⟨none, small⟩ := between.drained ended
        refine ⟨none, fun count => ?_⟩
        rcases dataEnd with same | used
        · have unused : s.lines.dataBegin ≠ s.lines.dataEnd :=
            mt (rest_eq_nil_iff valid).mpr more
          exact .inl (same.trans_le ((small count).resolve_right unused))
        · exact .inr used
  | bareTaking _ none ended valid more low =>
      have current := takeLine_current valid low
      rw [taken] at current
      obtain ⟨first, rest, lines, read, holds⟩ := current
      have reader := (reader_of_takeLine taken).trans none
      exact ⟨first, rest, lines, read, .bare rfl reader ended holds⟩
  | _ => simp_all

theorem place_fail {e : CsvError} (place : Place blockLen s lines) (here : s.owner = .taking)
    (taken : takeLine blockLen s.lines = .error e) :
    Place blockLen { s with owner := .failed e } lines := by
  cases place with
  | @taking left _ between valid more low =>
      have viewed : takeLine blockLen (s.view left) = .error e := by
        rw [view, takeLine_reader, taken]
        rfl
      have current := takeLine_current valid low
      rw [viewed] at current
      obtain ⟨first, rest, lines, long⟩ := current
      rw [lines]
      exact .failed rfl long
  | bareTaking _ none ended valid more low =>
      have current := takeLine_current valid low
      rw [taken] at current
      obtain ⟨first, rest, lines, long⟩ := current
      rw [lines]
      exact .failed rfl long
  | _ => simp_all

end Owner

/-! ### Any order -/

/-- The line a step hands out. -/
def Label.lines : Label → List (List UInt8)
  | .line bytes => [bytes]
  | _ => []

/-- A step on the way of what was called. -/
def Label.Inner : Label → Prop
  | .call | .null | .terminate | .wakeOwner | .wakeWorker => False
  | _ => True

/-- Nothing that was called has still to return. -/
def Returned (s : ReadAhead) : Prop := s.Idle ∨ s.owner = .gone

def ownerWeight : OwnerPoint → Nat
  | .constructing => 4
  | .finishing => 8
  | .waiting => 7
  | .copying => 6
  | .starting => 5
  | .notifying => 3
  | .taking | .joining => 1
  | .outside | .failed _ | .gone => 0

def workerWeight : WorkerPoint → Nat
  | .testing => 1
  | .waiting | .ended => 0

/-- What the threads may still do before what was called returns. -/
def weight (s : ReadAhead) : Nat :=
  ownerWeight s.owner + workerWeight s.worker +
    if s.desiredByteCount.isSome then 2 else 0

section Run

variable {blockLen : Nat} {s t : ReadAhead} {l : Label} {lines : List (UInt32 × List UInt8)}

theorem place_begin (two : 1 < blockLen) {fresh : List UInt8} (length : fresh.length = 3 * blockLen)
    (file : List UInt8) :
    Control (begin blockLen fresh file) ∧ Place blockLen (begin blockLen fresh file)
      (numbered 0 (records newline (LineReader.content file))) := by
  have holds := init_holds two length file
  rw [begin]
  generalize init blockLen fresh file = r at holds
  cases reader : r.reader with
  | none => exact ⟨⟨nofun, nofun, by simp⟩, .bare rfl reader rfl holds⟩
  | some left =>
      refine ⟨⟨nofun, nofun, by simp⟩, .constructing rfl rfl rfl rfl nofun ?_⟩
      have same : { r with reader := some left } = r := by rw [← reader]
      simpa [view, same] using holds

/-- A step leaves the lines still to come, but for the line it hands out. -/
theorem place_step (two : 0 < blockLen) (control : Control s) (place : Place blockLen s lines)
    (step : Step blockLen s l t) : ∃ lines', Place blockLen t lines' ∧
      lines.map (lineOf blockLen) = l.lines.map .ok ++ lines'.map (lineOf blockLen) := by
  cases step with
  | constructed here => exact ⟨_, place_constructed place here, rfl⟩
  | call here unused => exact ⟨_, place_call place here unused, rfl⟩
  | null _ _ => exact ⟨_, place, rfl⟩
  | finished here count => exact ⟨_, place_finished place here count, rfl⟩
  | sleep here none => exact ⟨_, place_sleep place here none, rfl⟩
  | copied here => exact ⟨_, place_copied place here, rfl⟩
  | started here => exact ⟨_, place_started place here, rfl⟩
  | line here taken =>
      obtain ⟨first, rest, rfl, read, place⟩ := place_line place here taken
      exact ⟨rest, place, by rw [List.map_cons, read]; rfl⟩
  | fail here taken => exact ⟨_, place_fail place here taken, rfl⟩
  | worker testing => exact ⟨_, place_work two control testing place, rfl⟩
  | terminate _ =>
      split
      · exact ⟨lines, .leaving (.inl rfl), rfl⟩
      · exact ⟨lines, .leaving (.inr (.inr rfl)), rfl⟩
  | notify _ => exact ⟨lines, .leaving (.inr (.inl rfl)), rfl⟩
  | join _ _ => exact ⟨lines, .leaving (.inr (.inr rfl)), rfl⟩
  | wakeOwner here => exact ⟨_, place_wakeOwner place here, rfl⟩
  | wakeWorker here => exact ⟨_, place.alive (by simp [here]) nofun, rfl⟩

/-- Whoever waits is waited for. -/
theorem exists_inner (control : Control s) (place : Place blockLen s lines)
    (busy : ¬ s.Returned) : ∃ l t, Step blockLen s l t ∧ l.Inner := by
  have testing (here : s.worker = .testing) : ∃ l t, Step blockLen s l t ∧ l.Inner :=
    ⟨_, _, .worker here, trivial⟩
  cases here : s.owner with
  | constructing => exact ⟨_, _, .constructed here, trivial⟩
  | copying => exact ⟨_, _, .copied here, trivial⟩
  | starting => exact ⟨_, _, .started here, trivial⟩
  | notifying => exact ⟨_, _, .notify here, trivial⟩
  | outside => exact absurd (.inl (.inl here)) busy
  | failed e => exact absurd (.inl (.inr ⟨e, here⟩)) busy
  | gone => exact absurd (.inr here) busy
  | finishing =>
      cases count : s.readByteCount with
      | none => exact ⟨_, _, .sleep here count, trivial⟩
      | some n => exact ⟨_, _, .finished here count, trivial⟩
  | taking =>
      cases taken : takeLine blockLen s.lines with
      | ok result => exact ⟨_, _, .line here taken, trivial⟩
      | error e => exact ⟨_, _, .fail here taken, trivial⟩
  | waiting =>
      cases place with
      | fetching there _ asked _ answered =>
          have none : s.readByteCount = none := by simpa [here] using there
          cases worker : s.worker with
          | testing => exact testing worker
          | ended => exact absurd none (answered worker)
          | waiting =>
              have idle := (control.sleeping worker).1
              cases asked with
              | pending desired _ _ => simp [idle] at desired
              | answered _ count _ _ => simp [none] at count
      | leaving there => simp [here] at there
      | _ => simp_all
  | joining =>
      cases worker : s.worker with
      | testing => exact testing worker
      | ended => exact ⟨_, _, .join here worker, trivial⟩
      | waiting =>
          have asked := control.asked (.inr here)
          have there := (control.sleeping worker).2 asked
          rw [here] at there
          cases there

theorem weight_notified (point : WorkerPoint) :
    workerWeight point.notified ≤ workerWeight point + 1 := by
  cases point <;> decide

theorem weight_startRead (point : OwnerPoint) :
    weight { s.startRead blockLen with owner := point }
      ≤ ownerWeight point + workerWeight s.worker + 3 := by
  have worker := weight_notified s.worker
  simp only [weight, startRead, Option.isSome_some, if_true]
  omega

theorem weight_owner_lt {point : OwnerPoint} {lines : LineReader}
    (lt : ownerWeight point < ownerWeight s.owner) :
    weight { s with lines, owner := point } < s.weight := by
  simp only [weight]
  omega

theorem weight_work_lt (testing : s.worker = .testing) : (s.work blockLen).weight < s.weight := by
  rw [work]
  split
  · simp [weight, testing, workerWeight]
  · split
    · simp [weight, testing, workerWeight]
    · next desired =>
        have owner : ownerWeight s.owner.notified ≤ ownerWeight s.owner + 1 := by
          cases s.owner <;> simp [OwnerPoint.notified, ownerWeight]
        have worker (point : WorkerPoint) (still : point ≠ .testing) : workerWeight point = 0 := by
          cases point <;> first | rfl | exact absurd rfl still
        simp only [weight, testing, desired, Option.isSome_none, Option.isSome_some, if_true]
        rw [worker _ (by split <;> nofun)]
        simp only [workerWeight, Bool.false_eq_true, if_false]
        omega

/-- Each step comes nearer to the return. -/
theorem weight_lt (step : Step blockLen s l t) (inner : l.Inner) : t.weight < s.weight := by
  cases step with
  | constructed here =>
      have := @weight_startRead blockLen s .outside
      simp only [weight, here, ownerWeight] at this ⊢
      omega
  | started here =>
      have := @weight_startRead blockLen s .taking
      simp only [weight, here, ownerWeight] at this ⊢
      omega
  | finished here _ | sleep here _ | copied here | line here _ | fail here _ =>
      exact weight_owner_lt (by simp [here, ownerWeight])
  | join here _ => exact weight_owner_lt (by simp [here, ownerWeight])
  | worker testing => exact weight_work_lt testing
  | notify here =>
      have worker := weight_notified s.worker
      simp only [weight, here, ownerWeight]
      omega
  | call _ _ | null _ _ | terminate _ | wakeOwner _ | wakeWorker _ => exact inner.elim

theorem length_le_of_inner {h : List (Label × ReadAhead)}
    (run : Run (Restrict (Step blockLen) fun _ l => l.Inner) s h t) :
    t.weight + h.length ≤ s.weight := by
  induction run with
  | nil => exact Nat.le_refl _
  | step _ last ih =>
      have lt := weight_lt last.2 last.1
      rw [List.length_cons]
      omega

theorem weight_le (s : ReadAhead) : s.weight ≤ 11 := by
  have owner : ownerWeight s.owner ≤ 8 := by
    cases s.owner <;> simp [ownerWeight]
  have worker : workerWeight s.worker ≤ 1 := by
    cases s.worker <;> decide
  rw [weight]
  split <;> omega

/-- The lines are handed out in the order of the file, whoever steps first. -/
theorem place_of_run (two : 1 < blockLen) {fresh file : List UInt8}
    (length : fresh.length = 3 * blockLen) {h : List (Label × ReadAhead)}
    (run : Run (Step blockLen) (begin blockLen fresh file) h s) :
    Control s ∧ ∃ lines, Place blockLen s lines ∧
      (numbered 0 (records newline (LineReader.content file))).map (lineOf blockLen)
        = (emitted Label.lines h).map .ok ++ lines.map (lineOf blockLen) := by
  induction run with
  | nil =>
      obtain ⟨control, place⟩ := place_begin two length file
      exact ⟨control, _, place, rfl⟩
  | step _ last ih =>
      obtain ⟨control, lines, place, before⟩ := ih
      obtain ⟨lines', place', out⟩ := place_step (by omega) control place last
      refine ⟨control.step last, lines', place', ?_⟩
      rw [before, out, emitted, List.map_append, List.append_assoc]

theorem eq_nil_of_holds {r : LineReader} (holds : r.Holds blockLen lines)
    (used : r.dataBegin = r.dataEnd) : lines = [] := by
  rw [holds.lines, (rest_eq_nil_iff holds.valid).mpr used, records_nil]
  rfl

/-- A null pointer means that there are no more lines. -/
theorem Place.eq_nil (place : Place blockLen s lines) (here : s.owner = .outside)
    (used : s.lines.dataBegin = s.lines.dataEnd) : lines = [] := by
  cases place with
  | outside _ _ holds => exact eq_nil_of_holds holds used
  | bare _ _ _ holds => exact eq_nil_of_holds holds used
  | _ => simp_all

theorem Place.head (place : Place blockLen s lines) {e : CsvError} (here : s.owner = .failed e) :
    (lines.map (lineOf blockLen)).head? = some (.error e) := by
  cases place with
  | failed there long =>
      obtain rfl := OwnerPoint.failed.inj (here.symm.trans there)
      rw [List.map_cons, List.head?_cons, long]
  | fetching there | leaving there => simp [here] at there
  | _ => simp_all

theorem Place.unasked (place : Place blockLen s lines) (here : s.owner = .copying) :
    s.desiredByteCount = none := by
  cases place with
  | copying _ _ desired _ _ => exact desired
  | fetching there | leaving there => simp [here] at there
  | _ => simp_all

/-- In any order of the steps of the two threads the lines of the file come out one after the
other. A null pointer means that all of them have, an error is the one of the next line, and
the worker writes nothing while the owner copies the block it has read. Until what was called
has returned some thread can go on, and both together do so at most eleven times. -/
theorem lines_of_run (two : 1 < blockLen) {fresh file : List UInt8}
    (length : fresh.length = 3 * blockLen) {h : List (Label × ReadAhead)}
    (run : Run (Step blockLen) (begin blockLen fresh file) h s) :
    (∃ rest, (numbered 0 (records newline (LineReader.content file))).map (lineOf blockLen)
        = (emitted Label.lines h).map .ok ++ rest ∧
      (s.owner = .outside → s.lines.dataBegin = s.lines.dataEnd → rest = []) ∧
      ∀ e, s.owner = .failed e → rest.head? = some (.error e)) ∧
    (s.owner = .copying → s.desiredByteCount = none) ∧
    (¬ s.Returned → ∃ l t, Step blockLen s l t ∧ l.Inner) ∧
    ∀ h' t, Run (Restrict (Step blockLen) fun _ l => l.Inner) s h' t → h'.length ≤ 11 := by
  obtain ⟨control, lines, place, out⟩ := place_of_run two length run
  refine ⟨⟨_, out, fun here used => ?_, fun e here => place.head here⟩, place.unasked,
    exists_inner control place, fun h' t inner => ?_⟩
  · rw [place.eq_nil here used]
    rfl
  · have spent := length_le_of_inner inner
    have most := weight_le s
    omega

/-- The owner sleeps until the third line is read, and takes the second one. -/
theorem lines_of_run_sleep : ∃ (h : List (Label × ReadAhead)) (s : ReadAhead),
    Run (Step 2) (begin 2 [0, 0, 0, 0, 0, 0] [97, 10, 98, 10, 99, 10]) h s ∧
      s.owner = .outside ∧ emitted Label.lines h = [[97], [98]] ∧
      ∃ rest : List (Except CsvError (List UInt8)),
        [[97], [98], [99]].map .ok = (emitted Label.lines h).map .ok ++ rest ∧
        (s.lines.dataBegin = s.lines.dataEnd → rest = []) := by
  have start : Run (Step 2) (begin 2 [0, 0, 0, 0, 0, 0] [97, 10, 98, 10, 99, 10]) [] _ := .nil
  have run := start
    |>.step (.constructed rfl)
    |>.step (.call rfl (by decide))
    |>.step (.line rfl rfl)
    |>.step (.call rfl (by decide))
    |>.step (.sleep rfl rfl)
    |>.step (.worker rfl)
    |>.step (.finished rfl rfl)
    |>.step (.copied rfl)
    |>.step (.started rfl)
    |>.step (.line rfl rfl)
  obtain ⟨⟨rest, lines, all, _⟩, _⟩ := lines_of_run (by decide) rfl run
  exact ⟨_, _, run, rfl, rfl, rest, lines, all rfl⟩

end Run

end ReadAhead

end Lra
