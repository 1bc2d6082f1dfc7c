import Lra.Effect.Fallible
import Lra.Text.Records

/-!
# The lines of a command file

`io::LineReader` holds two blocks of the file, with a third one into which the next block is
read ahead. `next_line` ends a line in place and hands out a pointer to it; when the first
block is used up, the others move forward. Whatever the file holds and however long it is,
its lines come out one after the other, up to the first that is as long as a block.
-/

namespace Lra

open Effect Text

/-- `'\\n'` -/
def newline : UInt8 := 10

/-- `'\\r'` -/
def carriageReturn : UInt8 := 13

/-- What `io` throws. -/
inductive CsvErrorKind where
  | canNotOpenFile
  | lineLengthLimitExceeded
  | tooFewColumns
  | tooManyColumns
  | noDigit
  deriving DecidableEq

/-- An error of `io`, with what was set in it. -/
structure CsvError where
  kind : CsvErrorKind
  fileLine : UInt32 := 0
  columnName : String := ""
  columnContent : List UInt8 := []
  deriving DecidableEq

/-- `reader` is what is left of the file for `AsynchronousReader`, while it is valid. It
writes behind the two blocks that are searched, so when it does so makes no difference. -/
structure LineReader where
  buffer : List UInt8
  dataBegin : Nat
  dataEnd : Nat
  fileLine : UInt32 := 0
  reader : Option (List UInt8) := none
  deriving DecidableEq

namespace LineReader

/-- `memcpy(buffer + dst, buffer + src, len)`, of a part that does not overlap. -/
def memcpy (buffer : List UInt8) (dst src len : Nat) : List UInt8 :=
  buffer.take dst ++ (buffer.drop src).take len ++ buffer.drop (dst + len)

/-- `byte_source->read(buffer + dst, ..)` of bytes that have arrived. -/
def store (buffer : List UInt8) (dst : Nat) (bytes : List UInt8) : List UInt8 :=
  buffer.take dst ++ bytes ++ buffer.drop (dst + bytes.length)

/-- The loop over at most `n` bytes from `lineEnd` on. -/
def findEnd (buffer : List UInt8) : Nat → Nat → Nat
  | 0, lineEnd => lineEnd
  | n + 1, lineEnd =>
    if buffer.getD lineEnd 0 = newline then lineEnd else findEnd buffer n (lineEnd + 1)

/-- The bytes before the terminating zero. -/
def cString (bytes : List UInt8) : List UInt8 := bytes.takeWhile fun b => b ≠ 0

/-- The mark at the start of a file in UTF-8. -/
def byteOrderMark : List UInt8 := [0xEF, 0xBB, 0xBF]

section Blocks

variable (blockLen : Nat)

/-- `fresh` is the new buffer. -/
def init (fresh file : List UInt8) : LineReader :=
  let first := file.take (2 * blockLen)
  let buffer := store fresh 0 first
  { buffer
    dataBegin := if byteOrderMark <+: first then 3 else 0
    dataEnd := first.length
    reader := if first.length = 2 * blockLen then some (file.drop (2 * blockLen)) else none }

/-- The blocks move forward, and the block that was read ahead follows them. -/
def refill (r : LineReader) : LineReader :=
  let moved := memcpy r.buffer 0 blockLen blockLen
  let dataEnd := r.dataEnd - blockLen
  match r.reader with
  | none => { r with buffer := moved, dataBegin := r.dataBegin - blockLen, dataEnd }
  | some left =>
    let arrived := left.take blockLen
    let buffer := store moved (2 * blockLen) arrived
    { r with
      buffer := memcpy buffer blockLen (2 * blockLen) blockLen
      dataBegin := r.dataBegin - blockLen
      dataEnd := dataEnd + arrived.length
      reader := some (left.drop blockLen) }

/-- The part of `next_line` that looks for the end of the line and takes it off. -/
def takeLine (r : LineReader) : Except CsvError (List UInt8 × LineReader) :=
  let lineEnd := findEnd r.buffer (r.dataEnd - r.dataBegin) r.dataBegin
  if lineEnd - r.dataBegin + 1 > blockLen then
    .error { kind := .lineLengthLimitExceeded, fileLine := r.fileLine }
  else
    let dataEnd :=
      if lineEnd ≠ r.dataEnd ∧ r.buffer.getD lineEnd 0 = newline then r.dataEnd
      else r.dataEnd + 1
    let buffer := r.buffer.set lineEnd 0
    let buffer :=
      if lineEnd ≠ r.dataBegin ∧ buffer.getD (lineEnd - 1) 0 = carriageReturn then
        buffer.set (lineEnd - 1) 0
      else buffer
    .ok (cString (buffer.drop r.dataBegin),
      { r with buffer, dataBegin := lineEnd + 1, dataEnd })

def nextLine (r : LineReader) : Except CsvError (Option (List UInt8 × LineReader)) :=
  if r.dataBegin = r.dataEnd then .ok none
  else do
    let r := { r with fileLine := r.fileLine + 1 }
    let line ← takeLine blockLen (if r.dataBegin ≥ blockLen then refill blockLen r else r)
    return some line

end Blocks

/-! ### What is still to come -/

/-- A line as it is handed out: without a carriage return at its end, as a C string. -/
def text (line : List UInt8) : List UInt8 :=
  cString (if line.getLast? = some carriageReturn then line.dropLast else line)

/-- The part of the file in the buffer that is not taken yet. -/
def window (r : LineReader) : List UInt8 := (r.buffer.take r.dataEnd).drop r.dataBegin

def pending (r : LineReader) : List UInt8 := r.reader.getD []

/-- The part of the file that is not taken yet. -/
def rest (r : LineReader) : List UInt8 := r.window ++ r.pending

/-- The data are in the first two blocks, and they fill these as long as more is to come. -/
structure Valid (blockLen : Nat) (r : LineReader) : Prop where
  length : r.buffer.length = 3 * blockLen
  le : r.dataBegin ≤ r.dataEnd
  dataEnd_le : r.dataEnd ≤ 2 * blockLen
  full : r.pending ≠ [] → r.dataEnd = 2 * blockLen ∧ r.dataBegin < 2 * blockLen

section Refill

variable {blockLen : Nat} {r : LineReader}

theorem length_window (valid : r.Valid blockLen) : r.window.length = r.dataEnd - r.dataBegin := by
  have inside := valid.dataEnd_le
  have length := valid.length
  simp only [window, List.length_drop, List.length_take]
  omega

/-- Nothing is left exactly when the data are used up. -/
theorem rest_eq_nil_iff (valid : r.Valid blockLen) : r.rest = [] ↔ r.dataBegin = r.dataEnd := by
  have length := length_window valid
  have le := valid.le
  constructor
  · intro none
    have empty : r.window.length = 0 := by
      rw [(List.append_eq_nil_iff.mp none).1, List.length_nil]
    omega
  · intro used
    have empty : r.window = [] := List.length_eq_zero_iff.mp (by omega)
    have nothing : r.pending = [] := by
      by_contra more
      have := valid.full more
      omega
    rw [rest, empty, nothing, List.nil_append]

/-- A buffer is its three blocks. -/
theorem exists_blocks {buffer : List UInt8} (length : buffer.length = 3 * blockLen) :
    ∃ a b c, buffer = a ++ (b ++ c) ∧ a.length = blockLen ∧ b.length = blockLen ∧
      c.length = blockLen := by
  refine ⟨buffer.take blockLen, (buffer.drop blockLen).take blockLen,
    (buffer.drop blockLen).drop blockLen, ?_, ?_, ?_, ?_⟩
  · rw [List.take_append_drop, List.take_append_drop]
  · rw [List.length_take]
    omega
  · rw [List.length_take, List.length_drop]
    omega
  · rw [List.length_drop, List.length_drop]
    omega

section Blocks

variable {a b c d : List UInt8}

/-- The second block becomes the first one. -/
theorem memcpy_first (ha : a.length = blockLen) (hb : b.length = blockLen) :
    memcpy (a ++ (b ++ c)) 0 blockLen blockLen = b ++ (b ++ c) := by
  simp [memcpy, ← ha, hb.trans ha.symm]

/-- The bytes that arrived go to the third block and from there to the second one. -/
theorem memcpy_second (ha : a.length = blockLen) (hb : b.length = blockLen)
    (hc : c.length = blockLen) (hd : d.length ≤ blockLen) :
    memcpy (store (a ++ (b ++ c)) (2 * blockLen) d) blockLen (2 * blockLen) blockLen
      = a ++ ((d ++ c.drop d.length) ++ (d ++ c.drop d.length)) := by
  have front : (a ++ b).length = 2 * blockLen := by
    rw [List.length_append]
    omega
  have stored : store (a ++ (b ++ c)) (2 * blockLen) d = a ++ (b ++ (d ++ c.drop d.length)) := by
    rw [store, ← List.append_assoc a b c, ← front, List.take_left, List.drop_length_add_append]
    simp
  have third : (d ++ c.drop d.length).length = blockLen := by
    rw [List.length_append, List.length_drop]
    omega
  generalize d ++ c.drop d.length = e at stored third
  rw [stored, memcpy, List.take_left' ha, ← List.append_assoc a b e, List.drop_left' front,
    List.take_of_length_le third.le, ← Nat.two_mul, List.drop_left' front, List.append_assoc]

/-- What a block forward was between two places. -/
theorem drop_take_block (ha : a.length = blockLen) (j k : Nat) :
    ((a ++ b).take (blockLen + k)).drop (blockLen + j) = (b.take k).drop j := by
  subst ha
  rw [List.take_length_add_append, List.drop_length_add_append]

/-- Where the data fill both blocks, or nothing arrives, what arrives comes right behind. -/
theorem drop_take_arrived {arrived more : List UInt8} {j k : Nat} (hj : j ≤ k)
    (hk : k ≤ b.length) (fits : arrived = [] ∨ k = b.length) :
    ((b ++ (arrived ++ more)).take (k + arrived.length)).drop j = (b.take k).drop j ++ arrived := by
  rcases fits with rfl | rfl
  · simp [List.take_append_of_le_length hk]
  · rw [List.take_length_add_append, List.take_left, List.drop_append_of_le_length hj,
      List.take_length]

theorem refill_none (reader : r.reader = none) (buffer : r.buffer = a ++ (b ++ c))
    (ha : a.length = blockLen) (hb : b.length = blockLen) :
    r.refill blockLen = { r with
      buffer := b ++ (b ++ c)
      dataBegin := r.dataBegin - blockLen
      dataEnd := r.dataEnd - blockLen } := by
  simp only [refill, reader, buffer, memcpy_first ha hb]

theorem refill_some {left : List UInt8} (reader : r.reader = some left)
    (buffer : r.buffer = a ++ (b ++ c)) (ha : a.length = blockLen) (hb : b.length = blockLen)
    (hc : c.length = blockLen) :
    ∃ more, (left.take blockLen).length + more.length = blockLen ∧ r.refill blockLen = { r with
      buffer := b ++ (left.take blockLen ++ more ++ (left.take blockLen ++ more))
      dataBegin := r.dataBegin - blockLen
      dataEnd := r.dataEnd - blockLen + (left.take blockLen).length
      reader := some (left.drop blockLen) } := by
  have fits : (left.take blockLen).length ≤ blockLen := List.length_take_le ..
  refine ⟨c.drop (left.take blockLen).length, ?_, ?_⟩
  · rw [List.length_drop]
    omega
  · simp only [refill, reader, buffer, memcpy_first ha hb, memcpy_second hb hb hc fits]

end Blocks

/-- A block forward nothing is lost, and the first block is in use again. -/
theorem refill_spec (valid : r.Valid blockLen) (used : blockLen ≤ r.dataBegin)
    (more : r.dataBegin < r.dataEnd) :
    (r.refill blockLen).Valid blockLen ∧ (r.refill blockLen).rest = r.rest ∧
      (r.refill blockLen).dataBegin < blockLen ∧ (r.refill blockLen).fileLine = r.fileLine := by
  obtain ⟨a, b, c, buffer, ha, hb, hc⟩ := exists_blocks valid.length
  obtain ⟨j, hj⟩ := Nat.exists_eq_add_of_le used
  obtain ⟨k, hk⟩ := Nat.exists_eq_add_of_le (used.trans valid.le)
  have inside := valid.dataEnd_le
  have window : r.window = (b.take k).drop j := by
    rw [LineReader.window, buffer, hj, hk, drop_take_block ha, List.take_append_of_le_length]
    omega
  cases reader : r.reader with
  | none =>
      rw [refill_none reader buffer ha hb, hj, hk, Nat.add_sub_cancel_left, Nat.add_sub_cancel_left]
      refine ⟨⟨?_, ?_, ?_, fun some => absurd (by simp [pending, reader]) some⟩,
        ?_, ?_, rfl⟩
      · show (b ++ (b ++ c)).length = 3 * blockLen
        simp only [List.length_append]
        omega
      · show j ≤ k
        omega
      · show k ≤ 2 * blockLen
        omega
      · rw [LineReader.rest, LineReader.rest, window]
        show ((b ++ (b ++ c)).take k).drop j ++ r.pending = _
        rw [List.take_append_of_le_length (by omega)]
      · show j < blockLen
        omega
  | some left =>
      have filled : left = [] ∨ k = blockLen ∧ j < blockLen := by
        by_cases none : left = []
        · exact .inl none
        · have := valid.full (by simpa [pending, reader] using none)
          exact .inr (by omega)
      obtain ⟨after, third, refilled⟩ := refill_some reader buffer ha hb hc
      rw [refilled, hj, hk, Nat.add_sub_cancel_left, Nat.add_sub_cancel_left]
      refine ⟨⟨?_, ?_, ?_, fun some => ?_⟩, ?_, ?_, rfl⟩
      · simp only [List.length_append] at third ⊢
        omega
      · show j ≤ k + _
        omega
      · show k + _ ≤ 2 * blockLen
        omega
      · have longer : blockLen < left.length := by simpa [pending] using some
        have arrived : (left.take blockLen).length = blockLen := by
          rw [List.length_take]
          omega
        have both : k = blockLen ∧ j < blockLen :=
          filled.resolve_left (List.ne_nil_of_length_pos (by omega))
        show k + _ = 2 * blockLen ∧ j < 2 * blockLen
        omega
      · rw [LineReader.rest, LineReader.rest, window]
        show ((b ++ (left.take blockLen ++ after ++ _)).take (k + _)).drop j
          ++ left.drop blockLen = _
        have fits : left.take blockLen = [] ∨ k = b.length :=
          filled.imp (fun none => by rw [none, List.take_nil]) fun both => both.1.trans hb.symm
        rw [List.append_assoc, drop_take_arrived (by omega) (by omega) fits, List.append_assoc,
          List.take_append_drop]
        simp [pending, reader]
      · show j < blockLen
        omega

end Refill

/-! ### One line -/

section Line

variable {pre line tail : List UInt8} {c : UInt8} {n : Nat}

theorem getD_append_cons : (pre ++ c :: tail).getD pre.length 0 = c := by
  simp [List.getD_eq_getElem?_getD]

theorem set_append_cons (b : UInt8) : (pre ++ c :: tail).set pre.length b = pre ++ b :: tail := by
  simp

/-- The loop passes what is no line feed. -/
theorem findEnd_append (none : newline ∉ line) :
    findEnd (pre ++ (line ++ tail)) (line.length + n) pre.length
      = findEnd (pre ++ (line ++ tail)) n (pre.length + line.length) := by
  induction line generalizing pre with
  | nil => simp
  | cons b line ih =>
      have other : b ≠ newline := fun same => none (same ▸ List.mem_cons_self)
      have later := @ih (pre ++ [b]) fun mem => none (List.mem_cons_of_mem b mem)
      rw [List.length_cons, Nat.add_right_comm, findEnd, List.cons_append, getD_append_cons,
        if_neg other]
      simpa [Nat.add_assoc, Nat.add_comm 1] using later

/-- It ends at a line feed. -/
theorem findEnd_newline (none : newline ∉ line) (inside : line.length < n) :
    findEnd (pre ++ (line ++ newline :: tail)) n pre.length = pre.length + line.length := by
  obtain ⟨m, rfl⟩ := Nat.exists_eq_add_of_lt inside
  rw [Nat.add_assoc, findEnd_append none, findEnd, ← List.append_assoc, ← List.length_append,
    getD_append_cons, if_pos rfl]

/-- Without one it ends behind the last of its bytes. -/
theorem findEnd_all (none : newline ∉ line) :
    findEnd (pre ++ (line ++ tail)) line.length pre.length = pre.length + line.length :=
  findEnd_append (n := 0) none

/-- The zero that ends a line ends it as a C string. -/
theorem cString_append_zero (line tail : List UInt8) :
    cString (line ++ 0 :: tail) = cString line := by
  induction line with
  | nil => rfl
  | cons b line ih =>
      by_cases zero : b = 0
      · simp [cString, zero]
      · simp only [cString, List.cons_append] at ih ⊢
        rw [List.takeWhile_cons_of_pos (by simpa using zero), ih,
          List.takeWhile_cons_of_pos (by simpa using zero)]

/-- The two writes at the end of a line: it is handed out without its carriage return, and
nothing else is written. -/
theorem exists_terminated (pre line tail : List UInt8) (c : UInt8) :
    ∃ out, out.length = line.length + 1 ∧ cString (out ++ tail) = text line ∧
      (let buffer := (pre ++ (line ++ c :: tail)).set (pre.length + line.length) 0
        if pre.length + line.length ≠ pre.length ∧
            buffer.getD (pre.length + line.length - 1) 0 = carriageReturn then
          buffer.set (pre.length + line.length - 1) 0
        else buffer) = pre ++ (out ++ tail) := by
  have first : (pre ++ (line ++ c :: tail)).set (pre.length + line.length) 0
      = pre ++ (line ++ 0 :: tail) := by
    rw [← List.append_assoc, ← List.length_append, set_append_cons, List.append_assoc]
  simp only [first]
  rcases List.eq_nil_or_concat line with rfl | ⟨front, last, rfl⟩
  · exact ⟨[0], rfl, by simp [text, cString], by simp⟩
  · simp only [List.concat_eq_append]
    have place : pre.length + (front ++ [last]).length - 1 = (pre ++ front).length := by
      simp only [List.length_append, List.length_singleton]
      omega
    have parts : pre ++ (front ++ [last] ++ 0 :: tail) = (pre ++ front) ++ last :: 0 :: tail := by
      simp
    have some : pre.length + (front ++ [last]).length ≠ pre.length := by simp
    rw [place, parts, getD_append_cons, set_append_cons]
    by_cases cr : last = carriageReturn
    · refine ⟨front ++ [0, 0], by simp, ?_, ?_⟩
      · rw [List.append_assoc]
        show cString (front ++ 0 :: (0 :: tail)) = _
        rw [cString_append_zero]
        simp [text, cr]
      · rw [if_pos ⟨some, cr⟩]
        simp
    · refine ⟨front ++ [last] ++ [0], by simp, ?_, ?_⟩
      · rw [List.append_assoc]
        show cString (front ++ [last] ++ 0 :: tail) = _
        rw [cString_append_zero]
        simp [text, cr]
      · rw [if_neg fun both => cr both.2]
        simp

end Line

section Take

variable {blockLen : Nat} {r : LineReader}

/-- The next line in the buffer: `c` is its line feed, or the first byte behind the data. -/
structure Next (r : LineReader) (pre line : List UInt8) (c : UInt8) (tail : List UInt8) : Prop where
  buffer : r.buffer = pre ++ (line ++ c :: tail)
  length : pre.length = r.dataBegin
  none : newline ∉ line
  ends : c = newline ∧ pre.length + line.length < r.dataEnd ∨ pre.length + line.length = r.dataEnd

theorem exists_next (valid : r.Valid blockLen) (some : 0 < blockLen) :
    ∃ pre line c tail, r.Next pre line c tail := by
  have length := valid.length
  have le := valid.le
  have inside := valid.dataEnd_le
  generalize front : r.buffer.take r.dataBegin = pre
  generalize data : (r.buffer.drop r.dataBegin).take (r.dataEnd - r.dataBegin) = window
  generalize beyond : r.buffer.drop r.dataEnd = behind
  have parts : r.buffer = pre ++ (window ++ behind) := by
    have split : r.buffer.drop r.dataBegin = window ++ behind := by
      rw [← List.take_append_drop (r.dataEnd - r.dataBegin) (r.buffer.drop r.dataBegin), data,
        List.drop_drop, Nat.add_sub_cancel' le, beyond]
    rw [← split, ← front, List.take_append_drop]
  have lengthPre : pre.length = r.dataBegin := by
    rw [← front, List.length_take]
    omega
  have lengthWindow : pre.length + window.length = r.dataEnd := by
    rw [← data, List.length_take, List.length_drop]
    omega
  by_cases mem : newline ∈ window
  · obtain ⟨line, others, first, none⟩ := List.eq_append_cons_of_mem mem
    refine ⟨pre, line, newline, others ++ behind, ⟨?_, lengthPre, none, .inl ⟨rfl, ?_⟩⟩⟩
    · rw [parts, first, List.append_assoc, List.cons_append]
    · rw [first, List.length_append, List.length_cons] at lengthWindow
      omega
  · obtain ⟨c, tail, rfl⟩ : ∃ c tail, behind = c :: tail :=
      List.exists_cons_of_length_pos (by
        rw [← beyond, List.length_drop]
        omega)
    exact ⟨pre, window, c, tail, ⟨parts, lengthPre, mem, .inr lengthWindow⟩⟩

variable {pre line tail : List UInt8} {c : UInt8}

theorem Next.findEnd_eq (next : r.Next pre line c tail) :
    findEnd r.buffer (r.dataEnd - r.dataBegin) r.dataBegin = pre.length + line.length := by
  have length := next.length
  rw [next.buffer, ← length]
  rcases next.ends with ⟨rfl, inside⟩ | used
  · exact findEnd_newline next.none (by omega)
  · rw [← used, Nat.add_sub_cancel_left]
    exact findEnd_all next.none

/-- The test for the line feed finds out how the line ends. -/
theorem Next.terminated_iff (next : r.Next pre line c tail) :
    (pre.length + line.length ≠ r.dataEnd ∧ r.buffer.getD (pre.length + line.length) 0 = newline)
      ↔ c = newline ∧ pre.length + line.length < r.dataEnd := by
  have here : r.buffer.getD (pre.length + line.length) 0 = c := by
    rw [next.buffer, ← List.append_assoc, ← List.length_append, getD_append_cons]
  rw [here]
  have ends := next.ends
  constructor
  · rintro ⟨other, rfl⟩
    exact ⟨rfl, by omega⟩
  · rintro ⟨rfl, inside⟩
    exact ⟨by omega, rfl⟩

theorem takeLine_long (next : r.Next pre line c tail) (long : blockLen ≤ line.length) :
    r.takeLine blockLen = .error { kind := .lineLengthLimitExceeded, fileLine := r.fileLine } := by
  simp only [takeLine, next.findEnd_eq]
  rw [if_pos]
  have := next.length
  omega

/-- A line that is not too long is handed out, and the reader stands behind it. -/
theorem takeLine_short (next : r.Next pre line c tail) (short : line.length < blockLen) :
    ∃ out, out.length = line.length + 1 ∧ r.takeLine blockLen = .ok (text line,
      { r with
        buffer := pre ++ (out ++ tail)
        dataBegin := pre.length + line.length + 1
        dataEnd := if c = newline ∧ pre.length + line.length < r.dataEnd then r.dataEnd
          else r.dataEnd + 1 }) := by
  obtain ⟨out, length, string, buffer⟩ := exists_terminated pre line tail c
  refine ⟨out, length, ?_⟩
  simp only [takeLine, next.findEnd_eq]
  rw [if_neg (by have := next.length; omega)]
  simp only [next.terminated_iff]
  rw [← next.length, next.buffer]
  simp only at buffer
  rw [buffer, List.drop_left, string]

/-- What is left, as the next line begins it. -/
theorem Next.rest_eq (next : r.Next pre line c tail) :
    r.rest = if c = newline ∧ pre.length + line.length < r.dataEnd then
        line ++ newline :: (tail.take (r.dataEnd - (pre.length + line.length + 1)) ++ r.pending)
      else line ++ r.pending := by
  rw [LineReader.rest, window, next.buffer, ← next.length]
  split
  · next terminated =>
      obtain ⟨rfl, inside⟩ := terminated
      obtain ⟨n, hn⟩ := Nat.exists_eq_add_of_lt inside
      have dataEnd : r.dataEnd = pre.length + (line.length + (n + 1)) := by omega
      have behind : r.dataEnd - (pre.length + line.length + 1) = n := by omega
      rw [behind, dataEnd, List.take_length_add_append, List.drop_left,
        List.take_length_add_append, List.take_succ_cons, List.append_assoc, List.cons_append]
  · next other =>
      have used := next.ends.resolve_left other
      rw [← used, List.take_length_add_append, List.drop_left, List.take_left]

/-- What is left behind a line. -/
theorem rest_behind {out : List UInt8} (length : out.length = line.length + 1) (dataEnd : Nat)
    (fileLine : UInt32) (reader : Option (List UInt8)) :
    rest ⟨pre ++ (out ++ tail), pre.length + line.length + 1, dataEnd, fileLine, reader⟩
      = tail.take (dataEnd - (pre.length + line.length + 1)) ++ reader.getD [] := by
  have place : pre.length + line.length + 1 = (pre ++ out).length := by
    rw [List.length_append]
    omega
  rw [rest, window, pending]
  simp only [place]
  rw [← List.append_assoc, List.drop_take, List.drop_left]

theorem takeLine_spec (valid : r.Valid blockLen) (low : r.dataBegin < blockLen) :
    if blockLen ≤ (upTo newline r.rest).length then
      r.takeLine blockLen = .error { kind := .lineLengthLimitExceeded, fileLine := r.fileLine }
    else ∃ r', r.takeLine blockLen = .ok (text (upTo newline r.rest), r') ∧ r'.Valid blockLen ∧
      r'.rest = after newline r.rest ∧ r'.fileLine = r.fileLine := by
  obtain ⟨pre, line, c, tail, next⟩ := exists_next valid (by omega)
  have length := next.length
  have buffer := congrArg List.length next.buffer
  rw [valid.length, List.length_append, List.length_append, List.length_cons] at buffer
  have inside := valid.dataEnd_le
  have restEq := next.rest_eq
  by_cases terminated : c = newline ∧ pre.length + line.length < r.dataEnd
  · rw [if_pos terminated] at restEq
    rw [restEq, upTo_append_cons next.none, after_append_cons next.none]
    split
    · next long => exact takeLine_long next long
    · next short =>
        obtain ⟨out, outLength, taken⟩ := takeLine_short next (Nat.lt_of_not_le short)
        rw [if_pos terminated] at taken
        refine ⟨_, taken, ⟨?_, ?_, inside, fun more => ?_⟩, rest_behind outLength .., rfl⟩
        · simp only [List.length_append]
          omega
        · show pre.length + line.length + 1 ≤ r.dataEnd
          omega
        · have full := (valid.full more).1
          show r.dataEnd = 2 * blockLen ∧ pre.length + line.length + 1 < 2 * blockLen
          omega
  · rw [if_neg terminated] at restEq
    have used := next.ends.resolve_left terminated
    by_cases more : r.pending = []
    · rw [restEq, more, List.append_nil, upTo_of_not_mem next.none, after_of_not_mem next.none]
      split
      · next long => exact takeLine_long next long
      · next short =>
          obtain ⟨out, outLength, taken⟩ := takeLine_short next (Nat.lt_of_not_le short)
          rw [if_neg terminated] at taken
          refine ⟨_, taken, ⟨?_, ?_, ?_, fun some => absurd more some⟩, ?_, rfl⟩
          · simp only [List.length_append]
            omega
          · show pre.length + line.length + 1 ≤ r.dataEnd + 1
            omega
          · show r.dataEnd + 1 ≤ 2 * blockLen
            omega
          · have none : r.dataEnd + 1 - (pre.length + line.length + 1) = 0 := by omega
            rw [rest_behind outLength, none, List.take_zero]
            exact more
    · -- The data fill both blocks without a line feed, so the line is too long in any case.
      have full := valid.full more
      have long : blockLen ≤ line.length := by omega
      rw [restEq, upTo_append next.none, if_pos]
      · exact takeLine_long next long
      · rw [List.length_append]
        omega

theorem nextLine_of_rest_nil (valid : r.Valid blockLen) (none : r.rest = []) :
    r.nextLine blockLen = .ok .none := by
  rw [nextLine, if_pos ((rest_eq_nil_iff valid).mp none)]

/-- The next line of the file is handed out, or found to be too long. -/
theorem nextLine_spec (valid : r.Valid blockLen) (more : r.rest ≠ []) :
    if blockLen ≤ (upTo newline r.rest).length then
      r.nextLine blockLen
        = .error { kind := .lineLengthLimitExceeded, fileLine := r.fileLine + 1 }
    else ∃ r', r.nextLine blockLen = .ok (.some (text (upTo newline r.rest), r')) ∧
      r'.Valid blockLen ∧ r'.rest = after newline r.rest ∧ r'.fileLine = r.fileLine + 1 := by
  have unused : r.dataBegin ≠ r.dataEnd := mt (rest_eq_nil_iff valid).mpr more
  obtain ⟨s, hs, valid, rest, low, fileLine⟩ : ∃ s : LineReader,
      (if r.dataBegin ≥ blockLen then refill blockLen { r with fileLine := r.fileLine + 1 }
        else { r with fileLine := r.fileLine + 1 }) = s ∧
      s.Valid blockLen ∧ s.rest = r.rest ∧ s.dataBegin < blockLen ∧
      s.fileLine = r.fileLine + 1 := by
    have counted : Valid blockLen { r with fileLine := r.fileLine + 1 } :=
      ⟨valid.length, valid.le, valid.dataEnd_le, valid.full⟩
    split
    · next used =>
        exact ⟨_, rfl, refill_spec counted used (Nat.lt_of_le_of_ne valid.le unused)⟩
    · next low => exact ⟨_, rfl, counted, rfl, Nat.lt_of_not_le low, rfl⟩
  have taken := takeLine_spec valid low
  rw [rest, fileLine] at taken
  rw [nextLine, if_neg unused]
  simp only [hs]
  split at taken
  · next long =>
      rw [if_pos long, taken]
      rfl
  · next short =>
      obtain ⟨r', taken, valid', rest', fileLine'⟩ := taken
      rw [if_neg short, taken]
      exact ⟨r', rfl, valid', rest', fileLine'⟩

end Take

/-! ### The whole file -/

/-- What a file holds behind its mark. -/
def content (file : List UInt8) : List UInt8 :=
  if byteOrderMark <+: file then file.drop 3 else file

theorem length_content_le (file : List UInt8) : (content file).length ≤ file.length := by
  rw [content]
  split
  · rw [List.length_drop]
    omega
  · exact Nat.le_refl _

section Init

variable {blockLen : Nat} {fresh : List UInt8}

theorem init_spec (two : 1 < blockLen) (length : fresh.length = 3 * blockLen)
    (file : List UInt8) : (init blockLen fresh file).Valid blockLen ∧
      (init blockLen fresh file).rest = content file ∧ (init blockLen fresh file).fileLine = 0 := by
  have parts := List.take_append_drop (2 * blockLen) file
  have marked : byteOrderMark <+: file.take (2 * blockLen) ↔ byteOrderMark <+: file := by
    rw [List.prefix_take_iff, and_iff_left]
    show 3 ≤ 2 * blockLen
    omega
  have le : (file.take (2 * blockLen)).length ≤ 2 * blockLen := List.length_take_le ..
  have filled : file.drop (2 * blockLen) ≠ [] →
      (file.take (2 * blockLen)).length = 2 * blockLen := by
    intro more
    have := List.length_pos_iff.mpr more
    rw [List.length_drop] at this
    rw [List.length_take]
    omega
  have skipped : (if byteOrderMark <+: file then 3 else 0) ≤ (file.take (2 * blockLen)).length := by
    split
    · next mark => exact (marked.mpr mark).length_le
    · exact Nat.zero_le _
  have some : (if byteOrderMark <+: file then 3 else 0) < 2 * blockLen := by
    split <;> omega
  have start : content file = file.drop (if byteOrderMark <+: file then 3 else 0) := by
    rw [content]
    split <;> rfl
  have stored : store fresh 0 (file.take (2 * blockLen))
      = file.take (2 * blockLen) ++ fresh.drop (file.take (2 * blockLen)).length := by
    simp [store]
  rw [start]
  simp only [init, stored, marked]
  generalize file.take (2 * blockLen) = first at *
  generalize file.drop (2 * blockLen) = left at *
  generalize (if byteOrderMark <+: file then 3 else 0) = skip at *
  have pending : (if first.length = 2 * blockLen then Option.some left else .none).getD []
      = left := by
    split
    · rfl
    · next notFull => exact (by_contra fun more => notFull (filled (Ne.symm more)))
  refine ⟨⟨?_, skipped, le, fun more => ?_⟩, ?_, trivial⟩
  · show (first ++ fresh.drop first.length).length = _
    rw [List.length_append, List.length_drop]
    omega
  · exact ⟨filled (pending ▸ more), some⟩
  · show ((first ++ fresh.drop first.length).take first.length).drop skip ++ Option.getD _ [] = _
    rw [List.take_left, pending, ← List.drop_append_of_le_length skipped, parts]

/-- Lines with their numbers, from behind `k` on. -/
def numbered : UInt32 → List (List UInt8) → List (UInt32 × List UInt8)
  | _, [] => []
  | k, line :: lines => (k + 1, line) :: numbered (k + 1) lines

@[simp] theorem length_numbered (k : UInt32) (lines : List (List UInt8)) :
    (numbered k lines).length = lines.length := by
  induction lines generalizing k with
  | nil => rfl
  | cons line lines ih => simp [numbered, ih]

/-- A line is numbered by how many come before it. -/
theorem fst_of_numbered {k : UInt32} {lines : List (List UInt8)}
    {before rest : List (UInt32 × List UInt8)} {line : UInt32 × List UInt8}
    (parts : numbered k lines = before ++ line :: rest) :
    line.1 = k + UInt32.ofNat (before.length + 1) := by
  induction before generalizing k lines with
  | nil =>
      cases lines with
      | nil => cases parts
      | cons first lines =>
          cases parts
          rfl
  | cons earlier before ih =>
      cases lines with
      | nil => cases parts
      | cons first lines =>
          rw [numbered, List.cons_append, List.cons.injEq] at parts
          rw [ih parts.2, List.length_cons, UInt32.ofNat_add (before.length + 1) 1,
            UInt32.add_assoc, UInt32.add_comm 1]
          rfl

theorem map_numbered (k : UInt32) (lines : List (List UInt8)) :
    (numbered k lines).map Prod.snd = lines := by
  induction lines generalizing k with
  | nil => rfl
  | cons line lines ih => rw [numbered, List.map_cons, ih]

/-- What `next_line` makes of a line. -/
def lineOf (blockLen : Nat) (line : UInt32 × List UInt8) : Except CsvError (List UInt8) :=
  if blockLen ≤ line.2.length then
    .error { kind := .lineLengthLimitExceeded, fileLine := line.1 }
  else .ok (text line.2)

/-- These lines are still to come. -/
structure Holds (blockLen : Nat) (r : LineReader) (lines : List (UInt32 × List UInt8)) : Prop where
  valid : r.Valid blockLen
  lines : lines = numbered r.fileLine (records newline r.rest)

theorem Holds.nil {r : LineReader} (holds : r.Holds blockLen []) :
    r.nextLine blockLen = .ok none := by
  refine nextLine_of_rest_nil holds.valid ?_
  by_contra more
  have lines := holds.lines
  rw [records_of_ne_nil more] at lines
  cases lines

theorem Holds.cons {r : LineReader} {line : UInt32 × List UInt8}
    {lines : List (UInt32 × List UInt8)} (holds : r.Holds blockLen (line :: lines)) :
    match lineOf blockLen line with
    | .error e => r.nextLine blockLen = .error e
    | .ok out => ∃ r', r.nextLine blockLen = .ok (some (out, r')) ∧ r'.Holds blockLen lines ∧
        r'.fileLine = line.1 := by
  have more : r.rest ≠ [] := by
    intro none
    have lines := holds.lines
    rw [none, records_nil] at lines
    cases lines
  have first := holds.lines
  rw [records_of_ne_nil more, numbered, List.cons.injEq] at first
  obtain ⟨rfl, rfl⟩ := first
  have spec := nextLine_spec holds.valid more
  simp only [lineOf]
  split at spec
  · next long =>
      rw [if_pos long]
      exact spec
  · next short =>
      rw [if_neg short]
      obtain ⟨r', next, valid, rest, fileLine⟩ := spec
      exact ⟨r', next, ⟨valid, by rw [fileLine, rest]⟩, fileLine⟩

theorem init_holds (two : 1 < blockLen) (length : fresh.length = 3 * blockLen)
    (file : List UInt8) :
    (init blockLen fresh file).Holds blockLen (numbered 0 (records newline (content file))) := by
  obtain ⟨valid, rest, fileLine⟩ := init_spec two length file
  exact ⟨valid, by rw [rest, fileLine]⟩

theorem reads_nextLine : Reads (nextLine blockLen) (lineOf blockLen) (Holds blockLen) where
  nil holds := holds.nil
  error holds failed := by
    have next := holds.cons
    rwa [failed] at next
  ok holds read := by
    have next := holds.cons
    rw [read] at next
    obtain ⟨r', next, holds, _⟩ := next
    exact ⟨r', next, holds⟩

end Init

/-- `block_len` -/
def blockLen : Nat := 1 <<< 20

/-- Whatever a file holds and however long it is: its lines are handed out in their order, the
last one also without a line feed, up to the first that is as long as a block. -/
theorem readAll_nextLine (fresh : Fin (3 * blockLen) → UInt8) (file : List UInt8) :
    readAll (nextLine blockLen) (file.length + 1) (init blockLen (List.ofFn fresh) file)
      = some ((numbered 0 (records newline (content file))).mapM (lineOf blockLen)) := by
  refine reads_nextLine.readAll_eq (init_holds (by decide) List.length_ofFn file) ?_
  rw [length_numbered]
  have lines := length_records_le newline (content file)
  have := length_content_le file
  omega

end LineReader

end Lra
