import Lra.Effect.Fallible
import Lra.Number.LittleEndian
import Lra.Usb.RcwsParser

/-!
# The rows of an acc message

What `Parse` makes of a message of type `USB_IN_CMD_UPDATE_ACC`, as a function of its body:
which of the two validations fails, and which rows go to the file. The terminator is only
reported, so a whole number of data sets is written whatever stands at its place.
-/

namespace Lra

open Effect Buffer

namespace RcwsParser

/-! ### What the body says -/

/-- The body of a whole number of data sets and a terminator. -/
def WholeSets (body : List UInt8) : Prop := 2 ≤ body.length ∧ 16 ∣ body.length - 2

instance : DecidablePred WholeSets :=
  fun body => inferInstanceAs (Decidable (2 ≤ body.length ∧ 16 ∣ body.length - 2))

/-- The last two bytes are `\r\n`. -/
def Terminated (body : List UInt8) : Prop := body.drop (body.length - 2) = [0x0D, 0x0A]

instance : DecidablePred Terminated :=
  fun body => inferInstanceAs (Decidable (body.drop (body.length - 2) = [0x0D, 0x0A]))

/-- What is logged for the validation that fails. -/
def accFailure (body : List UInt8) : Option String :=
  if ¬ WholeSets body then some "Acc data len mismatch!!"
  else if ¬ Terminated body then some "Acc data \r\n wrong place!!"
  else none

/-- The little-endian word at an offset. -/
def wordAt (msg : List UInt8) (pos : Nat) : UInt32 :=
  UInt32.ofNat (LittleEndian.value ((msg.drop pos).take 4))

/-- The row of the words at `3 + 16 * i`, `7 + 16 * i`, `11 + 16 * i` and `15 + 16 * i`. -/
def accRow (msg : List UInt8) (i : Nat) : AccDataSet where
  t := wordAt msg (3 + 16 * i)
  x := wordAt msg (7 + 16 * i)
  y := wordAt msg (11 + 16 * i)
  z := wordAt msg (15 + 16 * i)

def accRows (msg : List UInt8) (n : Nat) : List AccDataSet := (List.range n).map (accRow msg)

/-- The rows a call appends to the acc file. -/
def Output.rows (out : Output) : List AccDataSet := out.accFile.getD []

/-! ### The parts of the branch -/

theorem floatAt_eq (msg : List UInt8) (pos : Nat) : floatAt msg pos = wordAt msg pos := by
  have short : ((msg.drop pos).take 4).length ≤ 4 := List.length_take_le ..
  apply UInt32.toNat_inj.mp
  have fits : LittleEndian.value ((msg.drop pos).take 4) < 2 ^ 32 :=
    Nat.lt_of_lt_of_le (LittleEndian.value_lt _) (Nat.pow_le_pow_right (by decide) short)
  rw [floatAt, LittleEndian.toNat_foldr short, wordAt, UInt32.toNat_ofNat_of_lt' fits]

theorem readDataSet_eq {msg : List UInt8} {i : Nat} (h : 3 + 16 * i + 16 ≤ msg.length) :
    readDataSet msg i = .ok (accRow msg i) := by
  have swap : i * 16 = 16 * i := Nat.mul_comm ..
  have second : 3 + 16 * i + 4 = 7 + 16 * i := by omega
  have third : 3 + 16 * i + 8 = 11 + 16 * i := by omega
  have fourth : 3 + 16 * i + 12 = 15 + 16 * i := by omega
  rw [readDataSet, swap, second, third, fourth]
  rw [readFloat_eq (by omega), ok_bind, readFloat_eq (by omega), ok_bind,
    readFloat_eq (by omega), ok_bind, readFloat_eq (by omega), ok_bind]
  simp only [floatAt_eq]
  rfl

/-- The two bytes at the end. -/
theorem exists_last_two {body : List UInt8} (two : 2 ≤ body.length) :
    ∃ cr lf, body[body.length - 2]? = some cr ∧ body[body.length - 1]? = some lf ∧
      (Terminated body ↔ cr = 0x0D ∧ lf = 0x0A) := by
  have next : body.length - 2 + 1 = body.length - 1 := by omega
  have past : body.length - 1 + 1 = body.length := by omega
  have inside : body.length - 2 < body.length := by omega
  have inside' : body.length - 1 < body.length := by omega
  refine ⟨body[body.length - 2], body[body.length - 1], List.getElem?_eq_getElem inside,
    List.getElem?_eq_getElem inside', ?_⟩
  unfold Terminated
  rw [List.drop_eq_getElem_cons inside, List.drop_eq_getElem_cons (by omega)]
  simp [next, past]

section Branch

variable {high low : UInt8} {body : List UInt8}

/-- The message around a body. -/
def accMsg (high low : UInt8) (body : List UInt8) : List UInt8 :=
  UsbCmd.updateAcc.inCode :: high :: low :: body

theorem get_accMsg {i : Nat} {b : UInt8} (h : body[i]? = some b) :
    get (accMsg high low body) (i + 3) = .ok b := by
  simp [Buffer.get, accMsg, h]

theorem misplacedEop_eq {n : UInt16} (len : body.length = n.toNat) (two : 2 ≤ body.length) :
    misplacedEop (accMsg high low body) n = .ok (decide (¬ Terminated body)) := by
  obtain ⟨cr, lf, atCr, atLf, terminated⟩ := exists_last_two two
  have crPlace : n.toNat + 1 = body.length - 2 + 3 := by omega
  have lfPlace : n.toNat + 2 = body.length - 1 + 3 := by omega
  rw [misplacedEop, crPlace, lfPlace, get_accMsg atCr, ok_bind, get_accMsg atLf]
  simp only [terminated]
  by_cases isCr : cr = 0x0D
  · by_cases isLf : lf = 0x0A
    · simp [isCr, isLf, pure, Except.pure]
    · simp [isCr, isLf, pure, Except.pure]
  · simp [isCr, pure, Except.pure]

/-- The whole branch: what it logs and the rows it hands on. -/
theorem updateAcc_eq (len : body.length = (dataLen [UsbCmd.updateAcc.inCode, high, low]).toNat) :
    updateAcc (accMsg high low body) = .ok ((accFailure body).getD "",
      if WholeSets body then some (accRows (accMsg high low body) ((body.length - 2) / 16))
      else none) := by
  have header : dataLenOf (accMsg high low body) =
      .ok (dataLen [UsbCmd.updateAcc.inCode, high, low]) := dataLenOf_eq
  rw [updateAcc, header, ok_bind]
  generalize dataLen [UsbCmd.updateAcc.inCode, high, low] = n at len
  by_cases whole : WholeSets body
  · have two : 2 ≤ body.length := whole.1
    have fits : (n.toUInt64 - 2) % 16 = 0 := dataSets_whole_iff.mpr (len ▸ whole)
    have rows : (List.range ((body.length - 2) / 16)).mapM (readDataSet (accMsg high low body)) =
        .ok (accRows (accMsg high low body) ((body.length - 2) / 16)) := by
      apply Effect.mapM_eq
      intro i hi
      have := List.mem_range.mp hi
      apply readDataSet_eq
      simp only [accMsg, List.length_cons]
      omega
    have count := dataSets_count (n := n) (by omega)
    rw [← len] at count
    have notEmpty : 0 < body.length := by omega
    have first : get (accMsg high low body) 3 = .ok body[0] :=
      get_accMsg (List.getElem?_eq_getElem notEmpty)
    have fails : accFailure body =
        if ¬ Terminated body then some "Acc data \r\n wrong place!!" else none :=
      if_neg (not_not_intro whole)
    simp only [fits, bne_self_eq_false, Bool.false_eq_true, if_false, misplacedEop_eq len two,
      ok_bind, first, count, rows, fails, if_pos whole]
    by_cases ended : Terminated body
    · simp [ended, pure, Except.pure]
    · simp [ended, pure, Except.pure]
  · have short : ¬ (n.toUInt64 - 2) % 16 = 0 := by
      rw [dataSets_whole_iff, ← len]
      exact whole
    simp [short, whole, accFailure, pure, Except.pure]

/-- What a call with an acc message prints and appends. -/
theorem parse_acc (files : Files)
    (len : body.length = (dataLen [UsbCmd.updateAcc.inCode, high, low]).toNat) :
    parse files (accMsg high low body) = .ok {
      printed := printed (some .updateAcc) ((accFailure body).getD "")
      accFile :=
        if files.acc then
          if WholeSets body then some (accRows (accMsg high low body) ((body.length - 2) / 16))
          else none
        else none } := by
  have type : UsbCmd.ofInCode? UsbCmd.updateAcc.inCode = some .updateAcc :=
    UsbCmd.ofInCode?_inCode .updateAcc
  have branch : parseAs UsbCmd.updateAcc.inCode (accMsg high low body) =
      updateAcc (accMsg high low body) >>= fun r => return { logMsg := r.1, acc := r.2 } := by
    simp only [parseAs, type]
  have start : parse files (accMsg high low body) =
      parseAs UsbCmd.updateAcc.inCode (accMsg high low body) >>= fun out => return {
        printed := printed (UsbCmd.ofInCode? UsbCmd.updateAcc.inCode) out.logMsg
        pwmFile := if files.pwm then out.pwm else none
        accFile := if files.acc then out.acc else none } := rfl
  rw [start, branch, updateAcc_eq len, type]
  simp [pure, Except.pure]

/-! ### Messages from the reader -/

theorem Received.body_length {type : UInt8} (received : Received (type :: high :: low :: body)) :
    body.length = (dataLen [type, high, low]).toNat := by
  cases received
  assumption

/-- Without a whole number of data sets nothing is written. With one every read is inside
the message, and with the terminator in its place the rows are the data sets in order. -/
theorem acc_rows (files : Files) (received : Received (accMsg high low body)) :
    (body.length < 2 ∨ ¬ 16 ∣ body.length - 2 →
      ∃ out, parse files (accMsg high low body) = .ok out ∧ out.accFile = none) ∧
    (2 ≤ body.length → 16 ∣ body.length - 2 →
      ∃ out, parse files (accMsg high low body) = .ok out ∧
        (Terminated body → out.accFile =
          if files.acc then some (accRows (accMsg high low body) ((body.length - 2) / 16))
          else none)) := by
  have parsed := parse_acc files received.body_length
  constructor
  · intro mismatch
    have whole : ¬ WholeSets body := by
      rintro ⟨two, sets⟩
      rcases mismatch with short | odd
      · exact absurd two (Nat.not_le_of_lt short)
      · exact odd sets
    exact ⟨_, parsed, by simp [whole]⟩
  · intro two sets
    have whole : WholeSets body := ⟨two, sets⟩
    exact ⟨_, parsed, fun _ => by simp [whole]⟩

/-- Two data sets and the terminator. -/
def twoRows : List UInt8 :=
  [0, 0, 0x80, 0x3F, 1, 0, 0, 0, 2, 0, 0, 0, 3, 0, 0, 0,
    4, 1, 0, 0, 5, 0, 1, 0, 6, 0, 0, 1, 7, 0, 0, 0xC0, 0x0D, 0x0A]

theorem acc_rows_two : ∃ out, parse ⟨true, true⟩ (accMsg 0 34 twoRows) = .ok out ∧
    out.accFile = some [⟨0x3F800000, 1, 2, 3⟩, ⟨0x104, 0x10005, 0x1000006, 0xC0000007⟩] := by
  have received : Received (accMsg 0 34 twoRows) := .message rfl
  obtain ⟨out, parsed, rows⟩ := (acc_rows ⟨true, true⟩ received).2 (by decide) (by decide)
  exact ⟨out, parsed, (rows (by decide)).trans (by decide)⟩

theorem accFailure_eq_some {why : String} (fails : accFailure body = some why) :
    ¬ WholeSets body ∧ why = "Acc data len mismatch!!" ∨
      WholeSets body ∧ ¬ Terminated body ∧ why = "Acc data \r\n wrong place!!" := by
  unfold accFailure at fails
  split_ifs at fails with whole ended
  · cases fails
    exact .inr ⟨whole, ended, rfl⟩
  · cases fails
    exact .inl ⟨whole, rfl⟩

/-- The failure is logged and no row appended, for every message but one with data sets
and something else in place of the terminator. -/
theorem refused_iff (files : Files) (received : Received (accMsg high low body)) :
    (∀ why ∈ accFailure body, ∃ out, parse files (accMsg high low body) = .ok out ∧
      out.printed = some ("\r[]: " ++ why ++ "\n-> ") ∧ out.rows = []) ↔
    ¬ (files.acc ∧ 18 ≤ body.length ∧ 16 ∣ body.length - 2 ∧ ¬ Terminated body) := by
  have parsed := parse_acc files received.body_length
  constructor
  · rintro refused ⟨opened, long, sets, cut⟩
    have whole : WholeSets body := ⟨by omega, sets⟩
    have fails : accFailure body = some "Acc data \r\n wrong place!!" := by
      simp [accFailure, whole, cut]
    obtain ⟨out, ran, _, empty⟩ := refused _ fails
    obtain rfl := Except.ok.inj (parsed.symm.trans ran)
    have length := congrArg List.length empty
    simp only [Output.rows, opened, whole, if_true, Option.getD_some, accRows, List.length_map,
      List.length_range, List.length_nil] at length
    omega
  · intro written why fails
    refine ⟨_, parsed, ?_, ?_⟩
    · rw [fails]
      change printed (some .updateAcc) why = _
      rcases accFailure_eq_some fails with ⟨_, rfl⟩ | ⟨_, _, rfl⟩
      · decide
      · decide
    · rcases accFailure_eq_some fails with ⟨mismatch, _⟩ | ⟨⟨two, sets⟩, cut, _⟩
      · simp [Output.rows, mismatch]
      · by_cases opened : files.acc = true
        · have noSet : (body.length - 2) / 16 = 0 := by
            by_contra some
            exact written ⟨opened, by omega, sets, cut⟩
          have whole : WholeSets body := ⟨two, sets⟩
          simp [Output.rows, opened, whole, accRows, noSet]
        · simp [Output.rows, opened]

/-- A body that was cut one byte late. -/
def cutLate : List UInt8 :=
  [0, 0x80, 0x3F, 1, 0, 0, 0, 2, 0, 0, 0, 3, 0, 0, 0, 0x0D, 0x0A, 0]

theorem cutLate_not_refused :
    ¬ ∀ (files : Files) (high low : UInt8) (body : List UInt8),
      Received (accMsg high low body) → ∀ why ∈ accFailure body,
        ∃ out, parse files (accMsg high low body) = .ok out ∧
          out.printed = some ("\r[]: " ++ why ++ "\n-> ") ∧ out.rows = [] := by
  intro refused
  obtain ⟨out, parsed, _, empty⟩ := refused ⟨true, true⟩ 0 18 cutLate (.message rfl)
    "Acc data \r\n wrong place!!" (by decide)
  have rows : (parse ⟨true, true⟩ (accMsg 0 18 cutLate)).toOption.map (·.rows.length) = some 1 := by
    decide
  rw [parsed, Except.toOption, Option.map_some, empty] at rows
  cases rows

/-- One data set and the terminator. -/
def oneRow : List UInt8 :=
  [0, 0, 0x80, 0x3F, 1, 0, 0, 0, 2, 0, 0, 0, 3, 0, 0, 0, 0x0D, 0x0A]

theorem refused_oneRow : ∃ out, parse ⟨true, true⟩ (accMsg 0 17 oneRow.tail) = .ok out ∧
    out.printed = some ("\r[]: " ++ "Acc data len mismatch!!" ++ "\n-> ") ∧ out.rows = [] := by
  have received : Received (accMsg 0 17 oneRow.tail) := .message rfl
  have refused := (refused_iff ⟨true, true⟩ received).mpr fun ⟨_, long, _⟩ =>
    absurd long (by decide)
  exact refused "Acc data len mismatch!!" (by decide)

end Branch

end RcwsParser

end Lra
