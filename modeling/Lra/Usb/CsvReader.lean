import Lra.Usb.LineReader
import Lra.Usb.PwmPlay

/-!
# The rows of a command file

`io::CSVReader<7>` as `PwmCmdTask` uses it to fill its queue: a line is taken apart at its
commas, and each of the seven columns is read as a float. The task catches nothing, so a line
that does not fit ends the program.
-/

namespace Lra

open Effect Text LineReader

namespace CsvReader

/-- `','` -/
def comma : UInt8 := 44

/-- `trim_chars<' ', '\t'>` -/
def isTrimChar (b : UInt8) : Bool := b = 32 || b = 9

/-- From the front first, then from the end. -/
def trim (col : List UInt8) : List UInt8 :=
  ((col.dropWhile isTrimChar).reverse.dropWhile isTrimChar).reverse

/-- The next column, and the line behind its comma, if it has one. -/
def chopNextColumn (line : List UInt8) : List UInt8 × Option (List UInt8) :=
  (line.takeWhile fun b => b ≠ comma,
    match line.dropWhile fun b => b ≠ comma with
    | [] => none
    | _ :: line => some line)

/-- The loop over so many columns. -/
def parseLine : Nat → Option (List UInt8) → Except CsvError (List (List UInt8))
  | 0, none => .ok []
  | 0, some _ => .error { kind := .tooManyColumns }
  | _ + 1, none => .error { kind := .tooFewColumns }
  | n + 1, some line => do
    let (col, line) := chopNextColumn line
    let cols ← parseLine n line
    return trim col :: cols

/-- What the errors of a line are completed with. -/
def setFileLine {α : Type} (fileLine : UInt32) : Except CsvError α → Except CsvError α
  | .error e => .error { e with fileLine }
  | .ok a => .ok a

section Reader

variable (parseFloat : List UInt8 → Option UInt32)

/-- The columns from number `r` on, each into its variable. `parseFloat` is `parse_float`,
which may find a character that is no digit. At most 63 bytes of such a column are kept. -/
def parseHelper : Nat → List (List UInt8) → Except CsvError (List UInt32)
  | _, [] => .ok []
  | r, col :: cols =>
    match parseFloat col with
    | some x => do
      let xs ← parseHelper (r + 1) cols
      return x :: xs
    | none => .error
      { kind := .noDigit, columnName := "col" ++ toString (r + 1), columnContent := col.take 63 }

/-- The variables in the order in which they are handed to `read_row`. -/
def csvRow (xs : List UInt32) : CsvRow where
  currentTime := xs.getD 0 0
  info :=
    { x := ⟨xs.getD 1 0, xs.getD 2 0⟩
      y := ⟨xs.getD 3 0, xs.getD 4 0⟩
      z := ⟨xs.getD 5 0, xs.getD 6 0⟩ }

/-- `column_count` -/
def columnCount : Nat := 7

def parseRow (line : List UInt8) : Except CsvError CsvRow := do
  let cols ← parseLine columnCount (some line)
  let xs ← parseHelper parseFloat 0 cols
  return csvRow xs

def readRow (r : LineReader) : Except CsvError (Option (CsvRow × LineReader)) := do
  match ← r.nextLine blockLen with
  | none => return none
  | some (line, r) => do
    let row ← setFileLine r.fileLine (parseRow parseFloat line)
    return some (row, r)

/-- The rows a `PwmCmdTask` loads, if its loop ends within `fuel` rounds. Without a file none
can be opened. -/
def load (fuel : Nat) (fresh : List UInt8) :
    Option (List UInt8) → Option (Except CsvError (List CsvRow))
  | none => some (.error { kind := .canNotOpenFile })
  | some file => readAll (readRow parseFloat) fuel (init blockLen fresh file)

/-! ### Columns -/

theorem chopNextColumn_of_not_mem {line : List UInt8} (none : comma ∉ line) :
    chopNextColumn line = (line, .none) := by
  have col : line.takeWhile (fun b => b ≠ comma) = line := upTo_of_not_mem none
  simp only [chopNextColumn, col, dropWhile_of_not_mem none]

theorem chopNextColumn_append {col line : List UInt8} (none : comma ∉ col) :
    chopNextColumn (col ++ comma :: line) = (col, some line) := by
  have first : (col ++ comma :: line).takeWhile (fun b => b ≠ comma) = col :=
    upTo_append_cons none
  simp only [chopNextColumn, first, dropWhile_append_cons none]

/-- A line has the columns between its commas; there have to be as many as are asked for. -/
theorem parseLine_eq (n : Nat) (line : List UInt8) :
    parseLine n (some line) =
      if (line.splitOn comma).length = n then .ok ((line.splitOn comma).map trim)
      else .error { kind :=
        if (line.splitOn comma).length < n then .tooFewColumns else .tooManyColumns } := by
  induction n generalizing line with
  | zero => simp [parseLine, List.splitOn_ne_nil]
  | succ n ih =>
      by_cases mem : comma ∈ line
      · obtain ⟨col, rest, rfl, none⟩ := List.eq_append_cons_of_mem mem
        rw [List.splitOn_append_cons_self_of_not_mem none, parseLine, chopNextColumn_append none]
        simp only [ih, List.length_cons, Nat.add_right_cancel_iff, Nat.add_lt_add_iff_right,
          List.map_cons]
        split <;> rfl
      · rw [List.splitOn_eq_singleton mem, parseLine, chopNextColumn_of_not_mem mem]
        cases n with
        | zero => rfl
        | succ n => simp [parseLine]

theorem parseHelper_ok_iff {r : Nat} {cols : List (List UInt8)} {xs : List UInt32} :
    parseHelper parseFloat r cols = .ok xs ↔ cols.map parseFloat = xs.map some := by
  induction cols generalizing r xs with
  | nil =>
      rw [parseHelper, Except.ok.injEq, List.map_nil, eq_comm, eq_comm (a := []),
        List.map_eq_nil_iff]
  | cons col cols ih =>
      rw [parseHelper, List.map_cons]
      cases parseFloat col with
      | none => cases xs <;> simp
      | some x =>
          simp only [except_bind_eq_ok, ih]
          cases xs with
          | nil => simp [pure, Except.pure]
          | cons y ys =>
              simp only [List.map_cons, List.cons.injEq, Option.some.injEq, pure, Except.pure,
                Except.ok.injEq]
              constructor
              · rintro ⟨_, rest, rfl, rfl⟩
                exact ⟨rfl, rest⟩
              · rintro ⟨rfl, rest⟩
                exact ⟨ys, rest, rfl, rfl⟩

/-! ### Rows -/

/-- What the task makes of a line. -/
def rowAt (line : UInt32 × List UInt8) : Except CsvError CsvRow := do
  let out ← lineOf blockLen line
  setFileLine line.1 (parseRow parseFloat out)

/-- The line is shorter than a block, it has seven columns, each of them is a float once the
blanks around it are gone, and these are the variables of the row. -/
def Fits (line : List UInt8) (row : CsvRow) : Prop :=
  line.length < blockLen ∧ ∃ xs : List UInt32,
    ((LineReader.text line).splitOn comma).map (fun col => parseFloat (trim col)) = xs.map some ∧
      xs.length = columnCount ∧ row = csvRow xs

theorem parseRow_ok_iff {line : List UInt8} {row : CsvRow} :
    parseRow parseFloat line = .ok row ↔ ∃ xs : List UInt32,
      (line.splitOn comma).map (fun col => parseFloat (trim col)) = xs.map some ∧
        xs.length = columnCount ∧ row = csvRow xs := by
  simp only [parseRow, except_bind_eq_ok, parseLine_eq, parseHelper_ok_iff]
  constructor
  · rintro ⟨cols, parts, xs, cells, same⟩
    split at parts
    · next count =>
        obtain rfl := Except.ok.inj parts
        rw [List.map_map] at cells
        refine ⟨xs, cells, ?_, (Except.ok.inj same).symm⟩
        have lengths := congrArg List.length cells
        rw [List.length_map, List.length_map] at lengths
        exact lengths.symm.trans count
    · cases parts
  · rintro ⟨xs, cells, count, rfl⟩
    have lengths := congrArg List.length cells
    rw [List.length_map, List.length_map] at lengths
    refine ⟨_, if_pos (lengths.trans count), xs, ?_, rfl⟩
    rw [List.map_map]
    exact cells

theorem setFileLine_eq_ok_iff {α : Type} {k : UInt32} {x : Except CsvError α} {a : α} :
    setFileLine k x = .ok a ↔ x = .ok a := by
  cases x <;> simp [setFileLine]

theorem rowAt_ok_iff {line : UInt32 × List UInt8} {row : CsvRow} :
    rowAt parseFloat line = .ok row ↔ Fits parseFloat line.2 row := by
  simp only [rowAt, except_bind_eq_ok, setFileLine_eq_ok_iff, parseRow_ok_iff, lineOf, Fits]
  constructor
  · rintro ⟨out, short, cells⟩
    split at short
    · cases short
    · next fits =>
        obtain rfl := Except.ok.inj short
        exact ⟨Nat.lt_of_not_le fits, cells⟩
  · rintro ⟨short, cells⟩
    exact ⟨_, if_neg (Nat.not_le_of_lt short), cells⟩

/-- An error names the line it is about. -/
theorem fileLine_of_rowAt {line : UInt32 × List UInt8} {e : CsvError}
    (thrown : rowAt parseFloat line = .error e) : e.fileLine = line.1 := by
  rw [rowAt, lineOf] at thrown
  split at thrown
  · cases thrown
    rfl
  · rw [except_ok_bind] at thrown
    cases parsed : parseRow parseFloat (LineReader.text line.2) with
    | error e' =>
        rw [parsed] at thrown
        cases thrown
        rfl
    | ok row =>
        rw [parsed] at thrown
        cases thrown

theorem reads_readRow : Reads (readRow parseFloat) (rowAt parseFloat) (Holds blockLen) where
  nil holds := by
    rw [readRow, holds.nil]
    rfl
  error {r line lines e} holds thrown := by
    have next := holds.cons
    rw [rowAt] at thrown
    cases taken : lineOf blockLen line with
    | error e' =>
        rw [taken] at next thrown
        cases thrown
        rw [readRow, next]
        rfl
    | ok out =>
        rw [taken] at next thrown
        obtain ⟨r', next, _, fileLine⟩ := next
        rw [except_ok_bind] at thrown
        rw [readRow, next, except_ok_bind]
        simp only [fileLine, thrown]
        rfl
  ok {r line lines row} holds read := by
    have next := holds.cons
    rw [rowAt] at read
    cases taken : lineOf blockLen line with
    | error e =>
        rw [taken] at read
        cases read
    | ok out =>
        rw [taken] at next read
        obtain ⟨r', next, holds, fileLine⟩ := next
        rw [except_ok_bind] at read
        refine ⟨r', ?_, holds⟩
        rw [readRow, next, except_ok_bind]
        simp only [fileLine, read]
        rfl

/-! ### The whole file -/

theorem load_eq (fresh : Fin (3 * blockLen) → UInt8) (file : List UInt8) :
    load parseFloat (file.length + 1) (List.ofFn fresh) (some file)
      = some ((numbered 0 (records newline (content file))).mapM (rowAt parseFloat)) := by
  refine (reads_readRow parseFloat).readAll_eq (init_holds (by decide) List.length_ofFn file) ?_
  have lines := length_records_le newline (content file)
  have := length_content_le file
  rw [length_numbered]
  omega

/-- A file is loaded exactly when all of its lines fit, each of them as the row it gives. -/
theorem load_ok_iff (fresh : Fin (3 * blockLen) → UInt8) {file : List UInt8} {rows : List CsvRow} :
    load parseFloat (file.length + 1) (List.ofFn fresh) (some file) = some (.ok rows) ↔
      List.Forall₂ (Fits parseFloat) (records newline (content file)) rows := by
  have lines := map_numbered 0 (records newline (content file))
  have each : List.Forall₂ (Fits parseFloat) (records newline (content file)) rows ↔
      List.Forall₂ (fun line row => rowAt parseFloat line = .ok row)
        (numbered 0 (records newline (content file))) rows := by
    rw [← lines, List.forall₂_map_left_iff, lines]
    simp only [rowAt_ok_iff]
  rw [load_eq, each, Option.some.injEq, mapM_eq_ok_iff]

/-- Of a file that does not fit no row is used, and the error names the first line that does
not. -/
theorem load_spec (fresh : Fin (3 * blockLen) → UInt8) (file : List UInt8) :
    (∃ rows, load parseFloat (file.length + 1) (List.ofFn fresh) (some file) = some (.ok rows) ∧
      List.Forall₂ (Fits parseFloat) (records newline (content file)) rows) ∨
    ∃ e before line rest rows, load parseFloat (file.length + 1) (List.ofFn fresh) (some file)
        = some (.error e) ∧
      records newline (content file) = before ++ line :: rest ∧
      List.Forall₂ (Fits parseFloat) before rows ∧ (∀ row, ¬ Fits parseFloat line row) ∧
      e.fileLine = UInt32.ofNat (before.length + 1) := by
  have all := load_eq parseFloat fresh file
  rcases mapM_cases (rowAt parseFloat) (numbered 0 (records newline (content file))) with
    ⟨rows, loaded, _⟩ | ⟨e, before, line, rest, rows, thrown, parts, each, last⟩
  · rw [loaded] at all
    exact .inl ⟨rows, all, (load_ok_iff parseFloat fresh).mp all⟩
  · rw [thrown] at all
    refine .inr ⟨e, before.map Prod.snd, line.2, rest.map Prod.snd, rows, all, ?_, ?_, ?_, ?_⟩
    · rw [← map_numbered 0 (records newline (content file)), parts, List.map_append, List.map_cons]
    · rw [List.forall₂_map_left_iff]
      exact each.imp fun earlier row read => (rowAt_ok_iff parseFloat).mp read
    · intro row fits
      have read := (rowAt_ok_iff parseFloat).mpr fits
      rw [last] at read
      cases read
    · rw [fileLine_of_rowAt parseFloat last, fst_of_numbered parts, List.length_map,
        UInt32.zero_add]

/-! ### From the file to the port -/

/-- A task that has played a file once called `DevPwmCmd` for each row, and then to stop. -/
theorem calls_of_done {rows : List CsvRow} {clock : Clock} {s : PwmPlay}
    (played : PwmPlay.Played (commands rows) false clock s) (done : s.point = .done) :
    s.calls.map Prod.fst = rows.map CsvRow.info ++ [stopInfo] := by
  have length := (played.done.mp done).2
  have infos := PwmPlay.map_info_playList none rows
  rw [← infos]
  apply List.ext_getElem?
  intro i
  rw [List.getElem?_map]
  cases call : s.calls[i]? with
  | none =>
      rw [List.getElem?_eq_none_iff, length] at call
      symm
      rw [Option.map_none, List.getElem?_eq_none_iff, List.length_append, List.length_map]
      exact call
  | some c =>
      by_cases row : i < (commands rows).length
      · obtain ⟨cmd, here, info, _⟩ := played.row i c.1 c.2 call (.inr row)
        rw [Nat.mod_eq_of_lt row] at here
        rw [List.getElem?_append_left (by rwa [List.length_map]), List.getElem?_map]
        exact (congrArg some info).trans (congrArg (Option.map RcwsPwmCmd.info) here).symm
      · obtain ⟨rfl, info⟩ := played.stop rfl i c.1 c.2 call (Nat.le_of_not_lt row)
        have length : ((commands rows).map RcwsPwmCmd.info).length = (commands rows).length :=
          List.length_map _
        rw [Option.map_some, info, ← length]
        exact List.getElem?_concat_length.symm

theorem exists_done {rows : List CsvRow} (nonempty : rows ≠ []) {clock : Clock}
    (reaches : ∀ cmd ∈ commands rows, ∃ i, cmd.Reached (clock.count i)) :
    ∃ n s, PwmPlay.play false rows clock n = some s ∧ s.point = .done := by
  obtain ⟨n, s, at_, ended⟩ :=
    PwmPlay.play_progress nonempty reaches ((commands rows).length + 2)
  refine ⟨n, s, at_, ended.resolve_right fun many => ?_⟩
  have inside : (commands rows).length + 1 < s.calls.length := many
  have behind := (PwmPlay.play_played_at nonempty at_).stop rfl _ _ _
    (List.getElem?_eq_getElem inside) (Nat.le_succ _)
  omega

/-- The frame a line leads to: one that carries its numbers, if these are in range. -/
def Sends (line frame : List UInt8) : Prop :=
  ∃ row, Fits parseFloat line row ∧ (Rcws.InRange row.info → ∃ payload : List UInt8,
    payload.length = 30 ∧ Rcws.Carries payload row.info ∧
      frame = RcwsMsgGenerator.generate .updatePwm payload)

/-- A file whose lines all fit is loaded and, if the clock reaches all of its times, played to
its end: to an open port a frame is written for every line, in their order, and one to stop. -/
theorem frames_of_file (fresh : Fin (3 * blockLen) → UInt8) {file : List UInt8}
    {rows : List CsvRow}
    (fits : List.Forall₂ (Fits parseFloat) (records newline (content file)) rows)
    (nonempty : rows ≠ []) {clock : Clock}
    (reaches : ∀ cmd ∈ commands rows, ∃ i, cmd.Reached (clock.count i)) :
    load parseFloat (file.length + 1) (List.ofFn fresh) (some file) = some (.ok rows) ∧
      ∃ n s frames, PwmPlay.play false rows clock n = some s ∧ s.point = .done ∧
        (s.calls.flatMap fun call => Rcws.written call.1) = frames ++ Rcws.written stopInfo ∧
        List.Forall₂ (Sends parseFloat) (records newline (content file)) frames := by
  obtain ⟨n, s, at_, done⟩ := exists_done nonempty reaches
  have calls := calls_of_done (PwmPlay.play_played_at nonempty at_) done
  refine ⟨(load_ok_iff parseFloat fresh).mpr fits, n, s,
    rows.map fun row => RcwsMsgGenerator.generate .updatePwm (Rcws.rcwsPwmInfoToVec row.info),
    at_, done, ?_, ?_⟩
  · have all := congrArg (List.flatMap Rcws.written) calls
    rw [List.flatMap_map, List.flatMap_append, List.flatMap_map] at all
    rw [all, List.flatMap_singleton, List.map_eq_flatMap]
    rfl
  · rw [List.forall₂_map_right_iff]
    refine fits.imp fun line row fit => ⟨row, fit, fun inRange => ?_⟩
    have vec := Rcws.rcwsPwmInfoToVec_eq (Rcws.rangeCheck_iff.mpr inRange)
    refine ⟨_, ?_, Rcws.carries_axes row.info, by rw [vec]⟩
    simp [RcwsParser.byteCountPerAxis]

end Reader

/-- The digits 0, 5 and 6. -/
def parseDigit : List UInt8 → Option UInt32
  | [48] => some 0
  | [53] => some 0x40A00000
  | [54] => some 0x40C00000
  | _ => none

/-- `0,5,5,5,5,5,5` -/
def fives : List UInt8 := [48, 44, 53, 44, 53, 44, 53, 44, 53, 44, 53, 44, 53]

/-- `5,6,6,6,6,6,6` -/
def sixes : List UInt8 := [53, 44, 54, 44, 54, 44, 54, 44, 54, 44, 54, 44, 54]

def five : PwmInfo := ⟨0x40A00000, 0x40A00000⟩

def six : PwmInfo := ⟨0x40C00000, 0x40C00000⟩

/-- Two lines, five seconds apart. -/
theorem frames_of_file_fives :
    ∃ n s frames, PwmPlay.play false [⟨0, ⟨five, five, five⟩⟩, ⟨0x40A00000, ⟨six, six, six⟩⟩]
        (.still 5000 (by decide)) n = some s ∧
      s.point = .done ∧
      (s.calls.flatMap fun call => Rcws.written call.1) = frames ++ Rcws.written stopInfo ∧
      List.Forall₂ (Sends parseDigit) [fives, sixes] frames := by
  have lines : records newline (content (fives ++ newline :: sixes)) = [fives, sixes] := by
    decide +kernel
  have fits : List.Forall₂ (Fits parseDigit) (records newline (content (fives ++ newline :: sixes)))
      [⟨0, ⟨five, five, five⟩⟩, ⟨0x40A00000, ⟨six, six, six⟩⟩] := by
    rw [lines]
    refine .cons ⟨by decide, 0 :: List.replicate 6 0x40A00000, ?_, rfl, rfl⟩ <|
      .cons ⟨by decide, 0x40A00000 :: List.replicate 6 0x40C00000, ?_, rfl, rfl⟩ .nil
    · decide +kernel
    · decide +kernel
  have reaches : ∀ cmd ∈ commands [⟨0, ⟨five, five, five⟩⟩, ⟨0x40A00000, ⟨six, six, six⟩⟩],
      cmd.Reached 5000 := by
    decide +kernel
  have played := @frames_of_file parseDigit (fun _ => 0) (fives ++ newline :: sixes) _ fits
    (List.cons_ne_nil _ _) (.still 5000 (by decide)) fun cmd mem => ⟨0, reaches cmd mem⟩
  rw [lines] at played
  exact played.2

end CsvReader

end Lra
