import Lra.Number.WholeNumbers
import Lra.Usb.CsvReader
import Lra.Usb.ParseFloat

/-!
# Command files and their numbers

The columns of a command file are read with `parse_float` in single precision. Which files
are loaded is said here without the two readers: those of lines of seven numerals. A table of
whole numbers is loaded as it was written.
-/

namespace Lra

open Text Decimal ParseFloat Binary32

namespace CsvReader

open LineReader

/-- `float`. `T(0.1)` is the number nearest to it. -/
def single : Arithmetic Float32 where
  ofInt n := ofInt32 (.ofInt n)
  add x y := x + y
  mul x y := x * y
  div x y := x / y
  neg x := -x
  tenth := .ofBits 0x3DCCCCCD

/-- Wherever `parse_float` is defined, this is what it does. -/
def ReadsFloat (parse : List UInt8 → Option UInt32) : Prop :=
  ∀ col, match parseFloat single col with
    | .value x => parse col = some x.toBits
    | .noDigit => parse col = none
    | .undefined => True

/-- A reader that refuses what is not defined. -/
def readSingle (col : List UInt8) : Option UInt32 :=
  match parseFloat single col with
  | .value x => some x.toBits
  | .noDigit | .undefined => none

theorem readsFloat_readSingle : ReadsFloat readSingle := by
  intro col
  cases read : parseFloat single col <;> simp [readSingle, read]

def columns (line : List UInt8) : List (List UInt8) :=
  ((LineReader.text line).splitOn comma).map trim

/-! ### Numerals -/

/-- The numeral is all of the column, or its exponent does not fit. -/
def IsNumeral (n : Decimal) (col : List UInt8) : Prop :=
  ∃ rest, col = n.text ++ rest ∧ (TooLarge n.power ∨ rest = [])

/-- A line that is shorter than a block and has seven columns, each with the property. -/
def Row (P : List UInt8 → Prop) (line : List UInt8) : Prop :=
  line.length < blockLen ∧ (columns line).length = columnCount ∧ ∀ col ∈ columns line, P col

section Numerals

variable {parse : List UInt8 → Option UInt32} {col line : List UInt8}

theorem exists_value (reads : ReadsFloat parse) {n : Decimal} (numeral : IsNumeral n col)
    (defined : intMin < n.power) : ∃ x, parse col = some x := by
  obtain ⟨rest, rfl, all⟩ := numeral
  have kind := kind_parseFloat single exact (n.text ++ rest)
  rw [parseFloat_text n all, outcome, scaledBy, if_neg (Int.not_le.mpr defined)] at kind
  have same := reads (n.text ++ rest)
  cases result : parseFloat single (n.text ++ rest) with
  | value x =>
      rw [result] at same
      exact ⟨_, same⟩
  | noDigit | undefined =>
      rw [result] at kind
      cases kind

theorem exists_numeral (reads : ReadsFloat parse) {x : UInt32} (read : parse col = some x) :
    ∃ n, IsNumeral n col := by
  obtain ⟨n, rest, rfl, result⟩ := exists_decimal col
  refine ⟨n, rest, rfl, ?_⟩
  by_contra neither
  rw [if_neg neither] at result
  have kind := kind_parseFloat single exact (n.text ++ rest)
  rw [result] at kind
  have same := reads (n.text ++ rest)
  cases other : parseFloat single (n.text ++ rest) with
  | noDigit =>
      rw [other] at same
      cases read.symm.trans same
  | value y | undefined =>
      rw [other] at kind
      cases kind

theorem fits_iff {row : CsvRow} : Fits parse line row ↔ line.length < blockLen ∧
    ∃ xs : List UInt32, (columns line).map parse = xs.map some ∧ xs.length = columnCount ∧
      row = csvRow xs := by
  rw [Fits, columns, List.map_map]
  rfl

theorem exists_fits (reads : ReadsFloat parse)
    (row : Row (fun col => ∃ n, IsNumeral n col ∧ intMin < n.power) line) :
    ∃ row, Fits parse line row := by
  obtain ⟨short, count, numerals⟩ := row
  have each : ∀ col ∈ columns line, ∃ x, parse col = some x := fun col mem => by
    obtain ⟨n, numeral, defined⟩ := numerals col mem
    exact exists_value reads numeral defined
  obtain ⟨xs, cells⟩ : ∃ xs : List UInt32, (columns line).map parse = xs.map some := by
    refine ⟨(columns line).map fun col => (parse col).getD 0, ?_⟩
    rw [List.map_map]
    refine List.map_congr_left fun col mem => ?_
    obtain ⟨x, read⟩ := each col mem
    simp [read]
  have lengths := congrArg List.length cells
  rw [List.length_map, List.length_map] at lengths
  exact ⟨_, fits_iff.mpr ⟨short, xs, cells, lengths.symm.trans count, rfl⟩⟩

theorem row_of_fits (reads : ReadsFloat parse) {row : CsvRow} (fits : Fits parse line row) :
    Row (fun col => ∃ n, IsNumeral n col) line := by
  obtain ⟨short, xs, cells, count, _⟩ := fits_iff.mp fits
  have lengths := congrArg List.length cells
  rw [List.length_map, List.length_map] at lengths
  refine ⟨short, lengths.trans count, fun col mem => ?_⟩
  have cell : parse col ∈ (columns line).map parse := List.mem_map_of_mem mem
  rw [cells] at cell
  obtain ⟨x, _, read⟩ := List.mem_map.mp cell
  exact exists_numeral reads read.symm

/-- A file of lines of seven numerals is loaded, and no other one is. The exponent of such a
numeral is above the smallest `int`; that of the others is not defined. -/
theorem load_numerals (reads : ReadsFloat parse) (fresh : Fin (3 * blockLen) → UInt8)
    (file : List UInt8) :
    ((∀ line ∈ records newline (content file),
        Row (fun col => ∃ n, IsNumeral n col ∧ intMin < n.power) line) →
      ∃ rows, load parse (file.length + 1) (List.ofFn fresh) (some file) = some (.ok rows)) ∧
    ∀ rows, load parse (file.length + 1) (List.ofFn fresh) (some file) = some (.ok rows) →
      ∀ line ∈ records newline (content file), Row (fun col => ∃ n, IsNumeral n col) line := by
  constructor
  · intro lines
    have each : ∀ line ∈ records newline (content file), ∃ row, Fits parse line row :=
      fun line mem => exists_fits reads (lines line mem)
    have : Nonempty CsvRow := ⟨csvRow []⟩
    choose! row fits using each
    refine ⟨(records newline (content file)).map row, (load_ok_iff parse fresh).mpr ?_⟩
    rw [List.forall₂_map_right_iff, List.forall₂_same]
    exact fits
  · intro rows loaded line mem
    have all := (load_ok_iff parse fresh).mp loaded
    obtain ⟨i, inside, rfl⟩ := List.mem_iff_getElem.mp mem
    exact row_of_fits reads (all.get inside (all.length_eq ▸ inside))

/-- `0,5,-5,5.5,5e1,+5,` -/
def seven : List UInt8 :=
  [48, 44, 53, 44, 45, 53, 44, 53, 46, 53, 44, 53, 101, 49, 44, 43, 53, 44, 13, 10]

theorem load_numerals_seven :
    ∃ rows, load readSingle (seven.length + 1) (List.ofFn fun _ : Fin (3 * blockLen) => 0)
      (some seven) = some (.ok rows) := by
  refine (load_numerals readsFloat_readSingle (fun _ => 0) seven).1 fun line mem => ?_
  have lines : records newline (content seven) = [seven.dropLast] := by decide +kernel
  rw [lines, List.mem_singleton] at mem
  subst mem
  have cols : columns seven.dropLast
      = ([⟨.none, [0], none, none⟩, ⟨.none, [5], none, none⟩, ⟨.minus, [5], none, none⟩,
          ⟨.none, [5], some (.point, [5]), none⟩, ⟨.none, [5], none, some (.lower, .none, [1])⟩,
          ⟨.plus, [5], none, none⟩, ⟨.none, [], none, none⟩] : List Decimal).map Decimal.text := by
    decide +kernel
  refine ⟨by decide, by rw [cols]; rfl, fun col inside => ?_⟩
  rw [cols] at inside
  obtain ⟨n, member, rfl⟩ := List.mem_map.mp inside
  refine ⟨n, ⟨[], (List.append_nil _).symm, .inr rfl⟩, ?_⟩
  revert n
  decide

end Numerals

/-! ### Whole numbers -/

/-- A line of a table, as it is written. -/
def written (cols : List (List (Fin 10))) : List UInt8 :=
  [comma].intercalate (cols.map digits)

section Whole

variable {ds : List (Fin 10)} {cols : List (List (Fin 10))}

theorem whole_single {n : Nat} (small : n * 10 ^ ds.length + number ds < 2 ^ 24) :
    ParseFloat.whole single (wholeNumber n) (digits ds)
      = (wholeNumber (n * 10 ^ ds.length + number ds), []) := by
  induction ds generalizing n with
  | nil => simp [ParseFloat.whole]
  | cons d ds ih =>
      have digit := d.isLt
      have total : n * 10 ^ (d :: ds).length + number (d :: ds)
          = (n * 10 + d) * 10 ^ ds.length + number ds := by
        rw [number_cons, List.length_cons]
        ring
      have more : n * 10 + d ≤ (n * 10 + d) * 10 ^ ds.length :=
        Nat.le_mul_of_pos_right _ (Nat.pow_pos (by decide))
      rw [total] at small ⊢
      have ten : single.ofInt 10 = wholeNumber 10 := ofInt32_ofInt (by decide)
      have next : single.ofInt d = wholeNumber d := ofInt32_ofInt (by omega)
      have product : single.mul (wholeNumber n) (wholeNumber 10) = wholeNumber (n * 10) :=
        wholeNumber_mul (by omega) (by decide) (by omega)
      have sum : single.add (wholeNumber (n * 10)) (wholeNumber d) = wholeNumber (n * 10 + d) :=
        wholeNumber_add (by omega)
      rw [digits_cons, ParseFloat.whole, if_pos (isDigit_digit d), toDigit_digit, ten, next,
        product, sum]
      exact ih small

/-- Whole numbers are read without rounding. -/
theorem parseFloat_whole (small : number ds < 2 ^ 24) :
    parseFloat single (digits ds) = .value (wholeNumber (number ds)) := by
  have plain : Plain (digits ds ++ []) := plain_digits ds fun _ => nofun
  rw [List.append_nil] at plain
  have unsigned : sign (digits ds) = (false, digits ds) := sign_text .none fun _ => plain
  have zero : single.ofInt 0 = wholeNumber 0 := ofInt32_ofInt (by decide)
  have read := @whole_single ds 0 (by omega)
  rw [Nat.zero_mul, Nat.zero_add] at read
  rw [parseFloat, unsigned]
  dsimp only
  rw [zero, read]
  rfl

theorem isDigit_of_mem {c : UInt8} (mem : c ∈ digits ds) : isDigit c = true := by
  obtain ⟨d, _, rfl⟩ := List.mem_map.mp mem
  exact isDigit_digit d

theorem mem_written {c : UInt8} (mem : c ∈ written cols) : isDigit c = true ∨ c = comma := by
  induction cols with
  | nil => cases mem
  | cons ds cols ih =>
      rw [written, List.map_cons] at mem
      cases cols with
      | nil =>
          rw [List.map_nil, List.intercalate_singleton] at mem
          exact .inl (isDigit_of_mem mem)
      | cons es cols =>
          rw [List.map_cons, List.intercalate_cons_cons] at mem
          rcases List.mem_append.mp mem with front | later
          · rcases List.mem_append.mp front with first | separator
            · exact .inl (isDigit_of_mem first)
            · exact .inr (List.mem_singleton.mp separator)
          · exact ih later

/-- Nothing in a line is taken for something else. -/
theorem not_mem_written {c : UInt8} (other : isDigit c = false ∧ c ≠ comma) : c ∉ written cols := by
  intro mem
  rcases mem_written mem with digit | separator
  · rw [other.1] at digit
    cases digit
  · exact other.2 separator

theorem trim_digits (ds : List (Fin 10)) : trim (digits ds) = digits ds := by
  have none (col : List UInt8) (all : ∀ c ∈ col, isDigit c = true) :
      col.dropWhile isTrimChar = col := by
    cases col with
    | nil => rfl
    | cons c col =>
        have digit := isDigit_iff.mp (all c List.mem_cons_self)
        have other : ¬ isTrimChar c = true := by
          simp only [isTrimChar, Bool.or_eq_true, decide_eq_true_eq]
          rintro (rfl | rfl) <;> exact absurd digit.1 (by decide)
        rw [List.dropWhile_cons_of_neg other]
  rw [trim, none _ fun c mem => isDigit_of_mem mem,
    none _ fun c mem => isDigit_of_mem (List.mem_reverse.mp mem), List.reverse_reverse]

theorem text_written (cols : List (List (Fin 10))) :
    LineReader.text (written cols) = written cols := by
  have ends : ¬ (written cols).getLast? = some carriageReturn := fun last =>
    not_mem_written (by decide) (List.mem_of_getLast? last)
  have zeros : ∀ c ∈ written cols, decide (c ≠ 0) = true := by
    intro c mem
    rw [decide_eq_true_eq]
    rintro rfl
    exact not_mem_written (by decide) mem
  rw [LineReader.text, if_neg ends, cString, List.takeWhile_eq_self_iff.mpr zeros]

theorem columns_written (some : cols ≠ []) : columns (written cols) = cols.map digits := by
  have apart : ∀ col ∈ cols.map digits, comma ∉ col := by
    intro col mem inside
    obtain ⟨ds, _, rfl⟩ := List.mem_map.mp mem
    exact absurd (isDigit_of_mem inside) (by decide)
  rw [columns, text_written, written, List.splitOn_intercalate comma apart (by simpa using some),
    List.map_map]
  exact List.map_congr_left fun ds _ => trim_digits ds

/-- Each line of a table is a line of its file. -/
theorem records_written (table : List (List (List (Fin 10)))) :
    records newline (content (table.flatMap fun cols => written cols ++ [newline]))
      = table.map written := by
  have bare : ¬ byteOrderMark <+: table.flatMap fun cols => written cols ++ [newline] := by
    intro marked
    obtain ⟨cols, _, mem⟩ := List.mem_flatMap.mp (marked.subset (List.mem_cons_self (a := 0xEF)))
    rcases List.mem_append.mp mem with inside | ends
    · exact not_mem_written (by decide) inside
    · cases List.mem_singleton.mp ends
  rw [content, if_neg bare]
  exact records_flatMap fun cols _ => not_mem_written (by decide)

/-- The row of a line of a table. -/
def wholeRow (cols : List (List (Fin 10))) : CsvRow :=
  csvRow (cols.map fun ds => (wholeNumber (number ds)).toBits)

theorem fits_written {parse : List UInt8 → Option UInt32} (reads : ReadsFloat parse)
    (short : (written cols).length < blockLen) (count : cols.length = columnCount)
    (small : ∀ ds ∈ cols, number ds < 2 ^ 24) :
    Fits parse (written cols) (wholeRow cols) := by
  have some : cols ≠ [] := by
    rintro rfl
    cases count
  refine fits_iff.mpr ⟨short, _, ?_, by rw [List.length_map, count], rfl⟩
  rw [columns_written some, List.map_map, List.map_map]
  refine List.map_congr_left fun ds mem => ?_
  have read := reads (digits ds)
  rw [parseFloat_whole (small ds mem)] at read
  exact read

end Whole

/-- A table of seven columns of whole numbers below `2 ^ 24` is loaded as these numbers. -/
theorem load_whole {parse : List UInt8 → Option UInt32} (reads : ReadsFloat parse)
    (fresh : Fin (3 * blockLen) → UInt8) {table : List (List (List (Fin 10)))}
    (short : ∀ cols ∈ table, (written cols).length < blockLen)
    (count : ∀ cols ∈ table, cols.length = columnCount)
    (small : ∀ cols ∈ table, ∀ ds ∈ cols, number ds < 2 ^ 24) :
    load parse ((table.flatMap fun cols => written cols ++ [newline]).length + 1)
        (List.ofFn fresh) (some (table.flatMap fun cols => written cols ++ [newline]))
      = some (.ok (table.map wholeRow)) ∧
    ∀ cols ∈ table, ∀ ds ∈ cols,
      Binary32.value (wholeNumber (number ds)).toModel.unpack = some (number ds : ℚ) := by
  refine ⟨(load_ok_iff parse fresh).mpr ?_,
    fun cols mem ds inside => value_wholeNumber (small cols mem ds inside)⟩
  rw [records_written, List.forall₂_map_left_iff, List.forall₂_map_right_iff, List.forall₂_same]
  exact fun cols mem => fits_written reads (short cols mem) (count cols mem) (small cols mem)

/-- `0,5,10,5,5,5,7` -/
theorem load_whole_ten :
    load readSingle 16 (List.ofFn fun _ : Fin (3 * blockLen) => 0)
      (some [48, 44, 53, 44, 49, 48, 44, 53, 44, 53, 44, 53, 44, 55, 10])
        = some (.ok [wholeRow [[0], [5], [1, 0], [5], [5], [5], [7]]]) :=
  (@load_whole readSingle readsFloat_readSingle (fun _ => 0)
    [[[0], [5], [1, 0], [5], [5], [5], [7]]] (by decide) (by decide) (by decide)).1

end CsvReader

end Lra
