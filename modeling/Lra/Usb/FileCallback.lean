import Lra.Effect.Stateful
import Lra.Text.Lines
import Mathlib.Data.Rat.Defs
import Mathlib.Algebra.Order.Field.Rat

/-!
# The callbacks of the realtime plot

A callback is given a line of a data file. It appends the numbers of the line to the lists it
plots and removes the samples that are too old, or it raises. The numbers are rational;
`float` reads them. The lock is left out.
-/

namespace Lra

open Text

namespace RealtimePlot

inductive PyError where
  | valueError (message : String)
  | indexError
  deriving DecidableEq, Repr

/-- A dictionary of lists. Its keys are given apart. -/
abbrev Data := String → List ℚ

abbrev Callback := Line → EStateM PyError Data Unit

/-! ### Strings -/

/-- `str.isspace` of one character. -/
def isSpace (c : Char) : Bool :=
  ('\t' ≤ c && c ≤ '\r') || ('\x1c' ≤ c && c ≤ ' ') ||
    [0x85, 0xa0, 0x1680, 0x2028, 0x2029, 0x202f, 0x205f, 0x3000].contains c.toNat ||
    (0x2000 ≤ c.toNat && c.toNat ≤ 0x200a)

def strip (s : Line) : Line := ((s.dropWhile isSpace).reverse.dropWhile isSpace).reverse

/-! ### Lists -/

def append (key : String) (value : ℚ) (data : Data) : Data :=
  Function.update data key (data key ++ [value])

/-- `data[key].pop(0)`. -/
def pop (key : String) : EStateM PyError Data Unit := do
  match (← get) key with
  | [] => throw .indexError
  | _ :: rest => modify fun data => Function.update data key rest

/-- `TIME_WINDOW`. -/
def timeWindow : ℚ := 2

/-- `(data['t'][-1] - data['t'][0]) > TIME_WINDOW`. -/
def outOfWindow : EStateM PyError Data Bool := do
  match (← get) "t" with
  | [] => throw .indexError
  | oldest :: rest => return decide ((oldest :: rest).getLastD oldest - oldest > timeWindow)

/-- The loop that removes old samples; each round takes one of the `n` it starts with. -/
def trim (keys : List String) : Nat → EStateM PyError Data Unit
  | 0 => pure ()
  | n + 1 => do
    if ← outOfWindow then
      keys.forM pop
      trim keys n

/-! ### Callbacks -/

/-- The body of both callbacks: `fields` are the names in the order of the line, `keys` those
of the dictionary. -/
def fileCallback (float : Line → Option ℚ) (fields keys : List String) : Callback :=
  fun newLine => do
    let values := (strip newLine).splitOn ','
    if values.length ≠ keys.length then
      throw (.valueError ("Invalid data length: " ++ String.ofList newLine))
    match values.mapM float with
    | none => throw (.valueError ("Invalid data value: " ++ String.ofList newLine))
    | some numbers =>
      if numbers.length ≠ fields.length then
        throw (.valueError ("Invalid data value: " ++ String.ofList newLine))
      (fields.zip numbers).forM fun (key, value) => modify (append key value)
      trim keys ((← get) "t").length

def pwmFileCallback (float : Line → Option ℚ) : Callback :=
  fileCallback float ["t", "x_cmd", "x_freq", "y_cmd", "y_freq", "z_cmd", "z_freq"]
    ["t", "x_cmd", "y_cmd", "z_cmd", "x_freq", "y_freq", "z_freq"]

def accFileCallback (float : Line → Option ℚ) : Callback :=
  fileCallback float ["t", "x", "y", "z"] ["t", "x", "y", "z"]

end RealtimePlot

end Lra
