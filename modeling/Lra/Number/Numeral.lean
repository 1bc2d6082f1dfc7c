import Mathlib.Data.List.Basic
import Mathlib.Algebra.Order.Ring.Nat

/-!
# Numerals as the C library reads them

`stoi` skips blanks, takes a sign, then the longest run of digits, and ignores what follows.
Without a digit, and outside `int`, it throws. The digits are decimal for base 10; for base 0
a prefix may make them hexadecimal or octal.
-/

namespace Numeral

/-- The exceptions of the conversions, and one of their siblings. -/
inductive StdException where
  | invalidArgument
  | outOfRange
  | runtimeError
  deriving DecidableEq, Repr

/-- `isspace`. -/
def isSpace (c : Char) : Bool := c == ' ' || ('\t' ≤ c && c ≤ '\r')

/-- The value of a character as a digit. -/
def digit? (base : Nat) (c : Char) : Option Nat :=
  let d :=
    if c.isDigit then c.toNat - '0'.toNat
    else if c.isLower then c.toNat - 'a'.toNat + 10
    else if c.isUpper then c.toNat - 'A'.toNat + 10
    else base
  if d < base then some d else none

/-- The longest run of digits. -/
def digits (base : Nat) : List Char → List Nat
  | [] => []
  | c :: cs =>
    match digit? base c with
    | some d => d :: digits base cs
    | none => []

def value (base : Nat) (ds : List Nat) : Nat := ds.foldl (fun n d => base * n + d) 0

/-- Whether there is a minus, and what follows the sign. -/
def sign : List Char → Bool × List Char
  | [] => (false, [])
  | c :: cs => if c = '-' then (true, cs) else if c = '+' then (false, cs) else (false, c :: cs)

/-- For base 0 the base the prefix says, and what follows the prefix. -/
def basePrefix (base : Nat) (cs : List Char) : Nat × List Char :=
  if base ≠ 0 then (base, cs)
  else
    match cs with
    | '0' :: x :: rest =>
      if (x = 'x' ∨ x = 'X') ∧ digits 16 rest ≠ [] then (16, rest) else (8, cs)
    | ['0'] => (8, cs)
    | _ => (10, cs)

/-- The number a text begins with. -/
def numeral (base : Nat) (cs : List Char) : Option Int :=
  let (minus, cs) := sign (cs.dropWhile isSpace)
  let (base, cs) := basePrefix base cs
  match digits base cs with
  | [] => none
  | d :: ds =>
    let n := value base (d :: ds)
    some (if minus then -n else n)

def intMax : Int := 2147483647

def stoi (str : String) (base : Nat) : Except StdException Int :=
  match numeral base str.toList with
  | none => .error .invalidArgument
  | some n => if -intMax - 1 ≤ n ∧ n ≤ intMax then .ok n else .error .outOfRange

example : (["0x1F", "017", "08", " -25.5", "x", "3000000000"].map (stoi · 0)) =
    [.ok 31, .ok 15, .ok 0, .ok (-25), .error .invalidArgument, .error .outOfRange] := by
  decide +kernel

theorem stoi_empty (base : Nat) : stoi "" base = .error .invalidArgument := by
  have noPrefix : (basePrefix base []).2 = [] := by
    unfold basePrefix
    split <;> rfl
  have nothing : numeral base [] = none := by
    simp only [numeral, List.dropWhile_nil, sign, noPrefix, digits]
  rw [stoi, String.toList_empty, nothing]

/-- An answer without a number is told from one whose number is too large. -/
theorem stoi_cases (str : String) (base : Nat) :
    (∃ n, stoi str base = .ok n) ∨ stoi str base = .error .invalidArgument ∨
      stoi str base = .error .outOfRange := by
  unfold stoi
  split
  · exact .inr (.inl rfl)
  · split
    · exact .inl ⟨_, rfl⟩
    · exact .inr (.inr rfl)

/-! ### Texts of digits -/

section Digits

variable {cs : List Char}

theorem digit?_of_isDigit {c : Char} (h : c.isDigit = true) :
    digit? 10 c = some (c.toNat - '0'.toNat) := by
  have small : c.toNat - '0'.toNat < 10 := by
    have bounds : '0'.toNat ≤ c.toNat ∧ c.toNat ≤ '9'.toNat := Char.isDigit_iff_toNat.mp h
    have zero : '0'.toNat = 48 := rfl
    have nine : '9'.toNat = 57 := rfl
    omega
  rw [digit?, if_pos h]
  exact if_pos small

theorem not_isSpace_of_isDigit {c : Char} (h : c.isDigit = true) : isSpace c = false := by
  have bounds : '0'.toNat ≤ c.toNat ∧ c.toNat ≤ '9'.toNat := Char.isDigit_iff_toNat.mp h
  have blank : c ≠ ' ' := by
    rintro rfl
    exact absurd bounds (by decide)
  have control : ¬ c ≤ '\r' := by
    intro le
    have low : c.toNat ≤ '\r'.toNat := UInt32.le_iff_toNat_le.mp (Char.le_def.mp le)
    exact absurd (bounds.1.trans low) (by decide)
  simp [isSpace, blank, control]

/-- A number that is not signed is read from its first character on. -/
theorem sign_of_isDigit {c : Char} (h : c.isDigit = true) (cs : List Char) :
    sign ((c :: cs).dropWhile isSpace) = (false, c :: cs) := by
  have minus : c ≠ '-' := by
    rintro rfl
    exact absurd h (by decide)
  have plus : c ≠ '+' := by
    rintro rfl
    exact absurd h (by decide)
  rw [List.dropWhile_cons, not_isSpace_of_isDigit h]
  simp [sign, minus, plus]

theorem digits_of_isDigit (h : ∀ c ∈ cs, c.isDigit = true) :
    digits 10 cs = cs.map fun c => c.toNat - '0'.toNat := by
  induction cs with
  | nil => rfl
  | cons c cs ih =>
      rw [digits, digit?_of_isDigit (h c (List.mem_cons_self ..)),
        ih fun c' hc' => h c' (List.mem_cons_of_mem _ hc')]
      rfl

/-- A text of digits alone is read as the number it is. -/
theorem numeral_of_isDigit (notEmpty : cs ≠ []) (h : ∀ c ∈ cs, c.isDigit = true) :
    numeral 10 cs = some (Nat.ofDigitChars 10 cs 0 : Int) := by
  have read : value 10 (digits 10 cs) = Nat.ofDigitChars 10 cs 0 := by
    rw [value, digits_of_isDigit h, List.foldl_map, Nat.ofDigitChars_eq_foldl]
  obtain ⟨c, rest, rfl⟩ := List.exists_cons_of_ne_nil notEmpty
  have unprefixed : basePrefix 10 (c :: rest) = (10, c :: rest) := rfl
  rw [digits_of_isDigit h, List.map_cons] at read
  rw [numeral, sign_of_isDigit (h c (List.mem_cons_self ..))]
  dsimp only
  rw [unprefixed]
  dsimp only
  rw [digits_of_isDigit h, List.map_cons]
  dsimp only
  rw [read, if_neg Bool.false_ne_true]

theorem stoi_of_isDigit {str : String} (notEmpty : str ≠ "")
    (h : ∀ c ∈ str.toList, c.isDigit = true) :
    stoi str 10 =
      if (Nat.ofDigitChars 10 str.toList 0 : Int) ≤ intMax then
        .ok (Nat.ofDigitChars 10 str.toList 0 : Int)
      else .error .outOfRange := by
  have positive : -intMax - 1 ≤ (Nat.ofDigitChars 10 str.toList 0 : Int) := by
    simp only [intMax]
    omega
  rw [stoi, numeral_of_isDigit (by simpa using notEmpty) h]
  simp only [positive, true_and]

end Digits

end Numeral
