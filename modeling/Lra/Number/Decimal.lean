import Mathlib.Algebra.Order.Field.Rat
import Mathlib.Data.Nat.Digits.Defs

/-!
# Decimal numerals

A numeral in ASCII has a sign, digits, a fraction behind a point or a comma, and an exponent.
Each of these may be missing, and the digits of each may be.
-/

inductive DecimalSign where
  | none
  | plus
  | minus
  deriving DecidableEq

inductive DecimalPoint where
  | point
  | comma
  deriving DecidableEq

inductive ExponentMark where
  | lower
  | upper
  deriving DecidableEq

structure Decimal where
  sign : DecimalSign
  whole : List (Fin 10)
  fraction : Option (DecimalPoint × List (Fin 10))
  exponent : Option (ExponentMark × DecimalSign × List (Fin 10))
  deriving DecidableEq

namespace Decimal

/-! ### Digits -/

def digit (d : Fin 10) : UInt8 := UInt8.ofNat (48 + d)

def digits (ds : List (Fin 10)) : List UInt8 := ds.map digit

def number (ds : List (Fin 10)) : Nat := Nat.ofDigits 10 (ds.reverse.map Fin.val)

/-- `'0' ≤ c ≤ '9'` -/
def isDigit (c : UInt8) : Bool := 48 ≤ c && c ≤ 57

/-- The text does not go on with a digit. -/
def Stops (rest : List UInt8) : Prop := ∀ c ∈ rest.head?, isDigit c = false

section Digits

variable {c : UInt8} {d : Fin 10} {ds : List (Fin 10)} {rest : List UInt8}

@[simp] theorem digits_nil : digits [] = [] := rfl

@[simp] theorem digits_cons : digits (d :: ds) = digit d :: digits ds := rfl

theorem toNat_digit (d : Fin 10) : (digit d).toNat = 48 + d := by
  have small := d.isLt
  rw [digit, UInt8.toNat_ofNat']
  omega

theorem isDigit_iff : isDigit c = true ↔ 48 ≤ c.toNat ∧ c.toNat ≤ 57 := by
  rw [isDigit, Bool.and_eq_true, decide_eq_true_iff, decide_eq_true_iff, UInt8.le_iff_toNat_le,
    UInt8.le_iff_toNat_le]
  rfl

@[simp] theorem isDigit_digit (d : Fin 10) : isDigit (digit d) = true := by
  have small := d.isLt
  rw [isDigit_iff, toNat_digit]
  omega

theorem exists_digit (h : isDigit c = true) : ∃ d, digit d = c := by
  obtain ⟨lower, upper⟩ := isDigit_iff.mp h
  refine ⟨⟨c.toNat - 48, by omega⟩, UInt8.toNat_inj.mp ?_⟩
  rw [toNat_digit]
  dsimp only
  omega

/-- Each text begins with its digits. -/
theorem exists_digits (text : List UInt8) :
    ∃ ds rest, text = digits ds ++ rest ∧ Stops rest := by
  induction text with
  | nil => exact ⟨[], [], rfl, nofun⟩
  | cons c text ih =>
      cases h : isDigit c with
      | true =>
          obtain ⟨d, rfl⟩ := exists_digit h
          obtain ⟨ds, rest, rfl, stops⟩ := ih
          exact ⟨d :: ds, rest, rfl, stops⟩
      | false =>
          refine ⟨[], c :: text, rfl, fun b first => ?_⟩
          obtain rfl := Option.some.inj first
          exact h

@[simp] theorem number_nil : number [] = 0 := rfl

theorem number_append (ds : List (Fin 10)) (es : List (Fin 10)) :
    number (ds ++ es) = number ds * 10 ^ es.length + number es := by
  rw [number, List.reverse_append, List.map_append, Nat.ofDigits_append, List.length_map,
    List.length_reverse, Nat.add_comm, Nat.mul_comm]
  rfl

theorem number_singleton (d : Fin 10) : number [d] = d := by
  rw [number, List.reverse_singleton, List.map_singleton, Nat.ofDigits_singleton]

theorem number_cons (d : Fin 10) (ds : List (Fin 10)) :
    number (d :: ds) = d * 10 ^ ds.length + number ds := by
  rw [← List.singleton_append, number_append, number_singleton]

end Digits

/-! ### Texts -/

def signText : DecimalSign → List UInt8
  | .none => []
  | .plus => [43]
  | .minus => [45]

def point : DecimalPoint → UInt8
  | .point => 46
  | .comma => 44

def mark : ExponentMark → UInt8
  | .lower => 101
  | .upper => 69

def fractionText : Option (DecimalPoint × List (Fin 10)) → List UInt8
  | none => []
  | some (p, ds) => point p :: digits ds

def exponentText : Option (ExponentMark × DecimalSign × List (Fin 10)) → List UInt8
  | none => []
  | some (m, s, ds) => mark m :: (signText s ++ digits ds)

def text (n : Decimal) : List UInt8 :=
  signText n.sign ++ (digits n.whole ++ (fractionText n.fraction ++ exponentText n.exponent))

/-! ### Values -/

def apply {K : Type} [Neg K] : DecimalSign → K → K
  | .minus, x => -x
  | _, x => x

def fractionValue : Option (DecimalPoint × List (Fin 10)) → ℚ
  | none => 0
  | some (_, ds) => number ds / 10 ^ ds.length

def exponentValue : Option (ExponentMark × DecimalSign × List (Fin 10)) → ℤ
  | none => 0
  | some (_, s, ds) => apply s (number ds : ℤ)

def mantissa (n : Decimal) : ℚ := number n.whole + fractionValue n.fraction

/-- The power of ten. -/
def power (n : Decimal) : ℤ := exponentValue n.exponent

end Decimal
