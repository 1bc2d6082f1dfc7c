import Mathlib.Tactic.FieldSimp
import Lra.Number.Decimal

/-!
# The columns of a command file

`parse_float` reads a column of a command file with the arithmetic of its type. A sign, digits,
a fraction and an exponent are taken one after the other; the exponent is an `int` and is kept
at the largest or smallest one when it does not fit, whatever follows. The power of ten is
multiplied by squaring.
-/

namespace Lra

open Decimal

/-- What `parse_float` uses of its type: the conversion of an `int`, the operators and
`T(0.1)`. -/
structure Arithmetic (T : Type) where
  ofInt : Int → T
  add : T → T → T
  mul : T → T → T
  div : T → T → T
  neg : T → T
  tenth : T

inductive Parsed (T : Type) where
  | value (x : T)
  /-- `no_digit` is thrown. -/
  | noDigit
  /-- The smallest exponent has no opposite in `int`. -/
  | undefined
  deriving DecidableEq

def Parsed.map {T U : Type} (f : T → U) : Parsed T → Parsed U
  | .value x => .value (f x)
  | .noDigit => .noDigit
  | .undefined => .undefined

/-- Whether there is a number. -/
def Parsed.kind {T : Type} (p : Parsed T) : Parsed Unit := p.map fun _ => ()

namespace ParseFloat

/-- `std::numeric_limits<int>::max()` -/
def intMax : Int := 2147483647

def intMin : Int := -2147483648

/-- `*col - '0'` -/
def toDigit (c : UInt8) : Int := c.toNat - 48

/-- `parse_unsigned_integer<set_to_max_on_overflow>` of an `int`, from its loop on. -/
def parseUnsignedInteger (x : Int) : List UInt8 → Option Int
  | [] => some x
  | c :: col =>
    if isDigit c then
      let y := toDigit c
      if x > (intMax - y).tdiv 10 then some intMax else parseUnsignedInteger (10 * x + y) col
    else none

/-- The loop of `parse_signed_integer` behind a minus. -/
def parseNegativeInteger (x : Int) : List UInt8 → Option Int
  | [] => some x
  | c :: col =>
    if isDigit c then
      let y := toDigit c
      if x < (intMin + y).tdiv 10 then some intMin else parseNegativeInteger (10 * x - y) col
    else none

def parseSignedInteger : List UInt8 → Option Int
  | [] => parseUnsignedInteger 0 []
  | c :: col =>
    if c = 45 then parseNegativeInteger 0 col
    else parseUnsignedInteger 0 (if c = 43 then col else c :: col)

/-- Whether there is a minus, and what follows the sign. -/
def sign : List UInt8 → Bool × List UInt8
  | [] => (false, [])
  | c :: col => if c = 45 then (true, col) else if c = 43 then (false, col) else (false, c :: col)

section Code

variable {T : Type} (A : Arithmetic T)

def whole (x : T) : List UInt8 → T × List UInt8
  | [] => (x, [])
  | c :: col =>
    if isDigit c then whole (A.add (A.mul x (A.ofInt 10)) (A.ofInt (toDigit c))) col
    else (x, c :: col)

/-- The loop behind the point. -/
def fraction (x pos : T) : List UInt8 → T × List UInt8
  | [] => (x, [])
  | c :: col =>
    if isDigit c then
      let pos := A.div pos (A.ofInt 10)
      fraction (A.add x (A.mul (A.ofInt (toDigit c)) pos)) pos col
    else (x, c :: col)

def pointed (x : T) : List UInt8 → T × List UInt8
  | [] => (x, [])
  | c :: col => if c = 46 ∨ c = 44 then fraction A x (A.ofInt 1) col else (x, c :: col)

/-- The loop over the exponent, which is positive. -/
def raise (x base : T) (e : Nat) : T :=
  if e ≤ 1 then A.mul x base
  else if e % 2 = 0 then raise x (A.mul base base) (e / 2)
  else raise (A.mul x base) base (e - 1)
termination_by e

def scaled (x : T) : List UInt8 → Parsed T
  | [] => .value x
  | c :: col =>
    if c = 101 ∨ c = 69 then
      match parseSignedInteger col with
      | none => .noDigit
      | some e =>
        if e = 0 then .value x
        else if e = intMin then .undefined
        else if e < 0 then .value (raise A x A.tenth (-e).toNat)
        else .value (raise A x (A.ofInt 10) e.toNat)
    else .noDigit

def parseFloat (col : List UInt8) : Parsed T :=
  let (isNeg, col) := sign col
  let (x, col) := whole A (A.ofInt 0) col
  let (x, col) := pointed A x col
  (scaled A x col).map fun x => if isNeg then A.neg x else x

end Code

/-! ### Exponents -/

section Exponents

variable {ds : List (Fin 10)} {rest : List UInt8}

theorem toDigit_digit (d : Fin 10) : toDigit (digit d) = d := by
  rw [toDigit, toNat_digit]
  omega

/-- The digits are taken, or there are already too many of them. -/
theorem parseUnsignedInteger_digits {x : Int} (nonneg : 0 ≤ x) (fits : x ≤ intMax)
    (ds : List (Fin 10)) (rest : List UInt8) :
    parseUnsignedInteger x (digits ds ++ rest) =
      if intMax < x * 10 ^ ds.length + number ds then some intMax
      else parseUnsignedInteger (x * 10 ^ ds.length + number ds) rest := by
  induction ds generalizing x with
  | nil => simp [Int.not_lt.mpr fits]
  | cons d ds ih =>
      have digit := d.isLt
      have total : x * 10 ^ (d :: ds).length + number (d :: ds)
          = (10 * x + d) * 10 ^ ds.length + number ds := by
        rw [number_cons, List.length_cons]
        push_cast
        ring
      have large : x > (intMax - (d : Nat)).tdiv 10 ↔ intMax < 10 * x + (d : Nat) := by
        rw [intMax, Int.tdiv_eq_ediv_of_nonneg (by omega)]
        omega
      rw [digits_cons, List.cons_append, parseUnsignedInteger, if_pos (isDigit_digit d)]
      simp only [toDigit_digit, large, total]
      split
      · next exceeds =>
          have more : 10 * x + (d : Nat) ≤ (10 * x + (d : Nat)) * 10 ^ ds.length :=
            le_mul_of_one_le_right (by omega) (one_le_pow₀ (by decide))
          rw [if_pos (by omega)]
      · exact ih (by omega) (by omega)

theorem parseNegativeInteger_digits {x : Int} (nonpos : x ≤ 0) (fits : intMin ≤ x)
    (ds : List (Fin 10)) (rest : List UInt8) :
    parseNegativeInteger x (digits ds ++ rest) =
      if x * 10 ^ ds.length - number ds < intMin then some intMin
      else parseNegativeInteger (x * 10 ^ ds.length - number ds) rest := by
  induction ds generalizing x with
  | nil => simp [Int.not_lt.mpr fits]
  | cons d ds ih =>
      have digit := d.isLt
      have total : x * 10 ^ (d :: ds).length - number (d :: ds)
          = (10 * x - d) * 10 ^ ds.length - number ds := by
        rw [number_cons, List.length_cons]
        push_cast
        ring
      have small : x < (intMin + (d : Nat)).tdiv 10 ↔ 10 * x - (d : Nat) < intMin := by
        have opposite : intMin + (d : Nat) = -(-intMin - (d : Nat)) := by ring
        rw [opposite, Int.neg_tdiv, intMin, Int.tdiv_eq_ediv_of_nonneg (by omega)]
        omega
      rw [digits_cons, List.cons_append, parseNegativeInteger, if_pos (isDigit_digit d)]
      simp only [toDigit_digit, small, total]
      split
      · next exceeds =>
          have more : (10 * x - (d : Nat)) * 10 ^ ds.length ≤ 10 * x - (d : Nat) :=
            mul_le_of_one_le_right (by omega) (one_le_pow₀ (by decide))
          rw [if_pos (by omega)]
      · exact ih (by omega) (by omega)

theorem parseUnsignedInteger_stops (x : Int) (stops : Stops rest) :
    parseUnsignedInteger x rest = if rest = [] then some x else none := by
  cases rest with
  | nil => rfl
  | cons c rest =>
      have other : ¬ isDigit c = true := Bool.eq_false_iff.mp (stops c rfl)
      rw [parseUnsignedInteger, if_neg other, if_neg (List.cons_ne_nil c rest)]

theorem parseNegativeInteger_stops (x : Int) (stops : Stops rest) :
    parseNegativeInteger x rest = if rest = [] then some x else none := by
  cases rest with
  | nil => rfl
  | cons c rest =>
      have other : ¬ isDigit c = true := Bool.eq_false_iff.mp (stops c rfl)
      rw [parseNegativeInteger, if_neg other, if_neg (List.cons_ne_nil c rest)]

/-- The exponents that are no `int`. -/
def TooLarge (e : Int) : Prop := e < intMin ∨ intMax < e

instance (e : Int) : Decidable (TooLarge e) := inferInstanceAs (Decidable (_ ∨ _))

theorem not_tooLarge {e : Int} (lower : ¬ e < intMin) (upper : ¬ intMax < e) : ¬ TooLarge e :=
  not_or.mpr ⟨lower, upper⟩

/-- The nearest `int`. -/
def clip (e : Int) : Int := max intMin (min e intMax)

theorem clip_of_lt {e : Int} (large : intMax < e) : clip e = intMax := by
  simp only [clip, intMin, intMax] at large ⊢
  omega

theorem clip_of_gt {e : Int} (small : e < intMin) : clip e = intMin := by
  simp only [clip, intMin, intMax] at small ⊢
  omega

theorem clip_eq {e : Int} (fits : ¬ TooLarge e) : clip e = e := by
  simp only [TooLarge, clip, intMin, intMax] at fits ⊢
  omega

/-- No sign can be taken for one of the text's own. -/
def Plain (text : List UInt8) : Prop := ∀ c ∈ text.head?, c ≠ 43 ∧ c ≠ 45

theorem plain_digit (d : Fin 10) : digit d ≠ 43 ∧ digit d ≠ 45 := by
  revert d
  decide

/-- A sign is taken off, and then the digits. -/
theorem parseSignedInteger_text (s : DecimalSign) (ds : List (Fin 10))
    (plain : s = .none → Plain (digits ds ++ rest)) :
    parseSignedInteger (signText s ++ (digits ds ++ rest)) =
      if TooLarge (apply s (number ds : ℤ)) then some (clip (apply s (number ds : ℤ)))
      else if s = .minus then parseNegativeInteger (apply s (number ds : ℤ)) rest
      else parseUnsignedInteger (apply s (number ds : ℤ)) rest := by
  have unsigned : parseUnsignedInteger 0 (digits ds ++ rest) =
      if TooLarge (number ds : ℤ) then some (clip (number ds : ℤ))
      else parseUnsignedInteger (number ds : ℤ) rest := by
    have nonneg : ¬ (number ds : ℤ) < intMin := by
      rw [intMin]
      omega
    rw [parseUnsignedInteger_digits (by decide) (by decide), zero_mul, zero_add]
    by_cases large : intMax < (number ds : ℤ)
    · rw [if_pos large, if_pos (.inr large), clip_of_lt large]
    · rw [if_neg large, if_neg (not_tooLarge nonneg large)]
  cases s with
  | none =>
      have same : parseSignedInteger (digits ds ++ rest)
          = parseUnsignedInteger 0 (digits ds ++ rest) := by
        have plain := plain rfl
        cases text : digits ds ++ rest with
        | nil => rfl
        | cons c col =>
            obtain ⟨noPlus, noMinus⟩ := plain c (by rw [text]; rfl)
            rw [parseSignedInteger, if_neg noMinus, if_neg noPlus]
      exact same.trans unsigned
  | plus => exact unsigned
  | minus =>
      change parseNegativeInteger 0 (digits ds ++ rest) = _
      have nonpos : ¬ intMax < -(number ds : ℤ) := by
        rw [intMax]
        omega
      rw [parseNegativeInteger_digits (by decide) (by decide), zero_mul, zero_sub, apply]
      by_cases small : -(number ds : ℤ) < intMin
      · rw [if_pos small, if_pos (.inl small), clip_of_gt small]
      · rw [if_neg small, if_neg (not_tooLarge small nonpos), if_pos rfl]

/-- Each text begins with a sign that is there to take. -/
theorem exists_sign (text : List UInt8) :
    ∃ s rest, text = signText s ++ rest ∧ (s = .none → Plain rest) := by
  cases text with
  | nil => exact ⟨.none, [], rfl, fun _ => nofun⟩
  | cons c text =>
      by_cases minus : c = 45
      · exact ⟨.minus, text, by rw [minus]; rfl, nofun⟩
      · by_cases plus : c = 43
        · exact ⟨.plus, text, by rw [plus]; rfl, nofun⟩
        · refine ⟨.none, c :: text, rfl, fun _ b first => ?_⟩
          obtain rfl := Option.some.inj first
          exact ⟨plus, minus⟩

/-- An exponent that fits has to be all there is. -/
theorem exists_exponent (col : List UInt8) :
    ∃ s ds rest, col = signText s ++ (digits ds ++ rest) ∧ parseSignedInteger col =
      if TooLarge (apply s (number ds : ℤ)) ∨ rest = [] then
        some (clip (apply s (number ds : ℤ)))
      else none := by
  obtain ⟨s, text, rfl, plain⟩ := exists_sign col
  obtain ⟨ds, rest, rfl, stops⟩ := exists_digits text
  refine ⟨s, ds, rest, rfl, ?_⟩
  rw [parseSignedInteger_text s ds plain, parseNegativeInteger_stops _ stops,
    parseUnsignedInteger_stops _ stops, ite_self]
  by_cases large : TooLarge (apply s (number ds : ℤ))
  · rw [if_pos large, if_pos (.inl large)]
  · rw [if_neg large, clip_eq large]
    simp only [large, false_or]

theorem plain_digits (ds : List (Fin 10)) {rest : List UInt8} (plain : ds = [] → Plain rest) :
    Plain (digits ds ++ rest) := by
  cases ds with
  | nil => exact plain rfl
  | cons d ds =>
      intro c first
      obtain rfl := Option.some.inj first
      exact plain_digit d

/-- An exponent that does not fit is taken with whatever follows. -/
theorem parseSignedInteger_eq (s : DecimalSign) (ds : List (Fin 10))
    (all : TooLarge (apply s (number ds : ℤ)) ∨ rest = []) :
    parseSignedInteger (signText s ++ (digits ds ++ rest))
      = some (clip (apply s (number ds : ℤ))) := by
  have plain : Plain (digits ds ++ rest) := by
    refine plain_digits ds fun none => ?_
    subst none
    rcases all with large | rfl
    · cases s <;> exact absurd large (by decide)
    · nofun
  rw [parseSignedInteger_text s ds fun _ => plain]
  by_cases large : TooLarge (apply s (number ds : ℤ))
  · rw [if_pos large]
  · obtain rfl := all.resolve_left large
    rw [if_neg large, clip_eq large, parseNegativeInteger, parseUnsignedInteger, ite_self]

end Exponents

/-! ### Exact arithmetic -/

/-- Without rounding. -/
def exact : Arithmetic ℚ where
  ofInt n := n
  add x y := x + y
  mul x y := x * y
  div x y := x / y
  neg x := -x
  tenth := 1 / 10

section Exact

variable {rest : List UInt8}

theorem whole_digits (x : ℚ) (ds : List (Fin 10)) (stops : Stops rest) :
    whole exact x (digits ds ++ rest) = (x * 10 ^ ds.length + number ds, rest) := by
  induction ds generalizing x with
  | nil =>
      cases rest with
      | nil => simp [whole]
      | cons c rest =>
          have other : ¬ isDigit c = true := Bool.eq_false_iff.mp (stops c rfl)
          simp [whole, other]
  | cons d ds ih =>
      rw [digits_cons, List.cons_append, whole, if_pos (isDigit_digit d), ih, toDigit_digit,
        number_cons, List.length_cons]
      refine congrArg (·, rest) ?_
      simp only [exact]
      push_cast
      ring

theorem fraction_digits (x pos : ℚ) (ds : List (Fin 10)) (stops : Stops rest) :
    fraction exact x pos (digits ds ++ rest)
      = (x + pos * (number ds / 10 ^ ds.length), rest) := by
  induction ds generalizing x pos with
  | nil =>
      cases rest with
      | nil => simp [fraction]
      | cons c rest =>
          have other : ¬ isDigit c = true := Bool.eq_false_iff.mp (stops c rfl)
          simp [fraction, other]
  | cons d ds ih =>
      rw [digits_cons, List.cons_append, fraction, if_pos (isDigit_digit d), ih, toDigit_digit,
        number_cons, List.length_cons]
      refine congrArg (·, rest) ?_
      simp only [exact]
      push_cast
      field_simp
      ring

theorem pointed_text (x : ℚ) (f : Option (DecimalPoint × List (Fin 10)))
    (stops : f ≠ none → Stops rest) (none : f = none → ∀ c ∈ rest.head?, c ≠ 46 ∧ c ≠ 44) :
    pointed exact x (fractionText f ++ rest) = (x + fractionValue f, rest) := by
  cases f with
  | none =>
      cases rest with
      | nil => simp [fractionText, fractionValue, pointed]
      | cons c rest =>
          obtain ⟨noPoint, noComma⟩ := none rfl c rfl
          simp [fractionText, fractionValue, pointed, noPoint, noComma]
  | some part =>
      obtain ⟨p, ds⟩ := part
      have written : point p = 46 ∨ point p = 44 := by cases p <;> decide
      rw [fractionText, List.cons_append, pointed, if_pos written,
        fraction_digits _ _ ds (stops nofun)]
      simp [exact, fractionValue]

theorem exists_fraction (text : List UInt8) :
    ∃ f rest, text = fractionText f ++ rest ∧
      ∀ x, pointed exact x text = (x + fractionValue f, rest) := by
  have marked (p : DecimalPoint) (text : List UInt8) :
      ∃ f rest, point p :: text = fractionText f ++ rest ∧
        ∀ x, pointed exact x (point p :: text) = (x + fractionValue f, rest) := by
    obtain ⟨ds, rest, rfl, stops⟩ := exists_digits text
    exact ⟨some (p, ds), rest, rfl, fun x => pointed_text x (some (p, ds)) (fun _ => stops) nofun⟩
  cases text with
  | nil => exact ⟨none, [], rfl, fun x => pointed_text x none nofun fun _ => nofun⟩
  | cons c text =>
      by_cases noPoint : c = 46
      · exact noPoint ▸ marked .point text
      · by_cases noComma : c = 44
        · exact noComma ▸ marked .comma text
        · refine ⟨none, c :: text, rfl, fun x => pointed_text x none nofun fun _ b first => ?_⟩
          obtain rfl := Option.some.inj first
          exact ⟨noPoint, noComma⟩

/-- Squaring the base for each bit of the exponent. -/
theorem raise_eq (x base : ℚ) {e : Nat} (pos : 0 < e) : raise exact x base e = x * base ^ e := by
  induction x, base, e using raise.induct exact with
  | case1 x base e le =>
      obtain rfl : e = 1 := by omega
      rw [raise, if_pos le, pow_one]
      rfl
  | case2 x base e more even ih =>
      have half : e = 2 * (e / 2) := by omega
      rw [raise, if_neg more, if_pos even, ih (by omega)]
      simp only [exact]
      rw [← pow_two, ← pow_mul, ← half]
  | case3 x base e more odd ih =>
      have one : e = e - 1 + 1 := by omega
      rw [raise, if_neg more, if_neg odd, ih (by omega)]
      simp only [exact]
      rw [mul_assoc, ← pow_succ', ← one]

/-- What an exponent makes of a number. -/
def scaledBy (x : ℚ) (e : ℤ) : Parsed ℚ :=
  if e ≤ intMin then .undefined else .value (x * 10 ^ min e intMax)

theorem scaled_mark (x : ℚ) (m : ExponentMark) {col : List UInt8} {e : ℤ}
    (taken : parseSignedInteger col = some (clip e)) :
    scaled exact x (mark m :: col) = scaledBy x e := by
  have written : mark m = 101 ∨ mark m = 69 := by cases m <;> decide
  rw [scaled, if_pos written, taken, scaledBy]
  dsimp only
  by_cases small : e ≤ intMin
  · have least : clip e = intMin := by
      rcases Int.lt_or_eq_of_le small with lt | rfl
      · exact clip_of_gt lt
      · rfl
    rw [least, if_neg (by decide), if_pos rfl, if_pos small]
  · have kept : clip e = min e intMax := by
      simp only [clip, intMin, intMax] at small ⊢
      omega
    have other : min e intMax ≠ intMin := by
      simp only [intMin, intMax] at small ⊢
      omega
    rw [kept, if_neg other, if_neg small]
    generalize min e intMax = k
    split
    · next zero => rw [zero, zpow_zero, mul_one]
    · split
      · next negative =>
          have opposite : k = -((-k).toNat : ℤ) := by omega
          rw [raise_eq _ _ (by omega)]
          conv_rhs => rw [opposite, zpow_neg, zpow_natCast, ← inv_pow, inv_eq_one_div]
          rfl
      · have same : k = (k.toNat : ℤ) := by omega
        rw [raise_eq _ _ (by omega)]
        conv_rhs => rw [same, zpow_natCast]
        simp [exact]

theorem scaled_text (x : ℚ) (ex : Option (ExponentMark × DecimalSign × List (Fin 10)))
    (all : TooLarge (exponentValue ex) ∨ rest = []) :
    scaled exact x (exponentText ex ++ rest) = scaledBy x (exponentValue ex) := by
  cases ex with
  | none =>
      obtain rfl := all.resolve_left (by decide)
      simp [exponentText, exponentValue, scaled, scaledBy, intMin, intMax]
  | some part =>
      obtain ⟨m, s, ds⟩ := part
      rw [exponentText, List.cons_append, List.append_assoc]
      exact scaled_mark x m (parseSignedInteger_eq s ds all)

theorem exists_scaled (text : List UInt8) :
    ∃ ex rest, text = exponentText ex ++ rest ∧ ∀ x, scaled exact x text =
      if TooLarge (exponentValue ex) ∨ rest = [] then scaledBy x (exponentValue ex)
      else .noDigit := by
  have marked (m : ExponentMark) (col : List UInt8) :
      ∃ ex rest, mark m :: col = exponentText ex ++ rest ∧ ∀ x, scaled exact x (mark m :: col) =
        if TooLarge (exponentValue ex) ∨ rest = [] then scaledBy x (exponentValue ex)
        else .noDigit := by
    obtain ⟨s, ds, rest, rfl, taken⟩ := exists_exponent col
    refine ⟨some (m, s, ds), rest, by simp [exponentText], fun x => ?_⟩
    change _ = if TooLarge (apply s (number ds : ℤ)) ∨ rest = [] then
      scaledBy x (apply s (number ds : ℤ)) else .noDigit
    split
    · next all =>
        rw [if_pos all] at taken
        exact scaled_mark x m taken
    · next more =>
        have written : mark m = 101 ∨ mark m = 69 := by cases m <;> decide
        rw [if_neg more] at taken
        rw [scaled, if_pos written, taken]
  cases text with
  | nil =>
      refine ⟨none, [], rfl, fun x => ?_⟩
      rw [if_pos (.inr rfl)]
      exact scaled_text x none (.inr rfl)
  | cons c text =>
      by_cases lower : c = 101
      · exact lower ▸ marked .lower text
      · by_cases upper : c = 69
        · exact upper ▸ marked .upper text
        · refine ⟨none, c :: text, rfl, fun x => ?_⟩
          rw [if_neg (by simp [TooLarge, exponentValue, intMin, intMax]), scaled,
            if_neg (by simp [lower, upper])]

end Exact

/-! ### Columns -/

section Columns

variable {rest : List UInt8}

/-- What a numeral is read as. -/
def outcome (n : Decimal) : Parsed ℚ := (scaledBy n.mantissa n.power).map (apply n.sign)

theorem sign_text (s : DecimalSign) (plain : s = .none → Plain rest) :
    sign (signText s ++ rest) = (decide (s = .minus), rest) := by
  cases s with
  | none =>
      cases rest with
      | nil => rfl
      | cons c rest =>
          obtain ⟨noPlus, noMinus⟩ := plain rfl c rfl
          change sign (c :: rest) = _
          rw [sign, if_neg noMinus, if_neg noPlus]
          rfl
  | plus | minus => rfl

theorem parseFloat_parts {col₁ col₂ col₃ : List UInt8} {s : DecimalSign} {ds : List (Fin 10)}
    {f : Option (DecimalPoint × List (Fin 10))} (plain : s = .none → Plain col₁)
    (first : col₁ = digits ds ++ col₂) (stops : Stops col₂)
    (second : ∀ x, pointed exact x col₂ = (x + fractionValue f, col₃)) :
    parseFloat exact (signText s ++ col₁)
      = (scaled exact (number ds + fractionValue f) col₃).map (apply s) := by
  have zero : exact.ofInt 0 * 10 ^ ds.length + number ds = (number ds : ℚ) := by simp [exact]
  rw [parseFloat, sign_text s plain]
  dsimp only
  rw [first, whole_digits _ ds stops, zero]
  dsimp only
  rw [second]
  cases s <;> rfl

/-- A numeral is all of its column, unless its exponent is too large. -/
theorem exists_decimal (col : List UInt8) :
    ∃ (n : Decimal) (rest : List UInt8), col = n.text ++ rest ∧ parseFloat exact col =
      if TooLarge n.power ∨ rest = [] then outcome n else .noDigit := by
  obtain ⟨s, col₁, rfl, plain⟩ := exists_sign col
  obtain ⟨ds, col₂, rfl, stops⟩ := exists_digits col₁
  obtain ⟨f, col₃, rfl, second⟩ := exists_fraction col₂
  obtain ⟨ex, rest, rfl, third⟩ := exists_scaled col₃
  refine ⟨⟨s, ds, f, ex⟩, rest, by simp [text], ?_⟩
  rw [parseFloat_parts plain rfl stops second, third, outcome, mantissa, power]
  split <;> rfl

theorem parseFloat_text (n : Decimal) (all : TooLarge n.power ∨ rest = []) :
    parseFloat exact (n.text ++ rest) = outcome n := by
  obtain ⟨s, ds, f, ex⟩ := n
  have tail : ∀ c ∈ (exponentText ex ++ rest).head?,
      isDigit c = false ∧ (c ≠ 43 ∧ c ≠ 45) ∧ c ≠ 46 ∧ c ≠ 44 := by
    cases ex with
    | none =>
        have fits : ¬ TooLarge (exponentValue none) := by decide
        obtain rfl := all.resolve_left fits
        nofun
    | some part =>
        intro c first
        obtain rfl := Option.some.inj first
        cases part.1 <;> decide
  have behind : ∀ c ∈ (fractionText f ++ (exponentText ex ++ rest)).head?,
      isDigit c = false ∧ c ≠ 43 ∧ c ≠ 45 := by
    cases f with
    | none => exact fun c first => ⟨(tail c first).1, (tail c first).2.1⟩
    | some part =>
        intro c first
        obtain rfl := Option.some.inj first
        cases part.1 <;> decide
  have plain : Plain (digits ds ++ (fractionText f ++ (exponentText ex ++ rest))) :=
    plain_digits ds fun _ c first => (behind c first).2
  have parts := parseFloat_parts (s := s) (f := f) (fun _ => plain) rfl
    (fun c first => (behind c first).1)
    fun x => pointed_text x f (fun _ c first => (tail c first).1)
      fun _ c first => (tail c first).2.2
  have whole : text ⟨s, ds, f, ex⟩ ++ rest
      = signText s ++ (digits ds ++ (fractionText f ++ (exponentText ex ++ rest))) := by
    simp [text]
  rw [whole, parts, scaled_text _ ex all]
  rfl

end Columns

/-! ### Any arithmetic -/

section Kind

variable {T U : Type} (A : Arithmetic T) (B : Arithmetic U) {x : T} {y : U} {col : List UInt8}

theorem kind_map {f : T → U} (p : Parsed T) : (p.map f).kind = p.kind := by
  cases p <;> rfl

theorem whole_rest : (whole A x col).2 = (whole B y col).2 := by
  induction col generalizing x y with
  | nil => rfl
  | cons c col ih =>
      rw [whole, whole]
      split
      · exact ih
      · rfl

theorem fraction_rest {pos : T} {pos' : U} :
    (fraction A x pos col).2 = (fraction B y pos' col).2 := by
  induction col generalizing x y pos pos' with
  | nil => rfl
  | cons c col ih =>
      rw [fraction, fraction]
      split
      · exact ih
      · rfl

theorem pointed_rest : (pointed A x col).2 = (pointed B y col).2 := by
  cases col with
  | nil => rfl
  | cons c col =>
      rw [pointed, pointed]
      split
      · exact fraction_rest A B
      · rfl

theorem kind_scaled : (scaled A x col).kind = (scaled B y col).kind := by
  cases col with
  | nil => rfl
  | cons c col =>
      rw [scaled, scaled]
      split
      · cases parseSignedInteger col with
        | none => rfl
        | some e =>
            dsimp only
            split
            · rfl
            · split
              · rfl
              · split <;> rfl
      · rfl

/-- Rounding does not decide what is read. -/
theorem kind_parseFloat (col : List UInt8) : (parseFloat A col).kind = (parseFloat B col).kind := by
  rw [parseFloat, parseFloat]
  dsimp only
  rw [kind_map, kind_map, whole_rest A B, pointed_rest A B]
  exact kind_scaled A B

end Kind

/-- With exact arithmetic a column is read as the number it is a numeral of. Its power of ten is
at most the largest `int`; of a numeral with a larger one all that follows is ignored, and one
with the smallest `int` or less has no defined result. Every other column is refused, and no
other arithmetic makes a difference to that. -/
theorem parseFloat_spec (col : List UInt8) :
    (∀ x, parseFloat exact col = .value x ↔ ∃ (n : Decimal) (rest : List UInt8),
      col = n.text ++ rest ∧ (intMax < n.power ∨ rest = []) ∧ intMin < n.power ∧
        x = apply n.sign (n.mantissa * 10 ^ min n.power intMax)) ∧
    (parseFloat exact col = .noDigit ↔ ∀ (n : Decimal) (rest : List UInt8),
      col = n.text ++ rest → rest ≠ [] ∧ intMin ≤ n.power ∧ n.power ≤ intMax) ∧
    ∀ (T : Type) (A : Arithmetic T), (parseFloat A col).kind = (parseFloat exact col).kind := by
  have read (n : Decimal) : outcome n =
      if n.power ≤ intMin then .undefined
      else .value (apply n.sign (n.mantissa * 10 ^ min n.power intMax)) := by
    rw [outcome, scaledBy]
    split <;> rfl
  obtain ⟨n, rest, parts, result⟩ := exists_decimal col
  refine ⟨fun x => ⟨fun value => ?_, ?_⟩, ⟨fun refused m rest' same => ?_, fun none => ?_⟩,
    fun T A => kind_parseFloat A exact col⟩
  · rw [value, read] at result
    split at result
    · next all =>
        split at result
        · cases result
        · next defined =>
            refine ⟨n, rest, parts, ?_, Int.lt_of_not_ge defined, Parsed.value.inj result⟩
            rcases all with (small | large) | none
            · exact absurd small.le defined
            · exact .inl large
            · exact .inr none
    · cases result
  · rintro ⟨m, rest', rfl, all, defined, rfl⟩
    rw [parseFloat_text m (all.imp_left .inr), read, if_neg (Int.not_le.mpr defined)]
  · by_contra other
    have all : TooLarge m.power ∨ rest' = [] := by
      by_contra neither
      obtain ⟨fits, more⟩ := not_or.mp neither
      obtain ⟨lower, upper⟩ := not_or.mp fits
      exact other ⟨more, Int.not_lt.mp lower, Int.not_lt.mp upper⟩
    rw [same, parseFloat_text m all, read] at refused
    split at refused <;> cases refused
  · obtain ⟨more, lower, upper⟩ := none n rest parts
    rw [result, if_neg]
    exact not_or.mpr ⟨not_tooLarge (Int.not_lt.mpr lower) (Int.not_lt.mpr upper), more⟩

end ParseFloat

end Lra
