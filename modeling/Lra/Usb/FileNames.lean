import Lra.Number.Numeral
import Mathlib.Data.List.TakeWhile

/-!
# The next file name

`GetNextFileName` numbers the data files of a directory. It reads the indices of the files
that are there with `stoi` and adds one to the largest, both in `int`.
-/

namespace Lra

open Numeral

/-- The base of a file name, which stands for itself in a regular expression. -/
structure BaseName where
  name : String
  alphanumeric : ∀ c ∈ name.toList, c.isAlphanum = true

/-- A text that `\d+` matches. -/
structure Digits where
  chars : List Char
  notEmpty : chars ≠ []
  isDigit : ∀ c ∈ chars, c.isDigit = true

namespace Digits

def index (ds : Digits) : Nat := Nat.ofDigitChars 10 ds.chars 0

/-- The digits `to_string` writes. -/
def ofNat (k : Nat) : Digits where
  chars := Nat.toDigits 10 k
  notEmpty := Nat.toDigits_ne_nil
  isDigit _ hc := Nat.isDigit_of_mem_toDigits (by decide) (by decide) hc

@[simp] theorem index_ofNat (k : Nat) : (ofNat k).index = k := Nat.ofDigitChars_ten_toDigits

end Digits

namespace BaseName

def acc : BaseName := ⟨"acc", List.all_eq_true.1 (by decide)⟩

def pwm : BaseName := ⟨"pwm", List.all_eq_true.1 (by decide)⟩

/-- `b_<digits>.txt`. -/
def file (b : BaseName) (ds : Digits) : String :=
  b.name ++ "_" ++ String.ofList ds.chars ++ ".txt"

/-- `regex_match` with `b_(\d+)\.txt`: the digits. -/
def regexMatch (b : BaseName) (candidate : String) : Option Digits :=
  let stem := (b.name ++ "_").toList
  let rest := candidate.toList.drop stem.length
  if h : stem <+: candidate.toList ∧ rest.takeWhile Char.isDigit ≠ [] ∧
      rest.dropWhile Char.isDigit = ".txt".toList then
    some ⟨rest.takeWhile Char.isDigit, h.2.1, fun _ hc => List.mem_takeWhile_imp hc⟩
  else none

end BaseName

namespace Rcws

/-- `maxIndex + 1` in `int`, which wraps around. -/
def nextIndex (maxIndex : Int) : Int := Int.bmod (maxIndex + 1) (2 ^ 32)

/-- One turn of the loop over the directory. -/
def updateMaxIndex (b : BaseName) (maxIndex : Int) (candidate : String) :
    Except StdException Int :=
  match b.regexMatch candidate with
  | some ds => do
    let index ← stoi (String.ofList ds.chars) 10
    return max maxIndex index
  | none => return maxIndex

/-- For the names of the entries of the directory. -/
def getNextFileName (entries : List String) (b : BaseName) : Except StdException String := do
  let maxIndex ← entries.foldlM (updateMaxIndex b) 0
  return b.name ++ "_" ++ toString (nextIndex maxIndex) ++ ".txt"

example : getNextFileName ["acc_3.txt", "pwm_7.txt", "acc_012.txt", "acc_.txt"] .acc =
    .ok "acc_13.txt" := by decide +kernel

end Rcws

/-! ### The files that are there -/

namespace BaseName

variable {b : BaseName} {candidate : String} {ds : Digits}

/-- The digits of a name are all between the stem and the point. -/
theorem regexMatch_file (b : BaseName) (ds : Digits) : b.regexMatch (b.file ds) = some ds := by
  have text : (b.file ds).toList = (b.name ++ "_").toList ++ (ds.chars ++ ".txt".toList) := by
    simp [file]
  have stem : (b.name ++ "_").toList <+: (b.file ds).toList := text ▸ List.prefix_append _ _
  have rest : (b.file ds).toList.drop (b.name ++ "_").toList.length =
      ds.chars ++ ".txt".toList := by
    rw [text, List.drop_left]
  have digits : (ds.chars ++ ".txt".toList).takeWhile Char.isDigit = ds.chars := by
    rw [List.takeWhile_append_of_pos ds.isDigit]
    simp
  have ending : (ds.chars ++ ".txt".toList).dropWhile Char.isDigit = ".txt".toList := by
    rw [List.dropWhile_append_of_pos ds.isDigit]
    simp
  simp only [regexMatch, rest, digits, ending, stem, ds.notEmpty, ne_eq, not_false_eq_true,
    and_self, dite_true]

theorem regexMatch_eq_some : b.regexMatch candidate = some ds ↔ candidate = b.file ds := by
  constructor
  · intro found
    unfold regexMatch at found
    dsimp only at found
    split at found
    · next h =>
        cases found
        have whole := List.prefix_iff_eq_append.mp h.1
        have parts := List.takeWhile_append_dropWhile (p := Char.isDigit)
          (l := candidate.toList.drop (b.name ++ "_").toList.length)
        rw [h.2.2] at parts
        apply String.toList_inj.mp
        simp only [file, String.toList_append, String.toList_ofList] at whole parts ⊢
        rw [List.append_assoc, parts, whole]
    · cases found
  · rintro rfl
    exact regexMatch_file b ds

theorem file_injective (b : BaseName) : Function.Injective b.file := by
  intro ds ds' same
  have found := regexMatch_file b ds
  rw [same, regexMatch_file] at found
  exact (Option.some.inj found).symm

end BaseName

namespace Rcws

variable {b : BaseName} {entries : List String} {candidate : String}

theorem stoi_index (ds : Digits) :
    stoi (String.ofList ds.chars) 10 =
      if (ds.index : Int) ≤ intMax then .ok (ds.index : Int) else .error .outOfRange := by
  have chars : (String.ofList ds.chars).toList = ds.chars := String.toList_ofList
  have notEmpty : String.ofList ds.chars ≠ "" := by
    intro empty
    exact ds.notEmpty (by rw [← chars, empty]; rfl)
  have read := stoi_of_isDigit notEmpty (chars.symm ▸ ds.isDigit)
  rw [chars] at read
  exact read

theorem updateMaxIndex_file (ds : Digits) (m : Nat) :
    updateMaxIndex b m (b.file ds) =
      if (ds.index : Int) ≤ intMax then .ok ((max m ds.index : Nat) : Int)
      else .error .outOfRange := by
  rw [updateMaxIndex, b.regexMatch_file]
  dsimp only
  rw [stoi_index]
  split
  · simp only [bind, Except.bind, pure, Except.pure, Except.ok.injEq]
    omega
  · rfl

theorem updateMaxIndex_other (other : ∀ ds, candidate ≠ b.file ds) (m : Int) :
    updateMaxIndex b m candidate = .ok m := by
  have none : b.regexMatch candidate = none := by
    cases found : b.regexMatch candidate with
    | none => rfl
    | some ds => exact absurd (BaseName.regexMatch_eq_some.mp found) (other ds)
  rw [updateMaxIndex, none]
  rfl

/-- The loop ends with the largest index, if each fits an `int`. -/
theorem foldlM_updateMaxIndex (m : Nat)
    (fit : ∀ ds : Digits, b.file ds ∈ entries → (ds.index : Int) ≤ intMax) :
    ∃ M : Nat, entries.foldlM (updateMaxIndex b) (m : Int) = .ok (M : Int) ∧ m ≤ M ∧
      (∀ ds : Digits, b.file ds ∈ entries → ds.index ≤ M) ∧
      (M = m ∨ ∃ ds : Digits, b.file ds ∈ entries ∧ ds.index = M) := by
  induction entries generalizing m with
  | nil => exact ⟨m, rfl, Nat.le_refl m, by simp, .inl rfl⟩
  | cons candidate entries ih =>
      have fit' : ∀ ds : Digits, b.file ds ∈ entries → (ds.index : Int) ≤ intMax :=
        fun ds there => fit ds (List.mem_cons_of_mem _ there)
      by_cases named : ∃ ds, candidate = b.file ds
      · obtain ⟨ds, rfl⟩ := named
        obtain ⟨M, loop, le, all, reached⟩ := ih (max m ds.index) fit'
        have first : updateMaxIndex b m (b.file ds) = .ok ((max m ds.index : Nat) : Int) := by
          rw [updateMaxIndex_file, if_pos (fit ds (List.mem_cons_self ..))]
        refine ⟨M, ?_, by omega, ?_, ?_⟩
        · rw [List.foldlM_cons, first]
          exact loop
        · intro ds' there
          rcases List.mem_cons.mp there with same | there
          · obtain rfl := b.file_injective same
            omega
          · exact all ds' there
        · rcases reached with rfl | ⟨ds', there, index⟩
          · rcases Nat.le_total ds.index m with below | above
            · exact .inl (Nat.max_eq_left below)
            · exact .inr ⟨ds, List.mem_cons_self .., (Nat.max_eq_right above).symm⟩
          · exact .inr ⟨ds', List.mem_cons_of_mem _ there, index⟩
      · have other : ∀ ds, candidate ≠ b.file ds := fun ds same => named ⟨ds, same⟩
        obtain ⟨M, loop, le, all, reached⟩ := ih m fit'
        refine ⟨M, ?_, le, ?_, ?_⟩
        · rw [List.foldlM_cons, updateMaxIndex_other other]
          exact loop
        · intro ds there
          rcases List.mem_cons.mp there with same | there
          · exact absurd same.symm (other ds)
          · exact all ds there
        · rcases reached with same | ⟨ds, there, index⟩
          · exact .inl same
          · exact .inr ⟨ds, List.mem_cons_of_mem _ there, index⟩

/-- An index that does not fit ends the loop. -/
theorem foldlM_updateMaxIndex_error {ds : Digits} (there : b.file ds ∈ entries)
    (big : intMax < ds.index) (m : Nat) :
    entries.foldlM (updateMaxIndex b) (m : Int) = .error .outOfRange := by
  induction entries generalizing m with
  | nil => cases there
  | cons candidate entries ih =>
      rw [List.foldlM_cons]
      by_cases named : ∃ ds', candidate = b.file ds'
      · obtain ⟨ds', rfl⟩ := named
        rw [updateMaxIndex_file]
        split
        · next fits =>
            rcases List.mem_cons.mp there with same | later
            · obtain rfl := b.file_injective same
              exact absurd fits (Int.not_le.mpr big)
            · exact ih later _
        · rfl
      · have other : ∀ ds, candidate ≠ b.file ds := fun ds same => named ⟨ds, same⟩
        rw [updateMaxIndex_other other]
        rcases List.mem_cons.mp there with same | later
        · exact absurd same.symm (other ds)
        · exact ih later m

theorem getNextFileName_error {ds : Digits} (there : b.file ds ∈ entries)
    (big : intMax < ds.index) : getNextFileName entries b = .error .outOfRange := by
  have loop : entries.foldlM (updateMaxIndex b) 0 = .error .outOfRange :=
    foldlM_updateMaxIndex_error there big 0
  rw [getNextFileName, loop]
  rfl

/-- The largest index, and the name made of the number after it. -/
theorem getNextFileName_eq
    (fit : ∀ ds : Digits, b.file ds ∈ entries → (ds.index : Int) ≤ intMax) :
    ∃ M : Nat, getNextFileName entries b =
        .ok (b.name ++ "_" ++ toString (nextIndex M) ++ ".txt") ∧
      (∀ ds : Digits, b.file ds ∈ entries → ds.index ≤ M) ∧
      (M = 0 ∨ ∃ ds : Digits, b.file ds ∈ entries ∧ ds.index = M) := by
  obtain ⟨M, loop, _, all, reached⟩ := foldlM_updateMaxIndex 0 fit
  have loop : entries.foldlM (updateMaxIndex b) 0 = .ok (M : Int) := loop
  refine ⟨M, ?_, all, reached⟩
  rw [getNextFileName, loop]
  rfl

/-- Every index of a file with this base fits an `int`. -/
def IndicesFit (entries : List String) (b : BaseName) : Prop :=
  ∀ ds : Digits, b.file ds ∈ entries → (ds.index : Int) ≤ intMax

/-- Without a name it throws `out_of_range`. -/
theorem getNextFileName_cases (entries : List String) (b : BaseName) :
    (IndicesFit entries b ∧ ∃ name, getNextFileName entries b = .ok name) ∨
      ¬ IndicesFit entries b ∧ getNextFileName entries b = .error .outOfRange := by
  by_cases fit : IndicesFit entries b
  · obtain ⟨M, name, _⟩ := getNextFileName_eq fit
    exact .inl ⟨fit, _, name⟩
  · obtain ⟨ds, unfit⟩ := not_forall.mp fit
    obtain ⟨there, big⟩ := Classical.not_imp.mp unfit
    exact .inr ⟨fit, getNextFileName_error there (Int.not_le.mp big)⟩

/-! ### Freshness -/

/-- What is returned is the name of a file that is not there, with an index larger than any
that is. -/
def NextIsFresh (entries : List String) (b : BaseName) : Prop :=
  ∃ k : Nat, getNextFileName entries b = .ok (b.file (.ofNat k)) ∧
    (∀ ds : Digits, b.file ds ∈ entries → ds.index < k) ∧ b.file (.ofNat k) ∉ entries

/-- A number with a minus, as the increment leaves when it wraps around, names no file. -/
theorem ne_file_of_minus {text : String} (ds : Digits) (minus : '-' ∈ text.toList) :
    b.name ++ "_" ++ text ++ ".txt" ≠ b.file ds := by
  intro same
  have chars := congrArg String.toList same
  simp only [BaseName.file, String.toList_append, String.toList_ofList, List.append_assoc,
    List.append_cancel_left_eq, List.append_cancel_right_eq] at chars
  exact absurd (ds.isDigit '-' (chars ▸ minus)) (by decide)

theorem file_of_nextIndex {M : Nat} (room : M < 2147483647) :
    b.name ++ "_" ++ toString (nextIndex M) ++ ".txt" = b.file (.ofNat (M + 1)) := by
  have next : nextIndex M = ((M + 1 : Nat) : Int) := by
    rw [nextIndex, Int.bmod_eq_of_le (by omega) (by omega)]
    rfl
  have text : toString ((M + 1 : Nat) : Int) = String.ofList (Nat.toDigits 10 (M + 1)) :=
    Nat.repr_eq_ofList_toDigits
  rw [next, text]
  rfl

theorem nextIsFresh_iff :
    NextIsFresh entries b ↔ ∀ ds : Digits, b.file ds ∈ entries → ds.index < 2147483647 := by
  constructor
  · rintro ⟨k, returned, _, _⟩
    have fit : ∀ ds : Digits, b.file ds ∈ entries → (ds.index : Int) ≤ intMax := by
      intro ds there
      by_contra big
      rw [getNextFileName_error there (Int.not_le.mp big)] at returned
      cases returned
    obtain ⟨M, name, all, reached⟩ := getNextFileName_eq fit
    have top : M < 2147483647 := by
      rcases reached with rfl | ⟨ds, there, rfl⟩
      · decide
      · have le : (ds.index : Int) ≤ 2147483647 := fit ds there
        by_contra reach
        have index : ds.index = 2147483647 := by omega
        rw [name, index] at returned
        exact ne_file_of_minus _ (by decide +kernel) (Except.ok.inj returned)
    intro ds there
    exact Nat.lt_of_le_of_lt (all ds there) top
  · intro small
    have fit : ∀ ds : Digits, b.file ds ∈ entries → (ds.index : Int) ≤ intMax := by
      intro ds there
      have := small ds there
      simp only [intMax]
      omega
    obtain ⟨M, name, all, reached⟩ := getNextFileName_eq fit
    have top : M < 2147483647 := by
      rcases reached with rfl | ⟨ds, there, rfl⟩
      · decide
      · exact small ds there
    refine ⟨M + 1, ?_, fun ds there => Nat.lt_succ_of_le (all ds there), fun there => ?_⟩
    · rw [name, file_of_nextIndex top]
    · have le := all _ there
      rw [Digits.index_ofNat] at le
      omega

/-- A file with the index `2 ^ 31` ends the search, and one with `2 ^ 31 - 1` has no next. -/
theorem not_nextIsFresh :
    (¬ ∀ entries b, NextIsFresh entries b) ∧
      getNextFileName ["acc_2147483648.txt"] .acc = .error .outOfRange ∧
      getNextFileName ["acc_2147483647.txt"] .acc = .ok "acc_-2147483648.txt" := by
  have thrown : getNextFileName ["acc_2147483648.txt"] .acc = .error .outOfRange := by
    decide +kernel
  refine ⟨fun fresh => ?_, thrown, by decide +kernel⟩
  obtain ⟨k, returned, _⟩ := fresh ["acc_2147483648.txt"] .acc
  rw [thrown] at returned
  cases returned

end Rcws

end Lra
