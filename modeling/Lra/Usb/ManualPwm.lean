import Lra.Search.Greedy
import Lra.Usb.UiParser

/-!
# Manual PWM commands

The loop that asks for six floats fills its places greedily. It states the ranges of
`RangeCheck` a second time, so what it accepts is never refused by `DevPwmCmd`.
-/

namespace Lra

open Effect Numeral Search

namespace UiParser

/-- The float an answer gives for a place, if it is converted and in the range of the place. -/
def accept (stof : String → Except StdException UInt32) (i : Nat) (answer : String) :
    Option UInt32 :=
  match stof answer with
  | .ok floatCandidate => if floatIsOk i floatCandidate then some floatCandidate else none
  | .error _ => none

section Loop

variable {stof : String → Except StdException UInt32} {answer : String}
  {answers rest : List String} {fdata values : List UInt32}

/-- One turn of the loop. -/
theorem readFloats_cons (open_ : fdata.length < floatNum) :
    readFloats stof (answer :: answers) fdata =
      match accept stof fdata.length answer with
      | some floatCandidate => readFloats stof answers (fdata ++ [floatCandidate])
      | none => readFloats stof answers fdata := by
  rw [readFloats, if_pos open_, accept]
  cases stof answer with
  | error e => rfl
  | ok floatCandidate =>
      dsimp only
      split <;> rfl

theorem readFloats_full (full : ¬ fdata.length < floatNum) :
    readFloats stof answers fdata = some (fdata, answers) := by
  cases answers with
  | nil => exact if_neg full
  | cons answer answers => exact if_neg full

/-- The floats accepted before are kept. -/
theorem prefix_of_readFloats {out : List UInt32}
    (reads : readFloats stof answers fdata = some (out, rest)) : fdata <+: out := by
  induction answers generalizing fdata with
  | nil =>
      rw [readFloats] at reads
      split at reads
      · cases reads
      · cases reads
        exact List.prefix_rfl
  | cons answer answers ih =>
      by_cases open_ : fdata.length < floatNum
      · rw [readFloats_cons open_] at reads
        split at reads
        · exact (List.prefix_append _ _).trans (ih reads)
        · exact ih reads
      · rw [readFloats_full open_] at reads
        cases reads
        exact List.prefix_rfl

/-- With all places filled nothing is taken. -/
theorem readFloats_full_iff (full : fdata.length = floatNum) :
    readFloats stof answers fdata = some (fdata ++ values, rest) ↔
      Greedy (accept stof) fdata.length answers values rest ∧
        fdata.length + values.length = floatNum := by
  rw [readFloats_full (by omega)]
  constructor
  · intro same
    obtain ⟨empty, rfl⟩ := Prod.mk.inj (Option.some.inj same)
    obtain rfl : values = [] := List.append_cancel_left (empty.symm.trans (List.append_nil _).symm)
    exact ⟨.done, full⟩
  · rintro ⟨fills, count⟩
    obtain rfl : values = [] := List.eq_nil_of_length_eq_zero (by omega)
    cases fills
    rw [List.append_nil]

/-- The loop returns when the places that were open are filled. -/
theorem readFloats_iff (le : fdata.length ≤ floatNum) :
    readFloats stof answers fdata = some (fdata ++ values, rest) ↔
      Greedy (accept stof) fdata.length answers values rest ∧
        fdata.length + values.length = floatNum := by
  induction answers generalizing fdata values with
  | nil =>
      rcases Nat.lt_or_eq_of_le le with open_ | full
      · refine iff_of_false ?_ ?_
        · rw [readFloats, if_pos open_]
          simp
        · rintro ⟨fills, count⟩
          cases values with
          | nil =>
              rw [List.length_nil] at count
              omega
          | cons b bs => exact Greedy.not_nil fills
      · exact readFloats_full_iff full
  | cons answer answers ih =>
      rcases Nat.lt_or_eq_of_le le with open_ | full
      · rw [readFloats_cons open_]
        cases accepts : accept stof fdata.length answer with
        | none =>
            dsimp only
            rw [ih le]
            refine and_congr_left fun count => ?_
            cases values with
            | nil =>
                rw [List.length_nil] at count
                omega
            | cons b bs => exact ⟨Greedy.skip accepts, Greedy.of_refused accepts⟩
        | some c =>
            dsimp only
            have next : (fdata ++ [c]).length = fdata.length + 1 := by simp
            constructor
            · intro reads
              obtain ⟨values', whole⟩ := prefix_of_readFloats reads
              obtain rfl : values = c :: values' := by
                rw [List.append_assoc] at whole
                exact (List.append_cancel_left whole).symm
              have split : fdata ++ c :: values' = (fdata ++ [c]) ++ values' := by simp
              rw [split, ih (by omega), next] at reads
              refine ⟨.take [] (by simp) accepts reads.1, ?_⟩
              rw [List.length_cons]
              omega
            · rintro ⟨fills, count⟩
              cases values with
              | nil =>
                  rw [List.length_nil] at count
                  omega
              | cons b bs =>
                  obtain ⟨rfl, after⟩ := Greedy.of_accepted accepts fills
                  have split : fdata ++ b :: bs = (fdata ++ [b]) ++ bs := by simp
                  rw [split, ih (by omega), next]
                  rw [List.length_cons] at count
                  exact ⟨after, by omega⟩
      · exact readFloats_full_iff full

end Loop

/-! ### The command -/

section Command

variable {stof : String → Except StdException UInt32} {info : RcwsPwmInfo}
  {answers rest : List String}

theorem floatArray_infoOf {fdata : List UInt32} (six : fdata.length = floatNum) :
    Rcws.floatArray (infoOf fdata) = fdata := by
  match fdata, six with
  | [_, _, _, _, _, _], _ => rfl

/-- The six floats of a command are read exactly if they fill the places of its members. -/
theorem readFloats_floatArray :
    readFloats stof answers [] = some (Rcws.floatArray info, rest) ↔
      Greedy (accept stof) 0 answers (Rcws.floatArray info) rest := by
  have loop : readFloats stof answers [] = some ([] ++ Rcws.floatArray info, rest) ↔
      Greedy (accept stof) 0 answers (Rcws.floatArray info) rest ∧
        0 + (Rcws.floatArray info).length = floatNum := readFloats_iff (Nat.zero_le _)
  rw [List.nil_append] at loop
  exact loop.trans (and_iff_left rfl)

theorem isSome_of_accept {i : Nat} {answer : String} {value : UInt32}
    (accepts : accept stof i answer = some value) : floatIsOk i value = true := by
  unfold accept at accepts
  split at accepts
  · split at accepts
    · next ok =>
        cases accepts
        exact ok
    · cases accepts
  · cases accepts

/-- The ranges of the loop are those of `RangeCheck`. -/
theorem rangeCheck_of_greedy
    (fills : Greedy (accept stof) 0 answers (Rcws.floatArray info) rest) :
    Rcws.rangeCheck info = true := by
  have ok (j : Nat) (h : j < 6) : floatIsOk j ((Rcws.floatArray info).get ⟨j, h⟩) = true := by
    obtain ⟨answer, _, accepts⟩ := fills.accepted (j := j) h
    rw [Nat.zero_add] at accepts
    exact isSome_of_accept accepts
  have xAmp : Rcws.ampRange.isWithinRange (.ofBits info.x.amp) = true := ok 0 (by decide)
  have xFreq : Rcws.freqRange.isWithinRange (.ofBits info.x.freq) = true := ok 1 (by decide)
  have yAmp : Rcws.ampRange.isWithinRange (.ofBits info.y.amp) = true := ok 2 (by decide)
  have yFreq : Rcws.freqRange.isWithinRange (.ofBits info.y.freq) = true := ok 3 (by decide)
  have zAmp : Rcws.ampRange.isWithinRange (.ofBits info.z.amp) = true := ok 4 (by decide)
  have zFreq : Rcws.freqRange.isWithinRange (.ofBits info.z.freq) = true := ok 5 (by decide)
  simp [Rcws.rangeCheck, xAmp, xFreq, yAmp, yFreq, zAmp, zFreq]

theorem pwmManual_of_greedy {s : UiState}
    (fills : Greedy (accept stof) 0 s.answers (Rcws.floatArray info) rest) :
    pwmManual stof s =
      .ok () { s with answers := rest, calls := s.calls ++ [.devPwmCmd info] } := by
  have reads : getFloats stof s = .ok (Rcws.floatArray info) { s with answers := rest } := by
    rw [getFloats, readFloats_floatArray.mpr fills]
  exact bind_of_ok reads

theorem pwmManual_of_not_greedy {s : UiState}
    (open_ : ¬ ∃ info rest, Greedy (accept stof) 0 s.answers (Rcws.floatArray info) rest) :
    pwmManual stof s = .error .waiting { s with answers := [] } := by
  have reads : readFloats stof s.answers [] = none := by
    cases read : readFloats stof s.answers [] with
    | none => rfl
    | some got =>
        obtain ⟨fdata, rest⟩ := got
        have filled : Greedy (accept stof) 0 s.answers fdata rest ∧ 0 + fdata.length = floatNum :=
          (readFloats_iff (Nat.zero_le _)).mp read
        have six : fdata.length = floatNum := (Nat.zero_add _).symm.trans filled.2
        rw [← floatArray_infoOf six] at read
        exact absurd ⟨_, _, readFloats_floatArray.mp read⟩ open_
  have waits : getFloats stof s = .error .waiting { s with answers := [] } := by
    rw [getFloats, reads]
  exact bind_of_error waits

/-- The loop ends exactly if six floats fill the places of a command greedily, and that
command is then sent, in range and in thirty bytes. Until then the user is asked. -/
theorem pwmManual_greedy (stof : String → Except StdException UInt32) (s : UiState) :
    ((∃ t, pwmManual stof s = .ok () t) ↔
      ∃ info rest, Greedy (accept stof) 0 s.answers (Rcws.floatArray info) rest) ∧
    (∀ info rest, Greedy (accept stof) 0 s.answers (Rcws.floatArray info) rest →
      pwmManual stof s =
        .ok () { s with answers := rest, calls := s.calls ++ [.devPwmCmd info] } ∧
      Rcws.rangeCheck info = true ∧ ∃ payload : List UInt8, payload.length = 30 ∧
        Rcws.written info = [RcwsMsgGenerator.generate .updatePwm payload]) ∧
    ((¬ ∃ t, pwmManual stof s = .ok () t) →
      pwmManual stof s = .error .waiting { s with answers := [] }) := by
  have ends : (∃ t, pwmManual stof s = .ok () t) ↔
      ∃ info rest, Greedy (accept stof) 0 s.answers (Rcws.floatArray info) rest := by
    constructor
    · rintro ⟨t, done⟩
      by_contra open_
      rw [pwmManual_of_not_greedy open_] at done
      cases done
    · rintro ⟨info, rest, fills⟩
      exact ⟨_, pwmManual_of_greedy fills⟩
  refine ⟨ends, ?_, fun waits => pwmManual_of_not_greedy (mt ends.mpr waits)⟩
  intro info rest fills
  have inRange := rangeCheck_of_greedy fills
  refine ⟨pwmManual_of_greedy fills, inRange, Rcws.rcwsPwmInfoToVec info, ?_, rfl⟩
  rw [Rcws.rcwsPwmInfoToVec_eq inRange]
  simp [RcwsParser.byteCountPerAxis]

end Command

end UiParser

end Lra
