import Mathlib.Tactic.TypeStar

/-!
# Greedy acceptance

A row of places is filled from a list of candidates. Each place takes the first candidate
since the one before it that it accepts, and the candidates between them are passed over.
-/

namespace Search

variable {α β : Type*}

/-- From place `i` on, `as` fills the places with `bs` and leaves `rest`. -/
inductive Greedy (accept : Nat → α → Option β) : Nat → List α → List β → List α → Prop where
  | done {i rest} : Greedy accept i rest [] rest
  | take {i} (skipped) {a b as bs rest} : (∀ x ∈ skipped, accept i x = none) →
      accept i a = some b → Greedy accept (i + 1) as bs rest →
      Greedy accept i (skipped ++ a :: as) (b :: bs) rest

namespace Greedy

variable {accept : Nat → α → Option β} {i : Nat} {a : α} {b : β} {as rest rest' : List α}
  {bs bs' : List β}

/-- A candidate that is not accepted is passed over. -/
theorem skip (refused : accept i a = none) (fills : Greedy accept i as (b :: bs) rest) :
    Greedy accept i (a :: as) (b :: bs) rest := by
  cases fills with
  | @take _ skipped a' _ as' _ _ before found after =>
      refine Greedy.take (a :: skipped) ?_ found after
      intro x member
      rcases List.mem_cons.mp member with rfl | later
      · exact refused
      · exact before x later

theorem not_nil : ¬ Greedy accept i [] (b :: bs) rest := by
  generalize none : ([] : List α) = as
  intro fills
  cases fills with
  | take => simp at none

theorem of_refused (refused : accept i a = none)
    (fills : Greedy accept i (a :: as) (b :: bs) rest) : Greedy accept i as (b :: bs) rest := by
  generalize whole : a :: as = l at fills
  cases fills with
  | @take _ skipped a' _ as' _ _ before found after =>
      cases skipped with
      | nil =>
          cases whole
          rw [refused] at found
          cases found
      | cons x skipped =>
          cases whole
          exact .take skipped (fun y member => before y (List.mem_cons_of_mem _ member)) found after

theorem of_accepted {c : β} (accepted : accept i a = some c)
    (fills : Greedy accept i (a :: as) (b :: bs) rest) :
    b = c ∧ Greedy accept (i + 1) as bs rest := by
  generalize whole : a :: as = l at fills
  cases fills with
  | @take _ skipped a' _ as' _ _ before found after =>
      cases skipped with
      | nil =>
          cases whole
          exact ⟨Option.some.inj (found.symm.trans accepted), after⟩
      | cons x skipped =>
          cases whole
          have refused := before a (List.mem_cons_self ..)
          rw [accepted] at refused
          cases refused

/-- What fills a place is what the place accepts some candidate as. -/
theorem accepted (fills : Greedy accept i as bs rest) {j : Nat} (h : j < bs.length) :
    ∃ a ∈ as, accept (i + j) a = some bs[j] := by
  induction fills generalizing j with
  | done => cases h
  | @take i skipped a b as bs rest _ found _ ih =>
      cases j with
      | zero => exact ⟨a, by simp, found⟩
      | succ j =>
          obtain ⟨a', member, found'⟩ := ih (Nat.lt_of_succ_lt_succ h)
          refine ⟨a', by simp [member], ?_⟩
          rw [Nat.add_right_comm] at found'
          exact found'

end Greedy

end Search
