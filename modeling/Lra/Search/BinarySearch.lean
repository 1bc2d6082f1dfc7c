import Mathlib.Data.List.TakeWhile

/-!
# Binary search

`std::lower_bound` and `std::binary_search`, halving the range at each step. On a sorted
range the first counts the elements below the value and the second decides membership;
on any other range neither need mean anything.
-/

namespace Search

variable {α : Type} [LT α] [DecidableLT α]

/-- How many elements of the range come before the first that is not below `v`. -/
def lowerBound (v : α) (l : List α) : Nat :=
  let half := l.length / 2
  match split : l.drop half with
  | [] => 0
  | middle :: behind =>
    if middle < v then half + 1 + lowerBound v behind else lowerBound v (l.take half)
termination_by l.length
decreasing_by
  all_goals
    have length := congrArg List.length split
    simp only [List.length_drop, List.length_cons, List.length_take] at length ⊢
    omega

def binarySearch (v : α) (l : List α) : Bool :=
  match l[lowerBound v l]? with
  | none => false
  | some x => !decide (v < x)

@[simp] theorem lowerBound_nil (v : α) : lowerBound v [] = 0 := by
  rw [lowerBound]
  split
  · rfl
  · next some => simp at some

theorem lowerBound_split {v middle : α} {l behind : List α}
    (split : l.drop (l.length / 2) = middle :: behind) :
    lowerBound v l =
      if middle < v then l.length / 2 + 1 + lowerBound v behind
      else lowerBound v (l.take (l.length / 2)) := by
  rw [lowerBound]
  split
  · next none => cases none.symm.trans split
  · next some =>
      cases some.symm.trans split
      rfl

section Sorted

variable [LE α] [Std.IsLinearOrder α]

omit [LT α] [DecidableLT α] [Std.IsLinearOrder α] in
/-- Around its middle element a sorted range has the smaller ones before and the larger
ones behind. -/
theorem middle_of_sorted {l before behind : List α} {middle : α} (sorted : l.Pairwise (· ≤ ·))
    (split : l = before ++ middle :: behind) :
    before.Pairwise (· ≤ ·) ∧ behind.Pairwise (· ≤ ·) ∧ (∀ a ∈ before, a ≤ middle) ∧
      ∀ a ∈ behind, middle ≤ a := by
  subst split
  obtain ⟨first, second, cross⟩ := List.pairwise_append.mp sorted
  obtain ⟨behind, rest⟩ := List.pairwise_cons.mp second
  exact ⟨first, rest, fun a inside => cross a inside middle List.mem_cons_self, behind⟩

variable [Std.LawfulOrderLT α]

theorem lowerBound_eq {v : α} {l : List α} (sorted : l.Pairwise (· ≤ ·)) :
    lowerBound v l = (l.takeWhile (· < v)).length := by
  induction l using lowerBound.induct v with
  | case1 l half split =>
      have short : l.length - l.length / 2 = 0 := by
        rw [← List.length_drop, split, List.length_nil]
      have empty : l = [] := List.length_eq_zero_iff.mp (by omega)
      rw [empty, lowerBound_nil]
      rfl
  | case2 l half middle behind split below ih =>
      have whole : l = l.take half ++ middle :: behind := by rw [← split, List.take_append_drop]
      obtain ⟨_, rest, before, _⟩ := middle_of_sorted sorted whole
      have size : (l.take half).length = half := by
        have length := congrArg List.length split
        simp only [List.length_drop, List.length_cons] at length
        rw [List.length_take]
        omega
      have pass : ∀ a ∈ l.take half, decide (a < v) = true := fun a inside =>
        decide_eq_true (Std.lt_of_le_of_lt (before a inside) below)
      have counted := calc l.takeWhile (· < v)
          = (l.take half ++ middle :: behind).takeWhile (· < v) := congrArg _ whole
        _ = l.take half ++ (middle :: behind).takeWhile (· < v) := List.takeWhile_append_of_pos pass
        _ = l.take half ++ middle :: behind.takeWhile (· < v) := by
          rw [List.takeWhile_cons, if_pos (decide_eq_true below)]
      rw [lowerBound_split split, if_pos below, ih rest, counted, List.length_append, size,
        List.length_cons]
      omega
  | case3 l half middle behind split notBelow ih =>
      have whole : l = l.take half ++ middle :: behind := by rw [← split, List.take_append_drop]
      obtain ⟨first, _, _, _⟩ := middle_of_sorted sorted whole
      have stop : (middle :: behind).takeWhile (· < v) = [] :=
        List.takeWhile_cons_of_neg (by simpa using notBelow)
      have counted := calc l.takeWhile (· < v)
          = (l.take half ++ middle :: behind).takeWhile (· < v) := congrArg _ whole
        _ = (l.take half).takeWhile (· < v) := by
          rw [List.takeWhile_append, stop, List.append_nil]
          split
          · next all => exact ((List.takeWhile_prefix _).eq_of_length all).symm
          · rfl
      rw [lowerBound_split split, if_neg notBelow, ih first, counted]

theorem binarySearch_iff_mem {v : α} {l : List α} (sorted : l.Pairwise (· ≤ ·)) :
    binarySearch v l = true ↔ v ∈ l := by
  have whole : l.takeWhile (· < v) ++ l.dropWhile (· < v) = l := List.takeWhile_append_dropWhile
  have below : v ∉ l.takeWhile (· < v) := fun inside =>
    Std.lt_irrefl (of_decide_eq_true (List.mem_takeWhile_imp (p := (· < v)) inside))
  have first : l[lowerBound v l]? = (l.dropWhile (· < v)).head? := by
    calc l[lowerBound v l]?
        = (l.takeWhile (· < v) ++ l.dropWhile (· < v))[(l.takeWhile (· < v)).length]? := by
          rw [whole, lowerBound_eq sorted]
      _ = (l.dropWhile (· < v)).head? := by
          rw [List.getElem?_append_right (Nat.le_refl _), Nat.sub_self, List.head?_eq_getElem?]
  have member : v ∈ l ↔ v ∈ l.dropWhile (· < v) := by
    refine ⟨fun inside => ?_, fun inside => whole ▸ List.mem_append_right _ inside⟩
    rw [← whole] at inside
    exact (List.mem_append.mp inside).resolve_left below
  rw [binarySearch, first, member]
  cases rest : l.dropWhile (· < v) with
  | nil => simp
  | cons x behind =>
      have notBelow : ¬ x < v := by
        have stopped := List.dropWhile_get_zero_not (p := (· < v)) l (by simp [rest])
        simpa [rest] using stopped
      have least : ∀ a ∈ behind, x ≤ a :=
        (List.pairwise_cons.mp (rest ▸ sorted.sublist (List.dropWhile_sublist _))).1
      constructor
      · intro found
        have notAbove : ¬ v < x := by simpa using found
        have same : v = x := Std.le_antisymm (Std.not_lt.mp notBelow) (Std.not_lt.mp notAbove)
        exact same ▸ List.mem_cons_self
      · intro inside
        have notAbove : ¬ v < x := by
          cases List.mem_cons.mp inside with
          | inl here => exact here ▸ Std.lt_irrefl
          | inr later => exact Std.not_lt.mpr (least v later)
        simpa using notAbove

end Sorted

end Search
