import Mathlib.Algebra.Order.Group.Defs
import Mathlib.Algebra.Order.Group.Unbundled.Basic
import Mathlib.Data.List.Induction

/-!
# A window of the latest elements

Elements are put at the end of a queue, and each time those at the front are removed whose
keys are more than a width behind that of the new one. Where the keys never fall, the queue
is what a filter leaves of the whole sequence.
-/

namespace Search

variable {α K : Type*}

/-- Where only a front satisfies `p`, dropping it removes all that do. -/
theorem dropWhile_eq_filter {p : α → Bool} {l : List α}
    (front : l.Pairwise fun a b => p b = true → p a = true) :
    l.dropWhile p = l.filter (! p ·) := by
  induction l with
  | nil => rfl
  | cons a l ih =>
      obtain ⟨first, rest⟩ := List.pairwise_cons.mp front
      cases ha : p a with
      | true => rw [List.dropWhile_cons_of_pos ha, List.filter_cons_of_neg (by simp [ha]), ih rest]
      | false =>
          have others : ∀ b ∈ a :: l, (! p b) = true := by
            intro b member
            rw [Bool.not_eq_true', ← Bool.not_eq_true]
            intro hb
            rcases List.mem_cons.mp member with rfl | later
            · exact Bool.false_ne_true (ha.symm.trans hb)
            · exact Bool.false_ne_true (ha.symm.trans (first b later hb))
          rw [List.dropWhile_cons_of_neg (by simp [ha]), List.filter_eq_self.mpr others]

variable [AddCommGroup K] [LinearOrder K]

section Slide

variable (key : α → K) (width : K)

/-- `y` is more than the width behind `x`. -/
def isBehind (x y : α) : Bool := key x - key y > width

/-- Put `x` into the window. -/
def slide (window : List α) (x : α) : List α := (window ++ [x]).dropWhile (isBehind key width x)

end Slide

variable {key : α → K} {width : K} {x y : α} {window : List α}

theorem isBehind_iff : isBehind key width x y = true ↔ width < key x - key y :=
  decide_eq_true_iff

theorem not_isBehind_self (nonneg : 0 ≤ width) (x : α) : isBehind key width x x = false := by
  rw [← Bool.not_eq_true, isBehind_iff, sub_self]
  exact not_lt.mpr nonneg

/-- The oldest element that is left is not behind. -/
theorem not_isBehind_of_slide {rest : List α} (h : slide key width window x = y :: rest) :
    isBehind key width x y = false := by
  have front := List.head?_dropWhile_not (isBehind key width x) (window ++ [x])
  rw [← slide, h, List.head?_cons] at front
  exact front

/-- The newest element is kept. -/
theorem slide_eq_append (nonneg : 0 ≤ width) (window : List α) (x : α) :
    slide key width window x = window.dropWhile (isBehind key width x) ++ [x] := by
  have kept : [x].dropWhile (isBehind key width x) = [x] := by
    rw [List.dropWhile_cons, not_isBehind_self nonneg]
    rfl
  rw [slide, List.dropWhile_append, kept]
  split
  · next empty => rw [List.isEmpty_iff.mp empty, List.nil_append]
  · rfl

variable [IsOrderedAddMonoid K]

theorem isBehind_of_le (le : key y ≤ key x) {z : α} (behind : isBehind key width y z = true) :
    isBehind key width x z = true := by
  rw [isBehind_iff] at behind ⊢
  exact behind.trans_le (sub_le_sub_right le _)

theorem slide_eq_filter (rising : (window ++ [x]).Pairwise fun a b => key a ≤ key b) :
    slide key width window x = (window ++ [x]).filter (! isBehind key width x ·) := by
  refine dropWhile_eq_filter (rising.imp ?_)
  intro a b le behind
  rw [isBehind_iff] at behind ⊢
  exact behind.trans_le (sub_le_sub_left le _)

/-- After a sequence of rising keys the window holds what is not behind the last element. -/
theorem foldl_slide_eq_filter {xs : List α} (rising : xs.Pairwise fun a b => key a ≤ key b) :
    xs.foldl (slide key width) []
      = xs.filter fun y => xs.getLast?.all fun x => ! isBehind key width x y := by
  induction xs using List.reverseRecOn with
  | nil => rfl
  | append_singleton xs x ih =>
      obtain ⟨before, _, between⟩ := List.pairwise_append.mp rising
      have le : ∀ y ∈ xs, key y ≤ key x := fun y member => between y member x (by simp)
      rw [List.foldl_append, List.foldl_cons, List.foldl_nil, ih before, slide_eq_filter,
        List.getLast?_concat, List.filter_append, List.filter_append, List.filter_filter]
      · refine congrArg (· ++ _) (List.filter_congr ?_)
        intro y _
        -- An element that fell behind an earlier one is behind `x` as well.
        cases last : xs.getLast? with
        | none => simp
        | some z =>
            have rises := le z (List.mem_of_getLast? last)
            cases now : isBehind key width x y with
            | true => simp [now]
            | false =>
                have earlier : isBehind key width z y = false := by
                  rw [← Bool.not_eq_true] at now ⊢
                  exact mt (isBehind_of_le rises) now
                simp [now, earlier]
      · exact rising.sublist (List.filter_sublist.append_right _)

end Search
