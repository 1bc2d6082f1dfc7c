import Mathlib.Data.Multiset.ZeroCons
import Mathlib.Order.Lattice

/-!
# Priority queues

Only the content of a `std::priority_queue` is kept. Its top is a greatest element; where
several are greatest, which one it is depends on the insertions and removals so far, so
any of them may be taken.
-/

namespace Search

variable {α κ : Type}

/-- `e` may be on top of a queue of the content `q`, and removing it leaves `rest`. -/
structure Top [LT α] (e : α) (q rest : Multiset α) : Prop where
  content : q = e ::ₘ rest
  greatest : ∀ b ∈ rest, ¬ e < b

section Key

variable [LT α] [LinearOrder κ] {key : α → κ}

/-- Where `<` reverses the order of a key, the top has the least key. -/
theorem Top.key_le {e : α} {q rest : Multiset α} (top : Top e q rest)
    (reversed : ∀ a b : α, a < b ↔ key b < key a) : ∀ b ∈ q, key e ≤ key b := by
  intro b inside
  rw [top.content, Multiset.mem_cons] at inside
  cases inside with
  | inl same => rw [same]
  | inr behind => exact le_of_not_gt fun less => top.greatest b behind ((reversed e b).mpr less)

theorem exists_top_of_key_le {e : α} {q : Multiset α} (inside : e ∈ q)
    (reversed : ∀ a b : α, a < b ↔ key b < key a) (least : ∀ b ∈ q, key e ≤ key b) :
    ∃ rest, Top e q rest := by
  obtain ⟨rest, content⟩ := Multiset.exists_cons_of_mem inside
  refine ⟨rest, content, fun b behind less => ?_⟩
  have notLess := least b (content ▸ Multiset.mem_cons_of_mem behind)
  exact absurd ((reversed e b).mp less) (not_lt_of_ge notLess)

omit [LT α] in
theorem exists_least {q : Multiset α} (nonempty : q ≠ 0) (key : α → κ) :
    ∃ e ∈ q, ∀ b ∈ q, key e ≤ key b := by
  induction q using Multiset.induction_on with
  | empty => exact absurd rfl nonempty
  | cons a q ih =>
      by_cases alone : q = 0
      · refine ⟨a, Multiset.mem_cons_self a q, fun b inside => ?_⟩
        rw [alone, Multiset.mem_cons] at inside
        cases inside with
        | inl same => rw [same]
        | inr none => exact absurd none (Multiset.notMem_zero b)
      · obtain ⟨e, inside, least⟩ := ih alone
        cases le_total (key a) (key e) with
        | inl le =>
            refine ⟨a, Multiset.mem_cons_self a q, fun b within => ?_⟩
            cases Multiset.mem_cons.mp within with
            | inl same => rw [same]
            | inr behind => exact le.trans (least b behind)
        | inr ge =>
            refine ⟨e, Multiset.mem_cons_of_mem inside, fun b within => ?_⟩
            cases Multiset.mem_cons.mp within with
            | inl same => rwa [same]
            | inr behind => exact least b behind

/-- A queue that is not empty has a top. -/
theorem exists_top {q : Multiset α} (nonempty : q ≠ 0)
    (reversed : ∀ a b : α, a < b ↔ key b < key a) : ∃ e rest, Top e q rest := by
  obtain ⟨e, inside, least⟩ := exists_least nonempty key
  exact ⟨e, exists_top_of_key_le inside reversed least⟩

end Key

end Search
