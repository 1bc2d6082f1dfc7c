import Mathlib.Data.List.TakeWhile

/-!
# Records ended by a separator

A sequence is taken apart at a separator. A record is what comes before the next separator,
or before the end; behind a last separator no further record begins.
-/

namespace Text

variable {α : Type} [DecidableEq α]

/-- The first record. -/
def upTo (sep : α) (xs : List α) : List α := xs.takeWhile fun x => x ≠ sep

/-- What follows the first record and its separator. -/
def after (sep : α) (xs : List α) : List α := (xs.dropWhile fun x => x ≠ sep).tail

/-- All records. -/
def records (sep : α) (xs : List α) : List (List α) :=
  if (xs.splitOn sep).getLast? = some [] then (xs.splitOn sep).dropLast else xs.splitOn sep

section Records

variable {sep : α} {xs r rest : List α}

@[simp] theorem records_nil : records sep [] = [] := by
  simp [records, List.splitOn_nil]

/-- The last record may lack its separator. -/
theorem records_of_not_mem (some : xs ≠ []) (none : sep ∉ xs) : records sep xs = [xs] := by
  simp [records, List.splitOn_eq_singleton none, some]

theorem records_append_cons (none : sep ∉ r) :
    records sep (r ++ sep :: rest) = r :: records sep rest := by
  have parts := List.splitOn_append_cons_self_of_not_mem none rest
  have others := List.splitOn_ne_nil sep rest
  simp only [records, parts, List.getLast?_cons_of_ne_nil others]
  split
  · rw [List.dropLast_cons_of_ne_nil others]
  · rfl

/-- A sequence that is written record by record is taken apart again. -/
theorem records_flatMap {β : Type} {record : β → List α} {items : List β}
    (none : ∀ item ∈ items, sep ∉ record item) :
    records sep (items.flatMap fun item => record item ++ [sep]) = items.map record := by
  induction items with
  | nil => simp
  | cons item items ih =>
      rw [List.flatMap_cons, List.append_assoc, List.singleton_append,
        records_append_cons (none item List.mem_cons_self),
        ih fun later mem => none later (List.mem_cons_of_mem _ mem), List.map_cons]

/-! ### The first one -/

theorem sep_not_mem_upTo (sep : α) (xs : List α) : sep ∉ upTo sep xs := by
  intro mem
  simpa using List.mem_takeWhile_imp mem

theorem upTo_of_not_mem (none : sep ∉ xs) : upTo sep xs = xs :=
  List.takeWhile_eq_self_iff.mpr fun x mem => by
    simp only [decide_eq_true_eq]
    exact fun same => none (same ▸ mem)

theorem dropWhile_of_not_mem (none : sep ∉ xs) : xs.dropWhile (fun x => x ≠ sep) = [] :=
  List.dropWhile_eq_nil_iff.mpr fun x mem => by
    simp only [decide_eq_true_eq]
    exact fun same => none (same ▸ mem)

theorem dropWhile_append_cons (none : sep ∉ r) :
    (r ++ sep :: rest).dropWhile (fun x => x ≠ sep) = sep :: rest := by
  rw [List.dropWhile_append_of_pos fun x mem => ?_]
  · simp
  · simp only [decide_eq_true_eq]
    exact fun same => none (same ▸ mem)

theorem after_of_not_mem (none : sep ∉ xs) : after sep xs = [] := by
  rw [after, dropWhile_of_not_mem none, List.tail_nil]

/-- A front without a separator belongs to the first record. -/
theorem upTo_append (none : sep ∉ r) : upTo sep (r ++ rest) = r ++ upTo sep rest :=
  List.takeWhile_append_of_pos fun x mem => by
    simp only [decide_eq_true_eq]
    exact fun same => none (same ▸ mem)

theorem upTo_append_cons (none : sep ∉ r) : upTo sep (r ++ sep :: rest) = r := by
  rw [upTo_append none]
  simp [upTo]

theorem after_append_cons (none : sep ∉ r) : after sep (r ++ sep :: rest) = rest := by
  rw [after, dropWhile_append_cons none, List.tail_cons]

/-- A sequence with a separator begins with a record that has its own. -/
theorem eq_upTo_append (mem : sep ∈ xs) : xs = upTo sep xs ++ sep :: after sep xs := by
  obtain ⟨r, rest, rfl, none⟩ := List.eq_append_cons_of_mem mem
  rw [upTo_append_cons none, after_append_cons none]

theorem records_of_ne_nil (some : xs ≠ []) :
    records sep xs = upTo sep xs :: records sep (after sep xs) := by
  by_cases mem : sep ∈ xs
  · have first : records sep (upTo sep xs ++ sep :: after sep xs)
        = upTo sep xs :: records sep (after sep xs) :=
      records_append_cons (sep_not_mem_upTo sep xs)
    rwa [← eq_upTo_append mem] at first
  · rw [records_of_not_mem some mem, upTo_of_not_mem mem, after_of_not_mem mem, records_nil]

/-- What follows a record is shorter. -/
theorem length_after_lt (some : xs ≠ []) : (after sep xs).length < xs.length := by
  by_cases mem : sep ∈ xs
  · have parts := congrArg List.length (eq_upTo_append mem)
    rw [List.length_append, List.length_cons] at parts
    omega
  · rw [after_of_not_mem mem]
    exact List.length_pos_iff.mpr some

/-- Each record has at least an element or a separator of its own. -/
theorem length_records_le (sep : α) (xs : List α) : (records sep xs).length ≤ xs.length := by
  induction h : xs.length using Nat.strong_induction_on generalizing xs with
  | _ n ih =>
      subst h
      by_cases none : xs = []
      · simp [none]
      · rw [records_of_ne_nil none, List.length_cons]
        have shorter : (after sep xs).length < xs.length := length_after_lt none
        have others := ih _ shorter (after sep xs) rfl
        omega

end Records

end Text
