import Mathlib.Data.List.Nodup

/-!
# Related pairs of a list

`pairs r l` lists every earlier element of `l` with every later one that `r` relates
it to, as often as they occur.
-/

namespace Buffer

variable {α : Type} {r : α → α → Bool}

def pairs (r : α → α → Bool) : List α → List (α × α)
  | [] => []
  | a :: rest => (rest.filter (r a)).map (fun b => (a, b)) ++ pairs r rest

/-- One more element at the end is paired with those before it. -/
theorem pairs_concat (l : List α) (x : α) :
    (pairs r (l ++ [x])).Perm (pairs r l ++ (l.filter (r · x)).map fun a => (a, x)) := by
  induction l with
  | nil => simp [pairs]
  | cons a l ih =>
      have moved := ih.append_left (((l ++ [x]).filter (r a)).map fun b => (a, b))
      refine moved.trans ?_
      simp only [pairs, List.filter_append, List.map_append, List.append_assoc]
      refine List.Perm.append_left _ ?_
      by_cases related : r a x = true
      · simp only [List.filter_cons, List.filter_nil, related, if_true, List.map_cons,
          List.map_nil, List.singleton_append]
        exact List.perm_middle.symm
      · simp [related]

theorem length_pairs_concat (l : List α) (x : α) :
    (pairs r (l ++ [x])).length = (pairs r l).length + l.countP (r · x) := by
  rw [(pairs_concat l x).length_eq, List.length_append, List.length_map,
    List.countP_eq_length_filter]

theorem length_pairs_append (l m : List α) : (pairs r l).length ≤ (pairs r (l ++ m)).length := by
  induction m generalizing l with
  | nil => simp
  | cons x m ih =>
      have rest := ih (l ++ [x])
      rw [length_pairs_concat, List.append_assoc, List.singleton_append] at rest
      omega

/-- What is listed is an earlier element with a later one. -/
theorem mem_pairs {l : List α} {a b : α} :
    (a, b) ∈ pairs r l ↔ [a, b].Sublist l ∧ r a b = true := by
  induction l with
  | nil => simp [pairs]
  | cons c l ih =>
      simp only [pairs, List.mem_append, List.mem_map, List.mem_filter, Prod.mk.injEq, ih]
      constructor
      · rintro (⟨d, ⟨inside, related⟩, rfl, rfl⟩ | ⟨sub, related⟩)
        · exact ⟨.cons_cons _ (List.singleton_sublist.mpr inside), related⟩
        · exact ⟨sub.cons _, related⟩
      · rintro ⟨sub, related⟩
        cases sub with
        | cons _ sub => exact .inr ⟨sub, related⟩
        | cons_cons _ sub =>
            exact .inl ⟨b, ⟨List.singleton_sublist.mp sub, related⟩, rfl, rfl⟩

theorem nodup_pairs {l : List α} (distinct : l.Nodup) : (pairs r l).Nodup := by
  induction l with
  | nil => exact List.nodup_nil
  | cons a l ih =>
      obtain ⟨fresh, distinct⟩ := List.nodup_cons.mp distinct
      refine List.nodup_append'.mpr ⟨?_, ih distinct, ?_⟩
      · refine (distinct.filter _).map ?_
        intro b c same
        exact (Prod.mk.inj same).2
      · intro p first second
        obtain ⟨b, _, rfl⟩ := List.mem_map.mp first
        exact fresh ((mem_pairs.mp second).1.subset (List.mem_cons_self ..))

end Buffer
