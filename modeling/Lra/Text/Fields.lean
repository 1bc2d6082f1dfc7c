import Lra.Text.Lines

/-!
# Lines of fields

A line is written as its fields with a separator between them, and perhaps more behind the
separator, and a line feed at the end. A text of such lines is read back line by line, and
a line field by field.
-/

namespace Text

/-! ### Lines -/

section Lines

variable {body cs : List Char}

/-- Without carriage returns nothing is translated. -/
theorem universalNewlines_of_not_mem (plain : '\r' ∉ cs) : universalNewlines cs = cs := by
  rw [universalNewlines]
  induction cs with
  | nil => rfl
  | cons c cs ih =>
      obtain ⟨first, rest⟩ := not_or.mp (mt List.mem_cons.mpr plain)
      rw [translate, if_neg (Ne.symm first), if_neg (by simp), ih rest]

/-- One terminated line is all there is. -/
theorem split_line (whole : '\n' ∉ body) : split (body ++ ['\n']) = ([body ++ ['\n']], []) := by
  induction body with
  | nil => rfl
  | cons c body ih =>
      obtain ⟨first, rest⟩ := not_or.mp (mt List.mem_cons.mpr whole)
      rw [List.cons_append, split_other (Ne.symm first), terminated, cut, ih rest]
      rfl

/-- A text that is written line by line is read line by line. -/
theorem terminated_flatMap {α : Type} {line : α → Line} {items : List α}
    (lines : ∀ item ∈ items, ∃ body, line item = body ++ ['\n'] ∧ '\n' ∉ body) :
    terminated (items.flatMap line) = items.map line := by
  induction items with
  | nil => rfl
  | cons item items ih =>
      obtain ⟨body, ends, whole⟩ := lines item List.mem_cons_self
      have first := split_line whole
      rw [← ends] at first
      have one : terminated (line item) = [line item] := congrArg Prod.fst first
      have none : cut (line item) = [] := congrArg Prod.snd first
      rw [List.flatMap_cons, terminated_append, one, none, List.nil_append,
        ih fun item later => lines item (List.mem_cons_of_mem _ later)]
      rfl

/-- Nothing of a text is lost. -/
theorem flatten_terminated_append_cut (cs : List Char) :
    (terminated cs).flatten ++ cut cs = cs := by
  induction cs with
  | nil => rfl
  | cons c cs ih =>
      by_cases newline : c = '\n'
      · subst newline
        rw [terminated_newline, cut_newline, List.flatten_cons, List.append_assoc, ih]
        rfl
      · cases some : terminated cs with
        | nil =>
            rw [some, List.flatten_nil, List.nil_append] at ih
            rw [terminated_of_nil newline some, cut_of_nil newline some, ih]
            rfl
        | cons line lines =>
            rw [some, List.flatten_cons] at ih
            rw [terminated_of_cons newline some, cut_of_cons newline some, List.flatten_cons,
              List.cons_append, List.cons_append, ih]

/-- Behind the last of the lines there is nothing. -/
theorem cut_flatMap {α : Type} {line : α → Line} {items : List α}
    (lines : ∀ item ∈ items, ∃ body, line item = body ++ ['\n'] ∧ '\n' ∉ body) :
    cut (items.flatMap line) = [] := by
  have all := flatten_terminated_append_cut (items.flatMap line)
  rw [terminated_flatMap lines, ← List.flatMap_def] at all
  exact List.append_right_eq_self.mp all

end Lines

/-! ### Fields -/

section Fields

variable {α : Type} [DecidableEq α] {sep : α}

/-- What stands behind a separator belongs to the next field. -/
theorem splitOn_intercalate_pad (pad first : List α) (rest : List (List α))
    (padding : sep ∉ pad) (apart : ∀ field ∈ first :: rest, sep ∉ field) :
    ((sep :: pad).intercalate (first :: rest)).splitOn sep = first :: rest.map (pad ++ ·) := by
  have padded : (sep :: pad).intercalate (first :: rest)
      = [sep].intercalate (first :: rest.map (pad ++ ·)) := by
    induction rest generalizing first with
    | nil => rfl
    | cons field rest ih =>
        have later := ih field fun f member => apart f (List.mem_cons_of_mem _ member)
        rw [List.intercalate_cons_cons, later, List.map_cons, List.intercalate_cons_cons]
        cases rest with
        | nil => simp
        | cons => simp
  rw [padded, List.splitOn_intercalate sep ?_ (by simp)]
  intro field member
  rcases List.mem_cons.mp member with rfl | later
  · exact apart field List.mem_cons_self
  · obtain ⟨bare, inside, rfl⟩ := List.mem_map.mp later
    rw [List.mem_append]
    exact not_or.mpr ⟨padding, apart bare (List.mem_cons_of_mem _ inside)⟩

end Fields

end Text
