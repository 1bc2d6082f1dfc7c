import Mathlib.Data.List.Basic

/-!
# Lines of a growing text

A text is a sequence of terminated lines and what follows the last of them, the cut line. As
the text grows, the terminated lines stay and new ones follow; the cut line does not stay.
-/

namespace Text

abbrev Line := List Char

/-- Put a character in front of the first line, or of the cut one if there is no other. -/
def extend (c : Char) : List Line × Line → List Line × Line
  | ([], rest) => ([], c :: rest)
  | (line :: lines, rest) => ((c :: line) :: lines, rest)

/-- The terminated lines, with their line ends, and the cut line. -/
def split : List Char → List Line × Line
  | [] => ([], [])
  | c :: cs =>
    if c = '\n' then (['\n'] :: (split cs).1, (split cs).2)
    else extend c (split cs)

def terminated (cs : List Char) : List Line := (split cs).1

def cut (cs : List Char) : Line := (split cs).2

/-- What a reader of lines gets: a cut line counts as a line as soon as it has begun. -/
def readlines (cs : List Char) : List Line :=
  terminated cs ++ if cut cs = [] then [] else [cut cs]

/-- Line ends of any convention become line feeds; `cr` says whether a carriage return has
just been read, of which a line feed is a part. -/
def translate : Bool → List Char → List Char
  | _, [] => []
  | cr, c :: cs =>
    if c = '\r' then '\n' :: translate true cs
    else if cr ∧ c = '\n' then translate false cs
    else c :: translate false cs

def universalNewlines (cs : List Char) : List Char := translate false cs

/-! ### One character in front -/

section Cons

variable {c : Char} {cs : List Char} {line : Line} {lines : List Line}

theorem terminated_newline (cs : List Char) :
    terminated ('\n' :: cs) = ['\n'] :: terminated cs := rfl

theorem cut_newline (cs : List Char) : cut ('\n' :: cs) = cut cs := rfl

theorem split_other (other : c ≠ '\n') : split (c :: cs) = extend c (terminated cs, cut cs) :=
  if_neg other

/-- The text has no line end yet. -/
theorem terminated_of_nil (other : c ≠ '\n') (none : terminated cs = []) :
    terminated (c :: cs) = [] := by
  rw [terminated, split_other other, none]
  rfl

theorem cut_of_nil (other : c ≠ '\n') (none : terminated cs = []) :
    cut (c :: cs) = c :: cut cs := by
  rw [cut, split_other other, none]
  rfl

theorem terminated_of_cons (other : c ≠ '\n') (some : terminated cs = line :: lines) :
    terminated (c :: cs) = (c :: line) :: lines := by
  rw [terminated, split_other other, some]
  rfl

theorem cut_of_cons (other : c ≠ '\n') (some : terminated cs = line :: lines) :
    cut (c :: cs) = cut cs := by
  rw [cut, split_other other, some]
  rfl

end Cons

/-! ### Growth -/

/-- What follows a text goes on with its cut line. -/
theorem terminated_append (p q : List Char) :
    terminated (p ++ q) = terminated p ++ terminated (cut p ++ q) := by
  induction p with
  | nil => rfl
  | cons c p ih =>
    rw [List.cons_append]
    by_cases newline : c = '\n'
    · subst newline
      rw [terminated_newline, terminated_newline, cut_newline, ih, List.cons_append]
    · cases hp : terminated p with
      | nil =>
        rw [hp, List.nil_append] at ih
        rw [terminated_of_nil newline hp, cut_of_nil newline hp, List.nil_append,
          List.cons_append]
        cases hq : terminated (cut p ++ q) with
        | nil => rw [terminated_of_nil newline hq, terminated_of_nil newline (ih.trans hq)]
        | cons => rw [terminated_of_cons newline hq, terminated_of_cons newline (ih.trans hq)]
      | cons line lines =>
        rw [hp, List.cons_append] at ih
        rw [terminated_of_cons newline hp, cut_of_cons newline hp,
          terminated_of_cons newline ih, List.cons_append]

/-- A terminated line stays. -/
theorem terminated_mono {p q : List Char} (h : p <+: q) : terminated p <+: terminated q := by
  obtain ⟨rest, rfl⟩ := h
  exact ⟨_, (terminated_append p rest).symm⟩

/-- A terminated line ends with its line end. -/
theorem getLast?_of_mem_terminated {cs : List Char} {line : Line} (h : line ∈ terminated cs) :
    line.getLast? = some '\n' := by
  induction cs generalizing line with
  | nil => cases h
  | cons c cs ih =>
    by_cases newline : c = '\n'
    · subst newline
      rw [terminated_newline, List.mem_cons] at h
      obtain rfl | later := h
      · rfl
      · exact ih later
    · cases hs : terminated cs with
      | nil =>
        rw [terminated_of_nil newline hs] at h
        cases h
      | cons first others =>
        rw [terminated_of_cons newline hs, List.mem_cons] at h
        obtain rfl | later := h
        · rw [List.getLast?_cons, ih (hs ▸ List.mem_cons_self)]
          rfl
        · exact ih (hs ▸ List.mem_cons_of_mem _ later)

/-- A cut line has no line end. -/
theorem not_mem_cut (cs : List Char) : '\n' ∉ cut cs := by
  induction cs with
  | nil => exact List.not_mem_nil
  | cons c cs ih =>
    by_cases newline : c = '\n'
    · subst newline
      exact ih
    · cases hs : terminated cs with
      | nil =>
        rw [cut_of_nil newline hs, List.mem_cons]
        rintro (rfl | later)
        · exact newline rfl
        · exact ih later
      | cons first others =>
        rw [cut_of_cons newline hs]
        exact ih

theorem cut_not_mem_terminated (p q : List Char) : cut p ∉ terminated q := by
  intro mem
  have last := getLast?_of_mem_terminated mem
  exact not_mem_cut p (List.mem_of_getLast? last)

theorem translate_mono (cr : Bool) (p rest : List Char) :
    translate cr p <+: translate cr (p ++ rest) := by
  induction p generalizing cr with
  | nil => exact List.nil_prefix
  | cons c p ih =>
    rw [List.cons_append, translate, translate]
    split
    · exact List.cons_prefix_cons.2 ⟨rfl, ih true⟩
    · split
      · exact ih false
      · exact List.cons_prefix_cons.2 ⟨rfl, ih false⟩

/-- A carriage return at the end of what is read so far is translated as it would be later. -/
theorem universalNewlines_mono {p q : List Char} (h : p <+: q) :
    universalNewlines p <+: universalNewlines q := by
  obtain ⟨rest, rfl⟩ := h
  exact translate_mono false p rest

end Text
