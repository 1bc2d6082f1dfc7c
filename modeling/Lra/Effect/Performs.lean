import Lra.Effect.Execution

/-!
# Which operations a program performs

`May o` asks that some answers lead the program to the operation `o`; `Must o`, that all
do. Both follow the way a program is put together. Every operation of an execution is one
the program may perform, and each one it must perform is among them.
-/

namespace Effect

variable {S : Signature} {σ α β : Type}

namespace Program

/-- Whatever it is answered, the program comes to the operation `o`. -/
def Must (o : S.Op) : Program S α → Prop
  | .ret _ => False
  | .op o' next => o' = o ∨ ∀ r, (next r).Must o

variable {o : S.Op} {p : Program S α} {f : α → Program S β}

theorem may_bind (h : (p >>= f).May o) : p.May o ∨ ∃ a, (f a).May o := by
  induction p with
  | ret a => exact .inr ⟨a, h⟩
  | op o' next ih =>
    obtain here | ⟨r, later⟩ := h
    · exact .inl (.inl here)
    · obtain first | second := ih r later
      · exact .inl (.inr ⟨r, first⟩)
      · exact .inr second

theorem Must.bind_left (h : p.Must o) (f : α → Program S β) : (p >>= f).Must o := by
  induction p with
  | ret a => exact h.elim
  | op o' next ih =>
    obtain here | later := h
    · exact .inl here
    · exact .inr fun r => ih r (later r)

theorem Must.bind_right (p : Program S α) (h : ∀ a, (f a).Must o) : (p >>= f).Must o := by
  induction p with
  | ret a => exact h a
  | op o' next ih => exact .inr ih

theorem Must.perform (o : S.Op) : (Program.perform o).Must o := .inl rfl

end Program

variable {sem : Semantics S σ} {p : Program S α} {s t : σ} {tr : List (S.Op × σ)} {a : α}

theorem Exec.may (run : Exec sem p s tr a t) : ∀ e ∈ tr, p.May e.1 := by
  induction run with
  | ret a s => exact fun e none => absurd none List.not_mem_nil
  | op answer _ ih =>
    intro e mem
    cases mem with
    | head => exact .inl rfl
    | tail _ later => exact .inr ⟨_, ih e later⟩

theorem Exec.must {o : S.Op} (run : Exec sem p s tr a t) (h : p.Must o) :
    ∃ u, (o, u) ∈ tr := by
  induction run with
  | ret a s => exact h.elim
  | op answer _ ih =>
    obtain rfl | later := h
    · exact ⟨_, .head _⟩
    · obtain ⟨u, mem⟩ := ih (later _)
      exact ⟨u, .tail _ mem⟩

end Effect
