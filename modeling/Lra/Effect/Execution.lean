import Lra.Effect.Program

/-!
# Executions and weakest preconditions

A semantics says which answers an operation may give in a state and which states
it may leave. `Exec` records a complete execution together with every operation
it performed and the state in which it was performed. `wp` is the condition
under which every such execution ends as required; the two are proved to agree,
so a proof may compute with `wp` and a statement may speak about executions.
-/

namespace Effect

/-- `sem o s r t`: in state `s` the operation `o` may answer `r` and leave `t`. -/
abbrev Semantics (S : Signature) (σ : Type) := (o : S.Op) → σ → S.Res o → σ → Prop

/-- A deterministic, total semantics. -/
abbrev Handler (S : Signature) (σ : Type) := (o : S.Op) → σ → S.Res o × σ

variable {S T : Signature} {σ α β : Type}

/-- A complete execution, with each performed operation and its entry state. -/
inductive Exec (sem : Semantics S σ) : Program S α → σ → List (S.Op × σ) → α → σ → Prop where
  | ret (a s) : Exec sem (.ret a) s [] a s
  | op {o next s r t tr a u} : sem o s r t → Exec sem (next r) t tr a u →
      Exec sem (.op o next) s ((o, s) :: tr) a u

/-- What one semantics allows, a weaker one allows as well. -/
theorem Exec.mono {sem sem' : Semantics S σ} {p : Program S α} {s t : σ}
    {tr : List (S.Op × σ)} {a : α} (run : Exec sem p s tr a t)
    (le : ∀ {o s r t}, sem o s r t → sem' o s r t) : Exec sem' p s tr a t := by
  induction run with
  | ret a s => exact .ret a s
  | op answer _ ih => exact .op (le answer) ih

/-- An execution of a composition is one of its first part and one of the rest. -/
theorem Exec.of_bind {sem : Semantics S σ} {p : Program S α} {f : α → Program S β} {s u : σ}
    {tr : List (S.Op × σ)} {b : β} (run : Exec sem (p >>= f) s tr b u) :
    ∃ tr₁ a t tr₂, Exec sem p s tr₁ a t ∧ Exec sem (f a) t tr₂ b u ∧ tr = tr₁ ++ tr₂ := by
  induction p generalizing s tr with
  | ret a => exact ⟨[], a, s, tr, .ret a s, run, rfl⟩
  | op o next ih =>
    cases run with
    | op answer rest =>
      obtain ⟨tr₁, a, t, tr₂, first, second, same⟩ := ih _ rest
      exact ⟨_, a, t, tr₂, .op answer first, second, congrArg (_ :: ·) same⟩

/-! ### Executions whose trace does not matter -/

theorem exists_exec_ret {sem : Semantics S σ} {a b : α} {s t : σ} :
    (∃ tr, Exec sem (.ret a) s tr b t) ↔ b = a ∧ t = s := by
  constructor
  · intro ⟨tr, run⟩
    cases run
    exact ⟨rfl, rfl⟩
  · intro ⟨same, stays⟩
    subst same stays
    exact ⟨[], .ret b t⟩

theorem exists_exec_op {sem : Semantics S σ} {o : S.Op} {next : S.Res o → Program S α} {a : α}
    {s u : σ} :
    (∃ tr, Exec sem (.op o next) s tr a u)
      ↔ ∃ r t, sem o s r t ∧ ∃ tr, Exec sem (next r) t tr a u := by
  constructor
  · intro ⟨tr, run⟩
    cases run with
    | op answer rest => exact ⟨_, _, answer, _, rest⟩
  · intro ⟨r, t, answer, tr, rest⟩
    exact ⟨_, .op answer rest⟩

/-- An operation with exactly one outcome. -/
theorem exists_exec_op_of {sem : Semantics S σ} {o : S.Op} {next : S.Res o → Program S α}
    {a : α} {s t u : σ} {r : S.Res o} (outcome : ∀ r' t', sem o s r' t' ↔ r' = r ∧ t' = t) :
    (∃ tr, Exec sem (.op o next) s tr a u) ↔ ∃ tr, Exec sem (next r) t tr a u := by
  rw [exists_exec_op]
  constructor
  · intro ⟨r', t', answer, rest⟩
    obtain ⟨rfl, rfl⟩ := (outcome r' t').1 answer
    exact rest
  · intro rest
    exact ⟨r, t, (outcome r t).2 ⟨rfl, rfl⟩, rest⟩

namespace Program

/-- Every execution of `p` from `s` ends with a result and a state satisfying `Q`. -/
def wp (sem : Semantics S σ) : Program S α → (α → σ → Prop) → σ → Prop
  | .ret a, Q, s => Q a s
  | .op o next, Q, s => ∀ r t, sem o s r t → (next r).wp sem Q t

section Wp

variable {sem : Semantics S σ} {p : Program S α} {Q Q' : α → σ → Prop} {s : σ}

@[simp] theorem wp_ret (a : α) : (Program.ret a : Program S α).wp sem Q s ↔ Q a s := Iff.rfl

theorem wp_bind (p : Program S α) (f : α → Program S β) (Q : β → σ → Prop) (s : σ) :
    (p >>= f).wp sem Q s ↔ p.wp sem (fun a t => (f a).wp sem Q t) s := by
  induction p generalizing s with
  | ret a => rfl
  | op o next ih =>
      exact forall_congr' fun r => forall_congr' fun t => imp_congr_right fun _ => ih r t

theorem wp_mono (h : p.wp sem Q s) (post : ∀ a t, Q a t → Q' a t) : p.wp sem Q' s := by
  induction p generalizing s with
  | ret a => exact post a s h
  | op o next ih => exact fun r t answer => ih r (h r t answer)

theorem wp_iff_exec :
    p.wp sem Q s ↔ ∀ tr a t, Exec sem p s tr a t → Q a t := by
  constructor
  · intro h tr a t run
    induction run with
    | ret => exact h
    | op answer _ ih => exact ih (h _ _ answer)
  · intro h
    induction p generalizing s with
    | ret a => exact h [] a s (.ret a s)
    | op o next ih => exact fun r t answer => ih r fun tr a u run => h _ a u (.op answer run)

/-- The form in which a weakest precondition is used on a given execution. -/
theorem wp.of_exec (h : p.wp sem Q s) {tr : List (S.Op × σ)} {a : α} {t : σ}
    (run : Exec sem p s tr a t) : Q a t :=
  wp_iff_exec.mp h tr a t run

end Wp

/-- Like `wp`, and in addition no execution gets stuck before its end. -/
def twp (sem : Semantics S σ) : Program S α → (α → σ → Prop) → σ → Prop
  | .ret a, Q, s => Q a s
  | .op o next, Q, s =>
    (∃ r t, sem o s r t) ∧ ∀ r t, sem o s r t → (next r).twp sem Q t

section Twp

variable {sem : Semantics S σ} {p : Program S α} {Q Q' : α → σ → Prop} {s : σ}

@[simp] theorem twp_ret (a : α) : (Program.ret a : Program S α).twp sem Q s ↔ Q a s := Iff.rfl

theorem twp_bind (p : Program S α) (f : α → Program S β) (Q : β → σ → Prop) (s : σ) :
    (p >>= f).twp sem Q s ↔ p.twp sem (fun a t => (f a).twp sem Q t) s := by
  induction p generalizing s with
  | ret a => rfl
  | op o next ih =>
      exact and_congr_right fun _ =>
        forall_congr' fun r => forall_congr' fun t => imp_congr_right fun _ => ih r t

theorem twp_mono (h : p.twp sem Q s) (post : ∀ a t, Q a t → Q' a t) : p.twp sem Q' s := by
  induction p generalizing s with
  | ret a => exact post a s h
  | op o next ih => exact ⟨h.1, fun r t answer => ih r (h.2 r t answer)⟩

/-- An operation with exactly one outcome. -/
theorem twp_op_of {o : S.Op} {next : S.Res o → Program S α} {r : S.Res o} {t : σ}
    (outcome : ∀ r' t', sem o s r' t' ↔ r' = r ∧ t' = t) (rest : (next r).twp sem Q t) :
    (Program.op o next).twp sem Q s := by
  refine ⟨⟨r, t, (outcome r t).mpr ⟨rfl, rfl⟩⟩, fun r' t' answer => ?_⟩
  obtain ⟨rfl, rfl⟩ := (outcome r' t').mp answer
  exact rest

theorem twp.wp (h : p.twp sem Q s) : p.wp sem Q s := by
  induction p generalizing s with
  | ret a => exact h
  | op o next ih => exact fun r t answer => ih r (h.2 r t answer)

theorem twp.exists_exec (h : p.twp sem Q s) : ∃ tr a t, Exec sem p s tr a t ∧ Q a t := by
  induction p generalizing s with
  | ret a => exact ⟨[], a, s, .ret a s, h⟩
  | op o next ih =>
      obtain ⟨⟨r, t, answer⟩, rest⟩ := h
      obtain ⟨tr, a, u, run, post⟩ := ih r (rest r t answer)
      exact ⟨_, a, u, .op answer run, post⟩

end Twp

/-! ### Deterministic runs -/

/-- The result and final state of a program under a deterministic handler. -/
def run (h : Handler S σ) : Program S α → σ → α × σ
  | .ret a, s => (a, s)
  | .op o next, s => (next (h o s).1).run h (h o s).2

@[simp] theorem run_ret (h : Handler S σ) (a : α) (s : σ) :
    (Program.ret a : Program S α).run h s = (a, s) := rfl

@[simp] theorem run_op (h : Handler S σ) (o : S.Op) (next : S.Res o → Program S α) (s : σ) :
    (Program.op o next).run h s = (next (h o s).1).run h (h o s).2 := rfl

theorem run_bind (h : Handler S σ) (p : Program S α) (f : α → Program S β) (s : σ) :
    (p >>= f).run h s = (f (p.run h s).1).run h (p.run h s).2 := by
  induction p generalizing s with
  | ret a => rfl
  | op o next ih => exact ih (h o s).1 (h o s).2

/-- The operations of a deterministic run, each with the state it was performed in. -/
def trace (h : Handler S σ) : Program S α → σ → List (S.Op × σ)
  | .ret _, _ => []
  | .op o next, s => (o, s) :: (next (h o s).1).trace h (h o s).2

theorem trace_bind (h : Handler S σ) (p : Program S α) (f : α → Program S β) (s : σ) :
    (p >>= f).trace h s = p.trace h s ++ (f (p.run h s).1).trace h (p.run h s).2 := by
  induction p generalizing s with
  | ret a => rfl
  | op o next ih => exact congrArg (_ :: ·) (ih (h o s).1 (h o s).2)

end Program

/-- Every step of the handler is one that the semantics allows. -/
def Handler.Within (h : Handler S σ) (sem : Semantics S σ) : Prop :=
  ∀ o s, sem o s (h o s).1 (h o s).2

/-- A deterministic run is one of the executions the semantics allows. -/
theorem Handler.Within.exec {h : Handler S σ} {sem : Semantics S σ} (within : h.Within sem)
    (p : Program S α) (s : σ) : ∃ tr, Exec sem p s tr (p.run h s).1 (p.run h s).2 := by
  induction p generalizing s with
  | ret a => exact ⟨[], .ret a s⟩
  | op o next ih =>
      obtain ⟨tr, rest⟩ := ih (h o s).1 (h o s).2
      exact ⟨_, .op (within o s) rest⟩

/-! ### Interpreting one interface in another -/

/-- Replace every operation of `p` by the program that implements it. -/
def Program.interp (f : (o : S.Op) → Program T (S.Res o)) : Program S α → Program T α
  | .ret a => .ret a
  | .op o next => f o >>= fun r => (next r).interp f

/-- The operations of `S` as indivisible steps that run their implementation to its end. -/
def Semantics.along (sem : Semantics T σ) (f : (o : S.Op) → Program T (S.Res o)) :
    Semantics S σ :=
  fun o s r t => ∃ tr, Exec sem (f o) s tr r t

/-- The deterministic counterpart of `Semantics.along`. -/
def Handler.along (h : Handler T σ) (f : (o : S.Op) → Program T (S.Res o)) : Handler S σ :=
  fun o s => (f o).run h s

theorem Handler.Within.along {h : Handler T σ} {sem : Semantics T σ} (within : h.Within sem)
    (f : (o : S.Op) → Program T (S.Res o)) : (h.along f).Within (sem.along f) :=
  fun o s => within.exec (f o) s

end Effect
