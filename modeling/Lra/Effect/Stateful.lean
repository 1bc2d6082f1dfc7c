import Mathlib.Tactic.TypeStar

/-!
# Computations with a state that may throw

A computation that throws leaves the state as it was then. `Leads R x` says how `x` changes
the state, whether it returns or throws, and `Raises P x` which exceptions it lets out. Both
follow the way `x` is put together.
-/

namespace Effect

variable {ε σ α β : Type}

/-- The state in which a computation returned or threw. -/
def left : EStateM.Result ε σ α → σ
  | .ok _ s => s
  | .error _ s => s

/-- Catch the exceptions of one kind; nothing is returned for one that was caught. -/
def attempt (caught : ε → Bool) (x : EStateM ε σ α) : EStateM ε σ (Option α) :=
  tryCatch (some <$> x) fun e => if caught e then pure none else throw e

section Equations

variable {x : EStateM ε σ α} {f : α → EStateM ε σ β} {s t : σ} {a : α} {e : ε}

theorem bind_of_ok (h : x s = .ok a t) : (x >>= f) s = f a t := by
  change EStateM.bind x f s = _
  rw [EStateM.bind, h]

theorem bind_of_error (h : x s = .error e t) : (x >>= f) s = .error e t := by
  change EStateM.bind x f s = _
  rw [EStateM.bind, h]

theorem get_bind (f : σ → EStateM ε σ β) (s : σ) :
    ((get : EStateM ε σ σ) >>= f) s = f s s := bind_of_ok rfl

theorem attempt_of_ok {caught : ε → Bool} (h : x s = .ok a t) :
    attempt caught x s = .ok (some a) t := by
  change EStateM.tryCatch (EStateM.map some x) _ s = _
  delta EStateM.tryCatch
  rw [EStateM.map, h]

theorem attempt_of_error {caught : ε → Bool} (h : x s = .error e t) :
    attempt caught x s = if caught e then .ok none t else .error e t := by
  change EStateM.tryCatch (EStateM.map some x) _ s = _
  delta EStateM.tryCatch
  rw [EStateM.map, h]
  change (if caught e then pure none else throw e : EStateM ε σ (Option α)) t = _
  split <;> rfl

end Equations

/-! ### Changes of the state -/

/-- Every start is related to the state in which the computation ends. -/
def Leads (R : σ → σ → Prop) (x : EStateM ε σ α) : Prop := ∀ s, R s (left (x s))

section Leads

variable {R : σ → σ → Prop} (refl : ∀ s, R s s) (trans : ∀ s t u, R s t → R t u → R s u)
variable {x : EStateM ε σ α} {f : α → EStateM ε σ β}

include refl in
theorem leads_pure (a : α) : Leads R (pure a : EStateM ε σ α) := refl

include refl in
theorem leads_get : Leads R (get : EStateM ε σ σ) := refl

include refl in
theorem leads_throw (e : ε) : Leads R (throw e : EStateM ε σ α) := refl

theorem leads_modify {g : σ → σ} (h : ∀ s, R s (g s)) :
    Leads R (modify g : EStateM ε σ PUnit) := h

include trans in
theorem Leads.bind (hx : Leads R x) (hf : ∀ a, Leads R (f a)) : Leads R (x >>= f) := by
  intro s
  have first := hx s
  cases run : x s with
  | ok a t =>
      rw [run] at first
      rw [bind_of_ok run]
      exact trans _ _ _ first (hf a t)
  | error e t =>
      rw [run] at first
      rw [bind_of_error run]
      exact first

theorem Leads.attempt {caught : ε → Bool} (hx : Leads R x) : Leads R (attempt caught x) := by
  intro s
  have ends := hx s
  cases run : x s with
  | ok a t =>
      rw [run] at ends
      rw [attempt_of_ok run]
      exact ends
  | error e t =>
      rw [run] at ends
      rw [attempt_of_error run]
      split <;> exact ends

end Leads

/-! ### Exceptions -/

/-- Only exceptions that satisfy `P` are let out. -/
def Raises (P : ε → Prop) (x : EStateM ε σ α) : Prop := ∀ s e t, x s = .error e t → P e

section Raises

variable {P : ε → Prop} {x : EStateM ε σ α} {f : α → EStateM ε σ β}

theorem raises_pure (a : α) : Raises P (pure a : EStateM ε σ α) := by
  intro s e t h
  cases h

theorem raises_modify (g : σ → σ) : Raises P (modify g : EStateM ε σ PUnit) := by
  intro s e t h
  cases h

theorem Raises.bind (hx : Raises P x) (hf : ∀ a, Raises P (f a)) : Raises P (x >>= f) := by
  intro s e t h
  cases run : x s with
  | ok a u =>
      rw [bind_of_ok run] at h
      exact hf a u e t h
  | error e' u =>
      rw [bind_of_error run] at h
      cases h
      exact hx s e t run

theorem Raises.attempt {caught : ε → Bool} (hx : Raises (fun e => caught e = false → P e) x) :
    Raises P (attempt caught x) := by
  intro s e t h
  cases run : x s with
  | ok a u =>
      rw [attempt_of_ok run] at h
      cases h
  | error e' u =>
      rw [attempt_of_error run] at h
      split at h
      · cases h
      · next notCaught =>
          cases h
          exact hx s e t run (Bool.eq_false_iff.mpr notCaught)

end Raises

end Effect
