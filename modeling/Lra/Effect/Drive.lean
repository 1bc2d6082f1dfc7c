import Mathlib.Data.Nat.Notation
import Mathlib.Logic.Basic

/-!
# Executions driven by a sequence of inputs

A step takes an input and may be undefined. An invariant, which may mention the time,
excludes that; a variant that every state short of the goal sees decrease sooner or
later leads to the goal.
-/

namespace Effect

variable {σ ι : Type}

/-- The state after `n` steps, each with the input of its time. -/
def drive (step : ι → σ → Option σ) (input : Nat → ι) (s : σ) : Nat → Option σ
  | 0 => some s
  | n + 1 => do
    let t ← drive step input s n
    step (input n) t

section Drive

variable {step : ι → σ → Option σ} {input : Nat → ι} {s : σ}

theorem drive_succ {n : Nat} {t : σ} (reached : drive step input s n = some t) :
    drive step input s (n + 1) = step (input n) t := by
  rw [drive, reached]
  rfl

theorem drive_invariant {I : Nat → σ → Prop} (initial : I 0 s)
    (keeps : ∀ {n t}, I n t → ∃ u, step (input n) t = some u ∧ I (n + 1) u) (n : Nat) :
    ∃ t, drive step input s n = some t ∧ I n t := by
  induction n with
  | zero => exact ⟨s, rfl, initial⟩
  | succ n ih =>
      obtain ⟨t, reached, holds⟩ := ih
      rw [drive_succ reached]
      exact keeps holds

theorem drive_preserves {I : σ → Prop} (initial : I s)
    (keeps : ∀ {n t u}, I t → step (input n) t = some u → I u) {n : Nat} {t : σ}
    (reached : drive step input s n = some t) : I t := by
  induction n generalizing t with
  | zero =>
      cases reached
      exact initial
  | succ n ih =>
      obtain ⟨u, earlier, last⟩ := Option.bind_eq_some_iff.mp reached
      exact keeps (ih earlier) last

/-- While a condition does not hold of the inputs, a state that waits for it is kept. -/
theorem drive_wait {t u : σ} {C : ι → Prop} {n k : Nat}
    (reached : drive step input s n = some t) (holds : C (input (n + k)))
    (wait : ∀ i, ¬ C i → step i t = some t) (leave : ∀ i, C i → step i t = some u) :
    ∃ m, drive step input s m = some u := by
  induction k generalizing n with
  | zero =>
      refine ⟨n + 1, ?_⟩
      rw [drive_succ reached]
      exact leave _ holds
  | succ k ih =>
      by_cases now : C (input n)
      · refine ⟨n + 1, ?_⟩
        rw [drive_succ reached]
        exact leave _ now
      · have later : n + 1 + k = n + (k + 1) := by omega
        refine ih (n := n + 1) ?_ (later ▸ holds)
        rw [drive_succ reached]
        exact wait _ now

theorem drive_variant {μ : σ → Nat} {Goal : σ → Prop}
    (advances : ∀ {n t}, drive step input s n = some t → ¬ Goal t →
      ∃ m u, drive step input s m = some u ∧ μ u < μ t) :
    ∃ n t, drive step input s n = some t ∧ Goal t := by
  have from_ : ∀ (k n : Nat) (t : σ), μ t = k → drive step input s n = some t →
      ∃ n t, drive step input s n = some t ∧ Goal t := by
    intro k
    induction k using Nat.strongRecOn with
    | ind k ih =>
        intro n t variant reached
        by_cases goal : Goal t
        · exact ⟨n, t, reached, goal⟩
        · obtain ⟨m, u, later, fewer⟩ := advances reached goal
          exact ih (μ u) (variant ▸ fewer) m u rfl later
  exact from_ (μ s) 0 s rfl rfl

end Drive

end Effect
