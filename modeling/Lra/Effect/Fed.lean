import Lra.Effect.Stateful

/-!
# Computations that are fed

A computation takes items off what it was given, and stops where it needs another one. `Fed`
says that it does not look further than that: with more items behind it does the same, and
where it had to stop it takes the next one and goes on from what it had done. So it makes no
difference whether the items are all there or come one at a time.
-/

namespace Effect

/-- How items are given, when none is left, which exception asks for one, and when a state
comes after another one. -/
structure Feeding (ε σ ι : Type) where
  feed : List ι → σ → σ
  Empty : σ → Prop
  wants : ε → Bool
  After : σ → σ → Prop
  refl : ∀ s, After s s
  trans : ∀ s t u, After s t → After t u → After s u

variable {ε σ ι α β : Type}

structure Fed (F : Feeding ε σ ι) (x : EStateM ε σ α) : Prop where
  leads : Leads F.After x
  empty : Leads (fun s t => F.Empty s → F.Empty t) x
  ok : ∀ {s a t} more, x s = .ok a t → x (F.feed more s) = .ok a (F.feed more t)
  error : ∀ {s e t} more, x s = .error e t → F.wants e = false →
    x (F.feed more s) = .error e (F.feed more t)
  goesOn : ∀ {s e t} more, x s = .error e t → F.wants e = true →
    F.After t (left (x (F.feed more s)))
  taken : ∀ {s e t} item, x s = .error e t → F.wants e = true →
    F.Empty (left (x (F.feed [item] s)))

section Rules

variable {F : Feeding ε σ ι} {x : EStateM ε σ α} {f : α → EStateM ε σ β}

/-- A computation that always returns. -/
theorem fed_of_ok (value : σ → α) (next : σ → σ) (run : ∀ s, x s = .ok (value s) (next s))
    (after : ∀ s, F.After s (next s)) (empty : ∀ s, F.Empty s → F.Empty (next s))
    (same : ∀ more s, value (F.feed more s) = value s)
    (feed : ∀ more s, next (F.feed more s) = F.feed more (next s)) : Fed F x where
  leads s := by
    rw [run]
    exact after s
  empty s := by
    rw [run]
    exact empty s
  ok more returned := by
    rw [run] at returned
    cases returned
    rw [run, same, feed]
  error more thrown := by
    rw [run] at thrown
    cases thrown
  goesOn more thrown := by
    rw [run] at thrown
    cases thrown
  taken item thrown := by
    rw [run] at thrown
    cases thrown

theorem fed_pure (a : α) : Fed F (pure a : EStateM ε σ α) :=
  fed_of_ok (fun _ => a) id (fun _ => rfl) F.refl (fun _ none => none) (fun _ _ => rfl)
    fun _ _ => rfl

theorem fed_modify {g : σ → σ} (after : ∀ s, F.After s (g s))
    (empty : ∀ s, F.Empty s → F.Empty (g s))
    (feed : ∀ more s, g (F.feed more s) = F.feed more (g s)) :
    Fed F (modify g : EStateM ε σ PUnit) :=
  fed_of_ok (fun _ => ⟨⟩) g (fun _ => rfl) after empty (fun _ _ => rfl) feed

theorem fed_throw {e : ε} (other : F.wants e = false) : Fed F (throw e : EStateM ε σ α) where
  leads := leads_throw F.refl e
  empty := leads_throw (fun _ none => none) e
  ok _ returned := nomatch returned
  error more thrown _ := by
    cases thrown
    rfl
  goesOn more thrown wants := by
    cases thrown
    rw [other] at wants
    cases wants
  taken item thrown wants := by
    cases thrown
    rw [other] at wants
    cases wants

/-- What follows a look at the state does not depend on the items. -/
theorem fed_get_bind {k : σ → EStateM ε σ β} (same : ∀ more s, k (F.feed more s) = k s)
    (fed : ∀ s, Fed F (k s)) : Fed F ((get : EStateM ε σ σ) >>= k) where
  leads s := (fed s).leads s
  empty s := (fed s).empty s
  ok {s a t} more returned := by
    rw [get_bind] at returned ⊢
    rw [same]
    exact (fed s).ok more returned
  error {s e t} more thrown other := by
    rw [get_bind] at thrown ⊢
    rw [same]
    exact (fed s).error more thrown other
  goesOn {s e t} more thrown wants := by
    rw [get_bind] at thrown ⊢
    rw [same]
    exact (fed s).goesOn more thrown wants
  taken {s e t} item thrown wants := by
    rw [get_bind] at thrown ⊢
    rw [same]
    exact (fed s).taken item thrown wants

theorem Fed.bind (hx : Fed F x) (hf : ∀ a, Fed F (f a)) : Fed F (x >>= f) where
  leads := hx.leads.bind F.trans fun a => (hf a).leads
  empty := hx.empty.bind (fun _ _ _ first rest none => rest (first none)) fun a => (hf a).empty
  ok {s b v} more returned := by
    cases run : x s with
    | ok a t =>
        rw [bind_of_ok run] at returned
        rw [bind_of_ok (hx.ok more run)]
        exact (hf a).ok more returned
    | error e t =>
        rw [bind_of_error run] at returned
        cases returned
  error {s e v} more thrown other := by
    cases run : x s with
    | ok a t =>
        rw [bind_of_ok run] at thrown
        rw [bind_of_ok (hx.ok more run)]
        exact (hf a).error more thrown other
    | error e' t =>
        rw [bind_of_error run] at thrown
        cases thrown
        exact bind_of_error (hx.error more run other)
  goesOn {s e v} more thrown wants := by
    cases run : x s with
    | ok a t =>
        rw [bind_of_ok run] at thrown
        rw [bind_of_ok (hx.ok more run)]
        exact (hf a).goesOn more thrown wants
    | error e' t =>
        rw [bind_of_error run] at thrown
        cases thrown
        have first := hx.goesOn more run wants
        cases again : x (F.feed more s) with
        | ok a u =>
            rw [again] at first
            rw [bind_of_ok again]
            exact F.trans _ _ _ first ((hf a).leads u)
        | error e' u =>
            rw [again] at first
            rw [bind_of_error again]
            exact first
  taken {s e v} item thrown wants := by
    cases run : x s with
    | ok a t =>
        rw [bind_of_ok run] at thrown
        rw [bind_of_ok (hx.ok [item] run)]
        exact (hf a).taken item thrown wants
    | error e' t =>
        rw [bind_of_error run] at thrown
        cases thrown
        have first := hx.taken item run wants
        cases again : x (F.feed [item] s) with
        | ok a u =>
            rw [again] at first
            rw [bind_of_ok again]
            exact (hf a).empty u first
        | error e' u =>
            rw [again] at first
            rw [bind_of_error again]
            exact first

/-- Catching changes what is handed out, not the state. -/
theorem left_attempt (caught : ε → Bool) (x : EStateM ε σ α) (s : σ) :
    left (attempt caught x s) = left (x s) := by
  cases run : x s with
  | ok a t => rw [attempt_of_ok run, left, left]
  | error e t =>
      rw [attempt_of_error run]
      split <;> rfl

/-- An exception that asks for an item is not caught. -/
theorem Fed.attempt {caught : ε → Bool} (hx : Fed F x)
    (lets : ∀ e, F.wants e = true → caught e = false) : Fed F (attempt caught x) where
  leads := hx.leads.attempt
  empty := hx.empty.attempt
  ok {s o t} more returned := by
    cases run : x s with
    | ok a u =>
        rw [attempt_of_ok run] at returned
        cases returned
        exact attempt_of_ok (hx.ok more run)
    | error e u =>
        rw [attempt_of_error run] at returned
        split at returned
        · next isCaught =>
            cases returned
            have other : F.wants e = false := Bool.eq_false_iff.mpr fun wants => by
              rw [lets e wants] at isCaught
              cases isCaught
            rw [attempt_of_error (hx.error more run other), if_pos isCaught]
        · cases returned
  error {s e t} more thrown other := by
    cases run : x s with
    | ok a u =>
        rw [attempt_of_ok run] at thrown
        cases thrown
    | error e' u =>
        rw [attempt_of_error run] at thrown
        split at thrown
        · cases thrown
        · next notCaught =>
            cases thrown
            rw [attempt_of_error (hx.error more run other), if_neg notCaught]
  goesOn {s e t} more thrown wants := by
    rw [left_attempt]
    cases run : x s with
    | ok a u =>
        rw [attempt_of_ok run] at thrown
        cases thrown
    | error e' u =>
        rw [attempt_of_error run] at thrown
        split at thrown
        · cases thrown
        · cases thrown
          exact hx.goesOn more run wants
  taken {s e t} item thrown wants := by
    rw [left_attempt]
    cases run : x s with
    | ok a u =>
        rw [attempt_of_ok run] at thrown
        cases thrown
    | error e' u =>
        rw [attempt_of_error run] at thrown
        split at thrown
        · cases thrown
        · cases thrown
          exact hx.taken item run wants

end Rules

end Effect
