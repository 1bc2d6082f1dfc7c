import Mathlib.Data.List.Forall2

/-!
# Computations that may throw

`Succeeds x` says that `x` returns, `Returns P x` that what it returns satisfies `P`. The
rules follow the way `x` is put together, so whether a chain of partial accessors throws is
read off accessor by accessor. Where calls fail for reasons of their own, a list says which.
-/

namespace Effect

variable {ε : Type*} {α β : Type}

/-- The computation returns. -/
def Succeeds (x : Except ε α) : Prop := ∃ a, x = .ok a

@[simp] theorem succeeds_ok (a : α) : Succeeds (.ok a : Except ε α) := ⟨a, rfl⟩

@[simp] theorem succeeds_pure (a : α) : Succeeds (pure a : Except ε α) := ⟨a, rfl⟩

@[simp] theorem not_succeeds_throw (e : ε) : ¬ Succeeds (throw e : Except ε α) := by
  intro ⟨a, h⟩
  cases h

theorem except_ok_bind (a : α) (f : α → Except ε β) : (Except.ok a >>= f) = f a := rfl

theorem except_bind_eq_ok {x : Except ε α} {f : α → Except ε β} {b : β} :
    (x >>= f) = .ok b ↔ ∃ a, x = .ok a ∧ f a = .ok b := by
  cases x with
  | error e =>
    constructor
    · intro h
      cases h
    · intro ⟨a, h, _⟩
      cases h
  | ok a =>
    constructor
    · intro h
      exact ⟨a, rfl, h⟩
    · intro ⟨a', h, hf⟩
      cases h
      exact hf

theorem succeeds_bind {x : Except ε α} {f : α → Except ε β} :
    Succeeds (x >>= f) ↔ ∃ a, x = .ok a ∧ Succeeds (f a) := by
  cases x with
  | error e =>
    constructor
    · intro ⟨b, h⟩
      cases h
    · intro ⟨a, h, _⟩
      cases h
  | ok a =>
    constructor
    · intro h
      exact ⟨a, rfl, h⟩
    · intro ⟨a', h, hf⟩
      cases h
      exact hf

/-- A chain whose first part returns `a` when `P` holds, and throws otherwise. -/
theorem succeeds_bind_iff {x : Except ε α} {f : α → Except ε β} {P : Prop} {a : α}
    (hx : Succeeds x ↔ P) (ha : P → x = .ok a) :
    Succeeds (x >>= f) ↔ P ∧ Succeeds (f a) := by
  rw [succeeds_bind]
  constructor
  · intro ⟨b, hb, hf⟩
    have hP : P := hx.1 ⟨b, hb⟩
    obtain rfl : a = b := Except.ok.inj ((ha hP).symm.trans hb)
    exact ⟨hP, hf⟩
  · intro ⟨hP, hf⟩
    exact ⟨a, ha hP, hf⟩

/-- A chain in which it does not depend on the first answer whether the rest returns. -/
theorem succeeds_bind_and {x : Except ε α} {f : α → Except ε β} {P Q : Prop}
    (hx : Succeeds x ↔ P) (hf : ∀ a, Succeeds (f a) ↔ Q) : Succeeds (x >>= f) ↔ P ∧ Q := by
  rw [succeeds_bind]
  constructor
  · intro ⟨a, ha, hfa⟩
    exact ⟨hx.1 ⟨a, ha⟩, (hf a).1 hfa⟩
  · intro ⟨hP, hQ⟩
    obtain ⟨a, ha⟩ := hx.2 hP
    exact ⟨a, ha, (hf a).2 hQ⟩

/-- A chain that ends by handing back a value. -/
theorem succeeds_bind_pure {x : Except ε α} {g : α → β} :
    Succeeds (x >>= fun a => pure (g a)) ↔ Succeeds x := by
  have hand : Succeeds (x >>= fun a => pure (g a)) ↔ Succeeds x ∧ True :=
    succeeds_bind_and Iff.rfl fun a => iff_true_intro (succeeds_pure (g a))
  rw [hand, and_true]

/-- A loop returns if every round does. -/
theorem succeeds_mapM {f : α → Except ε β} (l : List α) :
    Succeeds (l.mapM f) ↔ ∀ a ∈ l, Succeeds (f a) := by
  induction l with
  | nil => simp
  | cons a l ih =>
    rw [List.mapM_cons, List.forall_mem_cons, ← ih]
    exact succeeds_bind_and Iff.rfl fun _ => succeeds_bind_pure

theorem mapM_eq {f : α → Except ε β} {g : α → β} {l : List α} (h : ∀ a ∈ l, f a = .ok (g a)) :
    l.mapM f = .ok (l.map g) := by
  induction l with
  | nil => rfl
  | cons a l ih =>
    have rest := ih fun a' ha' => h a' (List.mem_cons_of_mem _ ha')
    rw [List.mapM_cons, h a (List.mem_cons_self ..), rest]
    rfl

theorem mapM_eq_ok_iff {f : α → Except ε β} {l : List α} {bs : List β} :
    l.mapM f = .ok bs ↔ List.Forall₂ (fun a b => f a = .ok b) l bs := by
  induction l generalizing bs with
  | nil =>
    rw [List.mapM_nil, List.forall₂_nil_left_iff]
    constructor
    · intro h
      cases h
      rfl
    · rintro rfl
      rfl
  | cons a l ih =>
    rw [List.mapM_cons, except_bind_eq_ok]
    constructor
    · intro ⟨b, first, h⟩
      obtain ⟨rest, others, h⟩ := except_bind_eq_ok.1 h
      cases h
      exact .cons first (ih.1 others)
    · intro h
      cases h with
      | cons first others => exact ⟨_, first, except_bind_eq_ok.2 ⟨_, ih.2 others, rfl⟩⟩

/-- A loop returns what each of its rounds does, or throws what the first one does that throws
anything. -/
theorem mapM_cases (f : α → Except ε β) (l : List α) :
    (∃ bs, l.mapM f = .ok bs ∧ List.Forall₂ (fun a b => f a = .ok b) l bs) ∨
      ∃ e before a rest bs, l.mapM f = .error e ∧ l = before ++ a :: rest ∧
        List.Forall₂ (fun a b => f a = .ok b) before bs ∧ f a = .error e := by
  induction l with
  | nil => exact .inl ⟨[], rfl, .nil⟩
  | cons a l ih =>
    rw [List.mapM_cons]
    cases first : f a with
    | error e => exact .inr ⟨e, [], a, l, [], rfl, rfl, .nil, first⟩
    | ok b =>
      rcases ih with ⟨bs, rest, each⟩ | ⟨e, before, a', rest, bs, thrown, rfl, each, last⟩
      · rw [rest]
        exact .inl ⟨b :: bs, rfl, .cons first each⟩
      · rw [thrown]
        exact .inr ⟨e, a :: before, a', rest, b :: bs, rfl, rfl, .cons first each, last⟩

theorem length_of_mapM {f : α → Option β} {l : List α} {bs : List β} (h : l.mapM f = some bs) :
    bs.length = l.length := by
  induction l generalizing bs with
  | nil =>
    cases h
    rfl
  | cons a l ih =>
    rw [List.mapM_cons] at h
    obtain ⟨b, _, h⟩ := Option.bind_eq_some_iff.1 h
    obtain ⟨rest, others, h⟩ := Option.bind_eq_some_iff.1 h
    cases h
    rw [List.length_cons, List.length_cons, ih others]

/-- What the computation returns, if it does, satisfies `P`. -/
def Returns (P : α → Prop) (x : Except ε α) : Prop := ∀ a, x = .ok a → P a

theorem returns_pure {P : α → Prop} {a : α} (h : P a) : Returns P (pure a : Except ε α) := by
  intro b hb
  obtain rfl : a = b := Except.ok.inj hb
  exact h

theorem returns_bind {P : β → Prop} {x : Except ε α} {f : α → Except ε β}
    (hf : ∀ a, Returns P (f a)) : Returns P (x >>= f) := by
  intro b hb
  cases x with
  | error e => cases hb
  | ok a => exact hf a b hb

/-! ### Reading until nothing is left -/

section ReadAll

variable {σ : Type}

/-- What a loop reads that goes on while `read` returns something, if `fuel` rounds suffice. -/
def readAll (read : σ → Except ε (Option (β × σ))) : Nat → σ → Option (Except ε (List β))
  | 0, _ => none
  | n + 1, s =>
    match read s with
    | .error e => some (.error e)
    | .ok none => some (.ok [])
    | .ok (some (b, s')) => (readAll read n s').map fun rest => (b :: ·) <$> rest

/-- `read` takes the items of a list off its front, each by `f`. -/
structure Reads (read : σ → Except ε (Option (β × σ))) (f : α → Except ε β)
    (R : σ → List α → Prop) : Prop where
  nil : ∀ {s}, R s [] → read s = .ok none
  error : ∀ {s a as e}, R s (a :: as) → f a = .error e → read s = .error e
  ok : ∀ {s a as b}, R s (a :: as) → f a = .ok b → ∃ s', read s = .ok (some (b, s')) ∧ R s' as

/-- The loop reads every item in its order, up to the first one that cannot be read. -/
theorem Reads.readAll_eq {read : σ → Except ε (Option (β × σ))} {f : α → Except ε β}
    {R : σ → List α → Prop} (reads : Reads read f R) {s : σ} {as : List α} (items : R s as)
    {n : Nat} (enough : as.length < n) : readAll read n s = some (as.mapM f) := by
  induction as generalizing s n with
  | nil =>
      obtain ⟨n, rfl⟩ := Nat.exists_eq_add_of_lt enough
      simp only [readAll, reads.nil items]
      rfl
  | cons a as ih =>
      obtain ⟨n, rfl⟩ := Nat.exists_eq_add_one_of_ne_zero (Nat.ne_zero_of_lt enough)
      rw [List.length_cons, Nat.add_lt_add_iff_right] at enough
      rw [List.mapM_cons]
      cases first : f a with
      | error e =>
          simp only [readAll, reads.error items first]
          rfl
      | ok b =>
          obtain ⟨s', read, items'⟩ := reads.ok items first
          simp only [readAll, read, ih items' enough, Option.map_some, except_ok_bind]
          cases as.mapM f <;> rfl

end ReadAll

/-! ### Given outcomes -/

/-- None of the next `n` calls fails. -/
def Spared (n : Nat) (fails : List Bool) : Prop := ∀ failed ∈ fails.take n, failed = false

@[simp] theorem spared_zero (fails : List Bool) : Spared 0 fails := fun _ none => nomatch none

theorem spared_succ (n : Nat) (fails : List Bool) :
    Spared (n + 1) fails ↔ fails.headD false = false ∧ Spared n fails.tail := by
  cases fails with
  | nil => exact iff_of_true (fun _ none => nomatch none) ⟨rfl, by cases n <;> nofun⟩
  | cons failed rest =>
      constructor
      · intro spared
        exact ⟨spared failed (.head _), fun f later => spared f (.tail _ later)⟩
      · rintro ⟨first, later⟩ f mem
        cases mem with
        | head => exact first
        | tail _ mem => exact later f mem

end Effect
