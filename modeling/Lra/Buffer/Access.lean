import Mathlib.Data.List.Basic

/-!
# Checked access to a buffer

Reads by index, of a block of given length and from one iterator to another fail at
the first index outside the buffer, and so does a write. `InBounds` says that a
computation made of such accesses has none outside; its rules turn it into a condition
on the buffer's length.
-/

namespace Buffer

variable {α β γ : Type}

/-- The index of an access outside the buffer. -/
structure OutOfBounds where
  index : Nat
  deriving DecidableEq, Repr

abbrev Checked (β : Type) := Except OutOfBounds β

def get (buf : List α) (i : Nat) : Checked α :=
  match buf[i]? with
  | some a => .ok a
  | none => .error ⟨i⟩

/-- `buf.at(i) = a`. -/
def put (buf : List α) (i : Nat) (a : α) : Checked (List α) :=
  if i < buf.length then .ok (buf.set i a) else .error ⟨i⟩

/-- The `n` elements from `first` on. -/
def block (buf : List α) (first : Nat) : Nat → Checked (List α)
  | 0 => .ok []
  | n + 1 => do
    let a ← get buf first
    let rest ← block buf (first + 1) n
    return a :: rest

/-- Advance an iterator through the rest of the buffer until it meets `last`. -/
def advance (last : Nat) : Nat → List α → Checked (List α)
  | it, [] => if it = last then .ok [] else .error ⟨it⟩
  | it, a :: rest =>
    if it = last then .ok []
    else do
      let after ← advance last (it + 1) rest
      return a :: after

/-- The elements an iterator passes from `first` until it meets `last`. -/
def between (buf : List α) (first last : Nat) : Checked (List α) :=
  advance last first (buf.drop first)

@[simp] theorem ok_bind (b : β) (f : β → Checked γ) : ((.ok b : Checked β) >>= f) = f b := rfl

theorem bind_eq_ok {x : Checked β} {f : β → Checked γ} {c : γ} :
    x >>= f = .ok c ↔ ∃ b, x = .ok b ∧ f b = .ok c := by
  cases x with
  | error e =>
      refine iff_of_false nofun ?_
      rintro ⟨b, h, _⟩
      cases h
  | ok b =>
      constructor
      · exact fun h => ⟨b, rfl, h⟩
      · rintro ⟨_, h, rest⟩
        cases h
        exact rest

/-- No access of the computation is outside the buffer. -/
def InBounds (x : Checked β) : Prop := ∃ b, x = .ok b

@[simp] theorem inBounds_pure (b : β) : InBounds (pure b : Checked β) := ⟨b, rfl⟩

@[simp] theorem inBounds_ok (b : β) : InBounds (.ok b : Checked β) := ⟨b, rfl⟩

@[simp] theorem not_inBounds_error (e : OutOfBounds) : ¬ InBounds (.error e : Checked β) :=
  fun ⟨_, h⟩ => nomatch h

theorem inBounds_bind {x : Checked β} {f : β → Checked γ} :
    InBounds (x >>= f) ↔ ∃ b, x = .ok b ∧ InBounds (f b) := by
  constructor
  · rintro ⟨c, h⟩
    obtain ⟨b, first, rest⟩ := bind_eq_ok.mp h
    exact ⟨b, first, c, rest⟩
  · rintro ⟨b, first, c, rest⟩
    exact ⟨c, bind_eq_ok.mpr ⟨b, first, rest⟩⟩

theorem InBounds.bind {x : Checked β} {f : β → Checked γ} (h : InBounds x)
    (rest : ∀ b, InBounds (f b)) : InBounds (x >>= f) := by
  obtain ⟨b, hb⟩ := h
  exact inBounds_bind.mpr ⟨b, hb, rest b⟩

@[simp] theorem inBounds_bind_pure {x : Checked β} {f : β → γ} :
    InBounds (x >>= fun b => pure (f b)) ↔ InBounds x := by
  rw [inBounds_bind]
  constructor
  · exact fun ⟨b, h, _⟩ => ⟨b, h⟩
  · exact fun ⟨b, h⟩ => ⟨b, h, inBounds_pure _⟩

/-- A computation that is in bounds exactly under `P`, with what is done with its value. -/
theorem inBounds_bind_of {x : Checked β} {f : β → Checked γ} {P : Prop} {b : β}
    (inside : P → x = .ok b) (only : InBounds x → P) :
    InBounds (x >>= f) ↔ P ∧ InBounds (f b) := by
  rw [inBounds_bind]
  constructor
  · rintro ⟨b', h, rest⟩
    have holds := only ⟨b', h⟩
    obtain rfl := Except.ok.inj (h.symm.trans (inside holds))
    exact ⟨holds, rest⟩
  · rintro ⟨holds, rest⟩
    exact ⟨b, inside holds, rest⟩

theorem inBounds_mapM {f : α → Checked β} {l : List α} (h : ∀ a ∈ l, InBounds (f a)) :
    InBounds (l.mapM f) := by
  induction l with
  | nil => simp
  | cons a l ih =>
      obtain ⟨b, hb⟩ := h a (List.mem_cons_self ..)
      obtain ⟨bs, hbs⟩ := ih fun a' ha' => h a' (List.mem_cons_of_mem _ ha')
      refine ⟨b :: bs, ?_⟩
      rw [List.mapM_cons, hb, ok_bind, hbs]
      rfl

theorem get_eq {buf : List α} {i : Nat} (h : i < buf.length) : get buf i = .ok buf[i] := by
  simp [get, h]

theorem get_eq_error {buf : List α} {i : Nat} (h : buf.length ≤ i) :
    get buf i = .error ⟨i⟩ := by
  simp [get, h]

@[simp] theorem inBounds_get {buf : List α} {i : Nat} : InBounds (get buf i) ↔ i < buf.length := by
  rcases Nat.lt_or_ge i buf.length with inside | outside
  · simp [get_eq inside, inside]
  · simp [get_eq_error outside, outside]

@[simp] theorem inBounds_get_bind {buf : List α} {i : Nat} {f : α → Checked β} :
    InBounds (get buf i >>= f) ↔ ∃ h : i < buf.length, InBounds (f buf[i]) := by
  constructor
  · intro h
    obtain ⟨a, ha, rest⟩ := inBounds_bind.mp h
    have inside : i < buf.length := inBounds_get.mp ⟨a, ha⟩
    obtain rfl := Except.ok.inj (ha.symm.trans (get_eq inside))
    exact ⟨inside, rest⟩
  · rintro ⟨inside, rest⟩
    exact inBounds_bind.mpr ⟨_, get_eq inside, rest⟩

theorem put_eq {buf : List α} {i : Nat} (h : i < buf.length) (a : α) :
    put buf i a = .ok (buf.set i a) := if_pos h

@[simp] theorem inBounds_put {buf : List α} {i : Nat} {a : α} :
    InBounds (put buf i a) ↔ i < buf.length := by
  rcases Nat.lt_or_ge i buf.length with inside | outside
  · simp [put_eq inside, inside]
  · simp [put, Nat.not_lt.mpr outside]

theorem length_put {buf buf' : List α} {i : Nat} {a : α} (h : put buf i a = .ok buf') :
    buf'.length = buf.length := by
  rw [put] at h
  split at h
  · obtain rfl := Except.ok.inj h
    exact List.length_set
  · cases h

/-- A round that reads one buffer and writes another. -/
theorem inBounds_get_put {buf : List α} {out : List β} {i j : Nat} {g : α → β} :
    InBounds (get buf i >>= fun a => put out j (g a)) ↔ i < buf.length ∧ j < out.length := by
  rw [inBounds_get_bind]
  constructor
  · exact fun ⟨inside, room⟩ => ⟨inside, inBounds_put.1 room⟩
  · exact fun ⟨inside, room⟩ => ⟨inside, inBounds_put.2 room⟩

theorem length_get_put {buf : List α} {out out' : List β} {i j : Nat} {g : α → β}
    (h : (get buf i >>= fun a => put out j (g a)) = .ok out') : out'.length = out.length := by
  obtain ⟨a, _, written⟩ := bind_eq_ok.mp h
  exact length_put written

theorem get_append_right (done : List α) (a : α) (rest : List α) :
    get (done ++ a :: rest) done.length = .ok a := by
  simp [get]

/-- A buffer that is filled from the front takes one more element. -/
theorem put_append (done : List α) (r a : α) (rest : List α) :
    put (done ++ r :: rest) done.length a = .ok ((done ++ [a]) ++ rest) := by
  rw [put_eq (by simp)]
  simp

/-- The loop rule: an invariant of the elements already visited. -/
theorem foldlM_invariant {σ : Type} {f : σ → α → Checked σ} {l : List α} {s : σ}
    {I : List α → σ → Prop} (initial : I [] s)
    (step : ∀ done a rest s, l = done ++ a :: rest → I done s →
      ∃ t, f s a = .ok t ∧ I (done ++ [a]) t) :
    ∃ t, l.foldlM f s = .ok t ∧ I l t := by
  have loop : ∀ (rest done : List α) (s : σ), l = done ++ rest → I done s →
      ∃ t, rest.foldlM f s = .ok t ∧ I l t := by
    intro rest
    induction rest with
    | nil =>
        intro done s split holds
        rw [List.append_nil] at split
        exact ⟨s, rfl, split ▸ holds⟩
    | cons a rest ih =>
        intro done s split holds
        obtain ⟨t, ran, kept⟩ := step done a rest s split holds
        obtain ⟨u, rest_ran, final⟩ := ih (done ++ [a]) t (by simp [split]) kept
        exact ⟨u, by rw [List.foldlM_cons, ran, ok_bind, rest_ran], final⟩
  exact loop l [] s rfl initial

section Loop

variable {σ : Type} {f : σ → α → Checked σ} {I : σ → Prop} {l : List α} {s : σ}

theorem foldlM_keeps (keeps : ∀ s a t, I s → f s a = .ok t → I t) (start : I s) {t : σ}
    (ran : l.foldlM f s = .ok t) : I t := by
  induction l generalizing s with
  | nil =>
      obtain rfl : s = t := Except.ok.inj ran
      exact start
  | cons a l ih =>
      rw [List.foldlM_cons] at ran
      obtain ⟨u, first, rest⟩ := bind_eq_ok.mp ran
      exact ih (keeps s a u start first) rest

/-- A loop whose rounds keep `I`, under which a round is in bounds exactly if `P` holds of
its index. -/
theorem inBounds_foldlM {P : α → Prop} (keeps : ∀ s a t, I s → f s a = .ok t → I t)
    (round : ∀ s a, I s → (InBounds (f s a) ↔ P a)) (start : I s) :
    InBounds (l.foldlM f s) ↔ ∀ a ∈ l, P a := by
  induction l generalizing s with
  | nil => exact iff_of_true (inBounds_pure s) (by simp)
  | cons a l ih =>
      rw [List.foldlM_cons, inBounds_bind, List.forall_mem_cons]
      constructor
      · rintro ⟨t, ht, rest⟩
        exact ⟨(round s a start).1 ⟨t, ht⟩, (ih (keeps s a t start ht)).1 rest⟩
      · rintro ⟨inside, rest⟩
        obtain ⟨t, ht⟩ := (round s a start).2 inside
        exact ⟨t, ht, (ih (keeps s a t start ht)).2 rest⟩

variable {g : List β → α → Checked (List β)} {buf buf' : List β}

theorem length_foldlM (keeps : ∀ s a t, g s a = .ok t → t.length = s.length)
    (ran : l.foldlM g buf = .ok buf') : buf'.length = buf.length :=
  foldlM_keeps (I := fun t => t.length = buf.length)
    (fun s a t same once => (keeps s a t once).trans same) rfl ran

/-- A loop whose rounds keep the length of the buffer they write, on which it depends whether
they are in bounds. -/
theorem inBounds_foldlM_length {P : Nat → α → Prop}
    (keeps : ∀ s a t, g s a = .ok t → t.length = s.length)
    (round : ∀ s a, InBounds (g s a) ↔ P s.length a) :
    InBounds (l.foldlM g buf) ↔ ∀ a ∈ l, P buf.length a := by
  apply inBounds_foldlM (I := fun t => t.length = buf.length)
  · intro s a t same once
    exact (keeps s a t once).trans same
  · intro s a same
    rw [round, same]
  · rfl

end Loop

theorem block_eq {buf : List α} {first n : Nat} (h : first + n ≤ buf.length) :
    block buf first n = .ok ((buf.drop first).take n) := by
  induction n generalizing first with
  | zero => rfl
  | succ n ih =>
      have inside : first < buf.length := by omega
      have room : first + 1 + n ≤ buf.length := by omega
      rw [block, get_eq inside, ok_bind, ih room, ok_bind, List.drop_eq_getElem_cons inside]
      rfl

theorem inBounds_block {buf : List α} {first n : Nat} :
    InBounds (block buf first (n + 1)) ↔ first + (n + 1) ≤ buf.length := by
  constructor
  · intro h
    induction n generalizing first with
    | zero =>
        obtain ⟨inside, _⟩ := inBounds_get_bind.mp h
        omega
    | succ n ih =>
        obtain ⟨_, rest⟩ := inBounds_get_bind.mp h
        obtain ⟨b, hb, _⟩ := inBounds_bind.mp rest
        have := ih ⟨b, hb⟩
        omega
  · intro h
    exact ⟨_, block_eq h⟩

theorem advance_eq {last it : Nat} {rest : List α} (le : it ≤ last)
    (inside : last ≤ it + rest.length) : advance last it rest = .ok (rest.take (last - it)) := by
  induction rest generalizing it with
  | nil =>
      have met : it = last := by
        rw [List.length_nil] at inside
        omega
      simp [advance, met]
  | cons a rest ih =>
      by_cases met : it = last
      · simp [advance, met]
      · rw [List.length_cons] at inside
        have ahead : it + 1 ≤ last := by omega
        have room : last ≤ it + 1 + rest.length := by omega
        have count : last - it = last - (it + 1) + 1 := by omega
        simp [advance, met, ih ahead room, count]

/-- An iterator that starts behind `last` runs off the end. -/
theorem not_inBounds_advance {last it : Nat} {rest : List α} (behind : last < it) :
    ¬ InBounds (advance last it rest) := by
  induction rest generalizing it with
  | nil =>
      have apart : it ≠ last := by omega
      simp [advance, apart]
  | cons a rest ih =>
      have apart : it ≠ last := by omega
      have behind : last < it + 1 := by omega
      rw [advance, if_neg apart, inBounds_bind]
      rintro ⟨b, h, _⟩
      exact ih behind ⟨b, h⟩

theorem between_eq {buf : List α} {first last : Nat} (le : first ≤ last)
    (inside : last ≤ buf.length) :
    between buf first last = .ok ((buf.drop first).take (last - first)) := by
  refine advance_eq le ?_
  rw [List.length_drop]
  omega

/-- Where `last` is inside the buffer, the passage to it is in bounds from nowhere
behind it. -/
theorem inBounds_between {buf : List α} {first last : Nat} (inside : last ≤ buf.length) :
    InBounds (between buf first last) ↔ first ≤ last := by
  constructor
  · intro h
    by_contra behind
    exact not_inBounds_advance (Nat.lt_of_not_le behind) h
  · exact fun le => ⟨_, between_eq le inside⟩

end Buffer
