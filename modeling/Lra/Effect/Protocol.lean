import Lra.Effect.Pool

/-!
# Protocols: what a program does, operation by operation

A protocol is a small automaton over operations and their answers. A program
follows it when, whatever it is answered, its next operation is one the protocol
permits. Following is a property of the program alone; a relation between
protocol states and memories that the semantics preserves then carries it to
executions, and to all interleavings of threads that each follow their protocol.
-/

namespace Effect

/-- `P t o r u`: in `t` the operation `o` is permitted, and the answer `r` leads to `u`. -/
abbrev Protocol (S : Signature) (τ : Type) := τ → (o : S.Op) → S.Res o → τ → Prop

variable {S T : Signature} {σ τ α β ι J : Type}

namespace Program

/-- From `t`, the program only performs permitted operations and returns as `Q` asks. -/
def Follows (P : Protocol S τ) : Program S α → (τ → α → Prop) → τ → Prop
  | .ret a, Q, t => Q t a
  | .op o next, Q, t => ∀ r, ∃ t', P t o r t' ∧ (next r).Follows P Q t'

variable {P : Protocol S τ} {p : Program S α} {Q Q' : τ → α → Prop} {t : τ}

@[simp] theorem follows_ret (a : α) : (Program.ret a : Program S α).Follows P Q t ↔ Q t a :=
  Iff.rfl

@[simp] theorem follows_op (o : S.Op) (next : S.Res o → Program S α) :
    (Program.op o next).Follows P Q t ↔
      ∀ r, ∃ t', P t o r t' ∧ (next r).Follows P Q t' := Iff.rfl

/-- One operation and what is done with its answer. -/
theorem follows_step {o : S.Op} {f : S.Res o → Program S β} {R : τ → β → Prop} :
    ((Program.op o .ret : Program S (S.Res o)) >>= f).Follows P R t ↔
      ∀ r, ∃ t', P t o r t' ∧ (f r).Follows P R t' := Iff.rfl

theorem follows_bind (p : Program S α) (f : α → Program S β) (Q : τ → β → Prop) (t : τ) :
    (p >>= f).Follows P Q t ↔ p.Follows P (fun u a => (f a).Follows P Q u) t := by
  induction p generalizing t with
  | ret a => rfl
  | op o next ih =>
      exact forall_congr' fun r => exists_congr fun u => and_congr_right fun _ => ih r u

theorem Follows.mono (h : p.Follows P Q t) (post : ∀ u a, Q u a → Q' u a) :
    p.Follows P Q' t := by
  induction p generalizing t with
  | ret a => exact post t a h
  | op o next ih =>
      intro r
      obtain ⟨u, permitted, rest⟩ := h r
      exact ⟨u, permitted, ih r rest⟩

/-- Compose a first part that follows the protocol with every continuation it leaves. -/
theorem Follows.bind {f : α → Program S β} {R : τ → β → Prop} (h : p.Follows P Q t)
    (rest : ∀ u a, Q u a → (f a).Follows P R u) : (p >>= f).Follows P R t :=
  (follows_bind p f R t).mpr (h.mono rest)

/-- From protocol states that never permit `o`, the program cannot get to it. -/
theorem Follows.not_may {K : τ → Prop} {o : S.Op} [Nonempty (S.Res o)]
    (closed : ∀ {t o' r t'}, K t → P t o' r t' → K t')
    (forbidden : ∀ {t r t'}, K t → ¬ P t o r t') (h : p.Follows P Q t) (start : K t) :
    ¬ p.May o := by
  induction p generalizing t with
  | ret a => exact fun may => may
  | op o' next ih =>
      rintro (rfl | ⟨r, may⟩)
      · obtain ⟨r⟩ := ‹Nonempty (S.Res o')›
        obtain ⟨t', permitted, _⟩ := h r
        exact forbidden start permitted
      · obtain ⟨t', permitted, rest⟩ := h r
        exact ih r rest (closed start permitted) may

/-- The program is permitted in `t` and does not leave it. -/
def Keeps (P : Protocol S τ) (p : Program S α) (t : τ) : Prop :=
  p.Follows P (fun u _ => u = t) t

@[simp] theorem keeps_ret (a : α) : (Program.ret a : Program S α).Keeps P t := rfl

theorem keeps_op {o : S.Op} {next : S.Res o → Program S α} (stays : ∀ r, P t o r t)
    (rest : ∀ r, (next r).Keeps P t) : (Program.op o next).Keeps P t :=
  fun r => ⟨t, stays r, rest r⟩

theorem Keeps.bind {f : α → Program S β} (h : p.Keeps P t) (rest : ∀ a, (f a).Keeps P t) :
    (p >>= f).Keeps P t :=
  Follows.bind h fun u a hu => by
    subst hu
    exact rest a

/-- A part that stays in `t` can be followed by anything that goes on from there. -/
theorem Keeps.follows_bind {f : α → Program S β} {R : τ → β → Prop} (h : p.Keeps P t)
    (rest : ∀ a, (f a).Follows P R t) : (p >>= f).Follows P R t :=
  Follows.bind h fun u a hu => by
    subst hu
    exact rest a

/-- If every operation is implemented by a program that follows `P` and keeps `K`,
so does the interpreted program. -/
theorem follows_interp {f : (o : T.Op) → Program S (T.Res o)} {K : τ → Prop}
    (impl : ∀ o u, K u → (f o).Follows P (fun u' _ => K u') u) (p : Program T α) (h : K t) :
    (p.interp f).Follows P (fun u _ => K u) t := by
  induction p generalizing t with
  | ret a => exact h
  | op o next ih => exact (impl o t h).bind fun u r hu => ih r hu

end Program

/-! ### Executions -/

/-- The trace of an execution walks through the protocol, in memories related by `R`. -/
inductive Walk (P : Protocol S τ) (R : τ → σ → Prop) : τ → List (S.Op × σ) → τ → Prop where
  | nil (t) : Walk P R t [] t
  | cons {t o r t' s tr u} : R t s → P t o r t' → Walk P R t' tr u →
      Walk P R t ((o, s) :: tr) u

/-- `sem` keeps memories related to the protocol state. -/
def Sound (P : Protocol S τ) (sem : Semantics S σ) (R : τ → σ → Prop) : Prop :=
  ∀ ⦃t o r t' s s'⦄, R t s → P t o r t' → sem o s r s' → R t' s'

/-- Executions of a program that follows the protocol walk through it. -/
theorem Program.Follows.walk {P : Protocol S τ} {sem : Semantics S σ} {R : τ → σ → Prop}
    (sound : Sound P sem R) {p : Program S α} {Q : τ → α → Prop} {t : τ} {s s' : σ}
    {tr : List (S.Op × σ)} {a : α} (h : p.Follows P Q t) (related : R t s)
    (run : Exec sem p s tr a s') : ∃ t', Q t' a ∧ R t' s' ∧ Walk P R t tr t' := by
  induction run generalizing t with
  | ret a s => exact ⟨t, h, related, .nil t⟩
  | @op o next s r u tr a s' answer _ ih =>
      obtain ⟨t', permitted, rest⟩ := h r
      obtain ⟨t'', post, relatedEnd, walk⟩ := ih rest (sound related permitted answer)
      exact ⟨t'', post, relatedEnd, .cons related permitted walk⟩

/-! ### Interleavings -/

/-- An active thread is somewhere on its protocol, with `final` where it may return. -/
inductive OnTrack (P : Protocol S τ) (final : J → τ → Prop) :
    Option (J × Program S Unit) → Option (J × τ) → Prop where
  | idle : OnTrack P final none none
  | active {j rest t} : rest.Follows P (fun u _ => final j u) t →
      OnTrack P final (some (j, rest)) (some (j, t))

/-- Every thread of the pool is on its protocol. -/
def Tracks (P : Protocol S τ) (final : J → τ → Prop) (p : Pool S σ ι J)
    (ts : ι → Option (J × τ)) : Prop :=
  ∀ i, OnTrack P final (p.thread i) (ts i)

section Tracks

variable {P : Protocol S τ} {final : J → τ → Prop} {p : Pool S σ ι J}
variable {ts : ι → Option (J × τ)} {i : ι} {j : J} {t : τ}

theorem Tracks.idle (m : σ) : Tracks P final (Pool.idle m : Pool S σ ι J) fun _ => none :=
  fun _ => .idle

theorem Tracks.none_iff (h : Tracks P final p ts) : p.thread i = none ↔ ts i = none := by
  have hi := h i
  generalize p.thread i = th, ts i = st at hi
  cases hi <;> simp

/-- The state recorded for an active thread is that of its own job. -/
theorem Tracks.of_thread (h : Tracks P final p ts) {rest : Program S Unit}
    (active : p.thread i = some (j, rest)) :
    ∃ t, ts i = some (j, t) ∧ rest.Follows P (fun u _ => final j u) t := by
  have hi := h i
  rw [active] at hi
  generalize ts i = st at hi
  cases hi with
  | active follows => exact ⟨_, rfl, follows⟩

theorem Tracks.of_state (h : Tracks P final p ts) (state : ts i = some (j, t)) :
    ∃ rest, p.thread i = some (j, rest) ∧ rest.Follows P (fun u _ => final j u) t := by
  have hi := h i
  rw [state] at hi
  generalize p.thread i = th at hi
  cases hi with
  | active follows => exact ⟨_, rfl, follows⟩

/-- Where a thread may not return yet, its next operation is a permitted one. -/
theorem Tracks.next_permitted (h : Tracks P final p ts) (state : ts i = some (j, t))
    (notFinal : ¬ final j t) : ∃ o, p.next? i = some o ∧ ∀ r, ∃ u, P t o r u := by
  obtain ⟨rest, active, follows⟩ := h.of_state state
  cases rest with
  | ret a => exact absurd follows notFinal
  | op o next =>
      refine ⟨o, Pool.next?_of_op active, fun r => ?_⟩
      obtain ⟨t', permitted, _⟩ := follows r
      exact ⟨t', permitted⟩

end Tracks

/-- What an invariant over the threads' protocol states has to satisfy. -/
structure Preserved [DecidableEq ι] (sys : System S σ ι J) (P : Protocol S τ)
    (first : J → τ) (final : J → τ → Prop) (ok : Pool S σ ι J → Label S ι J → Prop)
    (Inv : (ι → Option (J × τ)) → (ι → Option J) → σ → Prop) : Prop where
  follows : ∀ {i j}, sys.may i j →
    (sys.code j).Follows P (fun u _ => final j u) (first j)
  start : ∀ {p : Pool S σ ι J} {ts i j}, Tracks P final p ts → Inv ts p.last p.mem →
    ts i = none → sys.may i j →
    Inv (Function.update ts i (some (j, first j))) p.last p.mem
  exec : ∀ {p : Pool S σ ι J} {ts i j t o r t' m}, Tracks P final p ts → Inv ts p.last p.mem →
    ts i = some (j, t) → p.next? i = some o → P t o r t' → sys.sem o p.mem r m →
    ok p (.exec i o) → Inv (Function.update ts i (some (j, t'))) p.last m
  finish : ∀ {p : Pool S σ ι J} {ts i j t}, Tracks P final p ts → Inv ts p.last p.mem →
    ts i = some (j, t) → final j t →
    Inv (Function.update ts i none) (Function.update p.last i (some j)) p.mem

section Preserved

variable [DecidableEq ι] {sys : System S σ ι J} {P : Protocol S τ} {first : J → τ}
variable {final : J → τ → Prop} {ok : Pool S σ ι J → Label S ι J → Prop}
variable {Inv : (ι → Option (J × τ)) → (ι → Option J) → σ → Prop}

theorem OnTrack.update {p : Pool S σ ι J} {ts : ι → Option (J × τ)}
    {th : Option (J × Program S Unit)} {st : Option (J × τ)} (h : Tracks P final p ts)
    (i : ι) (new : OnTrack P final th st) (k : ι) :
    OnTrack P final (Function.update p.thread i th k) (Function.update ts i st k) := by
  by_cases hk : k = i
  · subst hk
    simpa using new
  · simpa [hk] using h k

/-- One step keeps the threads on their protocols and the invariant true. -/
theorem Preserved.step (inv : Preserved sys P first final ok Inv) {p q : Pool S σ ι J}
    {l : Label S ι J} {ts : ι → Option (J × τ)} (tracks : Tracks P final p ts)
    (holds : Inv ts p.last p.mem) (allowed : ok p l) (step : sys.Step p l q) :
    ∃ ts', Tracks P final q ts' ∧ Inv ts' q.last q.mem := by
  cases step with
  | @start i j idle may =>
      have kept := inv.start tracks holds (tracks.none_iff.mp idle) may
      exact ⟨_, OnTrack.update tracks i (.active (inv.follows may)), kept⟩
  | @exec i j o next r m active answer =>
      obtain ⟨t, state, follows⟩ := tracks.of_thread active
      obtain ⟨t', permitted, rest⟩ := follows r
      have kept := inv.exec tracks holds state (Pool.next?_of_op active) permitted answer allowed
      exact ⟨_, OnTrack.update tracks i (.active rest), kept⟩
  | @finish i j active =>
      obtain ⟨t, state, final⟩ := tracks.of_thread active
      have kept := inv.finish tracks holds state final
      exact ⟨_, OnTrack.update tracks i .idle, kept⟩

/-- An invariant over protocol states holds in every pool that can be reached. -/
theorem Preserved.reaches (inv : Preserved sys P first final ok Inv) {p q : Pool S σ ι J}
    {ts : ι → Option (J × τ)} (tracks : Tracks P final p ts) (holds : Inv ts p.last p.mem)
    (reached : sys.ReachesBy ok p q) : ∃ ts', Tracks P final q ts' ∧ Inv ts' q.last q.mem := by
  refine reached.invariant (P := fun q => ∃ ts', Tracks P final q ts' ∧ Inv ts' q.last q.mem)
    ⟨ts, tracks, holds⟩ ?_
  rintro p l q ⟨_, tracks, holds⟩ allowed step
  exact inv.step tracks holds allowed step

end Preserved

end Effect
