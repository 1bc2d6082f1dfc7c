import Lra.Effect.Execution
import Lra.Effect.Transition

/-!
# Threads that interleave at single operations

A system is a set of threads over one shared memory. A thread is idle or in the
middle of a job; a step starts a job, performs the next operation of one thread,
or lets a thread whose job has returned become idle again. Nothing else is
assumed about the scheduler, so the runs of a system are all interleavings.
-/

namespace Effect

/-- Shared-memory threads: what operations do, what jobs run, and who may run them. -/
structure System (S : Signature) (σ ι J : Type) where
  sem : Semantics S σ
  code : J → Program S Unit
  may : ι → J → Prop

/-- A thread holds its job and what is left of the job's program. -/
structure Pool (S : Signature) (σ ι J : Type) where
  thread : ι → Option (J × Program S Unit)
  /-- The job each thread finished last. -/
  last : ι → Option J
  mem : σ

inductive Label (S : Signature) (ι J : Type) where
  | start (i : ι) (j : J)
  | exec (i : ι) (o : S.Op)
  | finish (i : ι)

variable {S : Signature} {σ ι J : Type}

namespace Pool

/-- No thread has begun anything. -/
def idle (m : σ) : Pool S σ ι J := ⟨fun _ => none, fun _ => none, m⟩

/-- The operation thread `i` performs next. -/
def next? (p : Pool S σ ι J) (i : ι) : Option S.Op :=
  match p.thread i with
  | some (_, .op o _) => some o
  | _ => none

theorem next?_of_op {p : Pool S σ ι J} {i : ι} {j : J} {o : S.Op}
    {next : S.Res o → Program S Unit} (h : p.thread i = some (j, .op o next)) :
    p.next? i = some o := by
  simp [next?, h]

variable [DecidableEq ι]

def begin (p : Pool S σ ι J) (i : ι) (j : J) (code : Program S Unit) : Pool S σ ι J :=
  { p with thread := Function.update p.thread i (some (j, code)) }

def advance (p : Pool S σ ι J) (i : ι) (j : J) (rest : Program S Unit) (m : σ) :
    Pool S σ ι J :=
  { p with thread := Function.update p.thread i (some (j, rest)), mem := m }

def retire (p : Pool S σ ι J) (i : ι) (j : J) : Pool S σ ι J :=
  { p with thread := Function.update p.thread i none,
           last := Function.update p.last i (some j) }

end Pool

section Active

variable {τ : Type} [DecidableEq ι] {R : ι → J → τ → Prop} {ts : ι → Option (J × τ)}

/-- What holds of every active thread holds after a change of one of them, if it holds of
the new record and still of the others. -/
theorem active_update {i : ι} {j : J} {t : τ} (new : R i j t)
    (others : ∀ k j' t', k ≠ i → ts k = some (j', t') → R k j' t') :
    ∀ k j' t', Function.update ts i (some (j, t)) k = some (j', t') → R k j' t' := by
  intro k j' t' state
  by_cases same : k = i
  · subst same
    obtain ⟨rfl, rfl⟩ : j = j' ∧ t = t' := by simpa using state
    exact new
  · rw [Function.update_of_ne same] at state
    exact others k j' t' same state

theorem active_retire {i : ι} (others : ∀ k j' t', k ≠ i → ts k = some (j', t') → R k j' t') :
    ∀ k j' t', Function.update ts i none k = some (j', t') → R k j' t' := by
  intro k j' t' state
  by_cases same : k = i
  · subst same
    simp at state
  · rw [Function.update_of_ne same] at state
    exact others k j' t' same state

end Active

namespace System

variable [DecidableEq ι]

/-- One step of one thread. -/
inductive Step (sys : System S σ ι J) : Pool S σ ι J → Label S ι J → Pool S σ ι J → Prop where
  | start {p i j} : p.thread i = none → sys.may i j →
      Step sys p (.start i j) (p.begin i j (sys.code j))
  | exec {p i j o next r m} : p.thread i = some (j, .op o next) → sys.sem o p.mem r m →
      Step sys p (.exec i o) (p.advance i j (next r) m)
  | finish {p i j} : p.thread i = some (j, .ret ()) →
      Step sys p (.finish i) (p.retire i j)

/-- `q` can be reached from `p` when every step meets `ok` in the pool before it. -/
def ReachesBy (sys : System S σ ι J) (ok : Pool S σ ι J → Label S ι J → Prop)
    (p q : Pool S σ ι J) : Prop :=
  ∃ h, Run (Restrict sys.Step ok) p h q

/-- `q` can be reached from `p` by some interleaving. -/
def Reaches (sys : System S σ ι J) (p q : Pool S σ ι J) : Prop :=
  sys.ReachesBy (fun _ _ => True) p q

variable {sys : System S σ ι J} {ok : Pool S σ ι J → Label S ι J → Prop} {p q : Pool S σ ι J}

theorem ReachesBy.refl (p : Pool S σ ι J) : sys.ReachesBy ok p p := ⟨[], .nil⟩

theorem ReachesBy.tail {l : Label S ι J} {u : Pool S σ ι J} (h : sys.ReachesBy ok p q)
    (allowed : ok q l) (step : sys.Step q l u) : sys.ReachesBy ok p u := by
  obtain ⟨hist, run⟩ := h
  exact ⟨_, .step run ⟨allowed, step⟩⟩

/-- A property that allowed steps preserve holds wherever they lead. -/
theorem ReachesBy.invariant {P : Pool S σ ι J → Prop} (h : sys.ReachesBy ok p q) (initial : P p)
    (preserves : ∀ {p l q}, P p → ok p l → sys.Step p l q → P q) : P q := by
  obtain ⟨hist, run⟩ := h
  exact run.invariant initial fun holds step => preserves holds step.1 step.2

/-! ### Playing a fixed schedule -/

/-- A scheduler's choice. -/
inductive Move (ι J : Type) where
  | start (i : ι) (j : J)
  | go (i : ι)
  | finish (i : ι)

/-- Carry out one choice, if it is possible. -/
def fire (sys : System S σ ι J) (h : Handler S σ) :
    Move ι J → Pool S σ ι J → Option (Label S ι J × Pool S σ ι J)
  | .start i j, p =>
    match p.thread i with
    | none => some (.start i j, p.begin i j (sys.code j))
    | some _ => none
  | .go i, p =>
    match p.thread i with
    | some (j, .op o next) => some (.exec i o, p.advance i j (next (h o p.mem).1) (h o p.mem).2)
    | _ => none
  | .finish i, p =>
    match p.thread i with
    | some (j, .ret ()) => some (.finish i, p.retire i j)
    | _ => none

/-- Play a schedule as long as its steps pass a test. -/
def play (sys : System S σ ι J) (h : Handler S σ) (test : Pool S σ ι J → Label S ι J → Bool) :
    List (Move ι J) → Pool S σ ι J → Option (Pool S σ ι J)
  | [], p => some p
  | m :: rest, p =>
    match sys.fire h m p with
    | some (l, q) => if test p l then sys.play h test rest q else none
    | none => none

/-- Every start in the schedule is one the system allows. -/
def Allows (sys : System S σ ι J) : List (Move ι J) → Prop
  | [] => True
  | .start i j :: rest => sys.may i j ∧ sys.Allows rest
  | .go _ :: rest => sys.Allows rest
  | .finish _ :: rest => sys.Allows rest

instance [∀ i j, Decidable (sys.may i j)] (moves : List (Move ι J)) :
    Decidable (sys.Allows moves) := by
  induction moves with
  | nil => exact inferInstanceAs (Decidable True)
  | cons m rest ih =>
      cases m with
      | start i j => exact inferInstanceAs (Decidable (sys.may i j ∧ sys.Allows rest))
      | go i => exact ih
      | finish i => exact ih

omit [DecidableEq ι] in
theorem Allows.of_cons {m : Move ι J} {rest : List (Move ι J)} (h : sys.Allows (m :: rest)) :
    (∀ i j, m = .start i j → sys.may i j) ∧ sys.Allows rest := by
  cases m with
  | start i j =>
      refine ⟨fun i' j' same => ?_, h.2⟩
      cases same
      exact h.1
  | go i => exact ⟨fun _ _ h => (nomatch h), h⟩
  | finish i => exact ⟨fun _ _ h => (nomatch h), h⟩

theorem fire_step {h : Handler S σ} {m : Move ι J} {l : Label S ι J}
    (allowed : ∀ i j, m = .start i j → sys.may i j) (fired : sys.fire h m p = some (l, q))
    (within : ∀ i o, l = .exec i o → sys.sem o p.mem (h o p.mem).1 (h o p.mem).2) :
    sys.Step p l q := by
  cases m with
  | start i j =>
      simp only [fire] at fired
      split at fired
      · next idle =>
          cases fired
          exact .start idle (allowed i j rfl)
      · cases fired
  | go i =>
      simp only [fire] at fired
      split at fired
      · next active =>
          cases fired
          exact .exec active (within i _ rfl)
      · cases fired
  | finish i =>
      simp only [fire] at fired
      split at fired
      · next active =>
          cases fired
          exact .finish active
      · cases fired

/-- A schedule that can be played to its end is a run of the system, provided the
handler does what the semantics allows wherever the test lets it act. -/
theorem play_reaches {h : Handler S σ} {test : Pool S σ ι J → Label S ι J → Bool}
    (within : ∀ p i o, test p (.exec i o) = true → sys.sem o p.mem (h o p.mem).1 (h o p.mem).2)
    {start : Pool S σ ι J} (sound : ∀ p l, test p l = true → ok p l)
    {moves : List (Move ι J)} (allowed : sys.Allows moves) (reached : sys.ReachesBy ok start p)
    (played : sys.play h test moves p = some q) : sys.ReachesBy ok start q := by
  induction moves generalizing p with
  | nil =>
      obtain rfl := Option.some.inj played
      exact reached
  | cons m rest ih =>
      simp only [play] at played
      split at played
      · next l u fired =>
          split at played
          · next passed =>
              obtain ⟨first, later⟩ := allowed.of_cons
              have step : sys.Step p l u := fire_step first fired fun i o exec =>
                within p i o (exec ▸ passed)
              exact ih later (reached.tail (sound _ _ passed) step) played
          · cases played
      · cases played

/-- Evaluating a schedule exhibits a reachable pool with a decidable property. -/
theorem exists_of_tested_play {h : Handler S σ} {test : Pool S σ ι J → Label S ι J → Bool}
    (within : ∀ p i o, test p (.exec i o) = true → sys.sem o p.mem (h o p.mem).1 (h o p.mem).2)
    {start : Pool S σ ι J} (sound : ∀ p l, test p l = true → ok p l) {moves : List (Move ι J)}
    (allowed : sys.Allows moves) {check : Pool S σ ι J → Bool}
    (played : (sys.play h test moves start).any check = true) :
    ∃ q, sys.ReachesBy ok start q ∧ check q = true := by
  cases found : sys.play h test moves start with
  | none => simp [found] at played
  | some q =>
      have reached := play_reaches within sound allowed (.refl start) found
      exact ⟨q, reached, by simpa [found] using played⟩

/-- The same for a handler that always does what the semantics allows. -/
theorem exists_of_play {h : Handler S σ} (within : h.Within sys.sem) {start : Pool S σ ι J}
    {test : Pool S σ ι J → Label S ι J → Bool} (sound : ∀ p l, test p l = true → ok p l)
    {moves : List (Move ι J)} (allowed : sys.Allows moves) {check : Pool S σ ι J → Bool}
    (played : (sys.play h test moves start).any check = true) :
    ∃ q, sys.ReachesBy ok start q ∧ check q = true :=
  exists_of_tested_play (fun p _ o _ => within o p.mem) sound allowed played

end System

end Effect
