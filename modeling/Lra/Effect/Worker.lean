import Lra.Effect.Protocol

/-!
# A quantity that one thread works on

One thread of a system, the worker, makes of a quantity what `effect` says of each of
its jobs, and no other thread changes it. What the quantity will be when the worker has
ended its job is then settled as soon as the job starts, however the threads interleave.
-/

namespace Effect

variable {S : Signature} {σ τ α ι J : Type}

/-- The operations act on the quantity, whatever they are answered. -/
def Acting (act : S.Op → τ → τ) : Protocol S τ := fun t o _ u => u = act o t

/-- Only operations that leave the quantity alone. -/
def Passive (act : S.Op → τ → τ) : Protocol S Unit := fun _ o _ _ => ∀ t, act o t = t

namespace Program

variable {act : S.Op → τ → τ} {p : Program S α} {t u : τ}

/-- From `t`, the operations of the program take the quantity to `u`. -/
def Takes (act : S.Op → τ → τ) (p : Program S α) (t u : τ) : Prop :=
  p.Follows (Acting act) (fun v _ => v = u) t

theorem takes_ret (a : α) : (Program.ret a : Program S α).Takes act t t := rfl

theorem takes_op {o : S.Op} {next : S.Res o → Program S α}
    (rest : ∀ r, (next r).Takes act (act o t) u) : (Program.op o next).Takes act t u :=
  fun r => ⟨act o t, rfl, rest r⟩

/-- One operation is done. -/
theorem Takes.next {o : S.Op} {next : S.Res o → Program S α}
    (h : (Program.op o next).Takes act t u) (r : S.Res o) : (next r).Takes act (act o t) u := by
  obtain ⟨v, rfl, rest⟩ := h r
  exact rest

theorem Takes.bind {β : Type} {f : α → Program S β} {v : τ} (h : p.Takes act t u)
    (rest : ∀ a, (f a).Takes act u v) : (p >>= f).Takes act t v :=
  Follows.bind h fun w a hw => by
    subst hw
    exact rest a

theorem Takes.of_ret {a : α} (h : (Program.ret a : Program S α).Takes act t u) : t = u := h

/-- A program that leaves the quantity alone does so in each of its operations. -/
theorem Keeps.takes (h : p.Keeps (Passive act) ()) : p.Takes act t t := by
  induction p with
  | ret a => exact rfl
  | op o next ih =>
      refine takes_op fun r => ?_
      obtain ⟨_, passive, rest⟩ := h r
      rw [passive t]
      exact ih r rest

end Program

/-- Each job of the worker has its effect, and those of the other threads have none. -/
structure WorkedBy (sys : System S σ ι J) (worker : ι) (value : σ → τ) (act : S.Op → τ → τ)
    (effect : J → τ → τ) : Prop where
  sound : ∀ {o m r m'}, sys.sem o m r m' → value m' = act o (value m)
  effect : ∀ {j}, sys.may worker j → ∀ t, (sys.code j).Takes act t (effect j t)
  quiet : ∀ {i j}, i ≠ worker → sys.may i j → (sys.code j).Keeps (Passive act) ()

/-- What is left of a thread's job takes the quantity to `u`. -/
def Remains (act : S.Op → τ → τ) (t u : τ) : Option (J × Program S Unit) → Prop
  | none => t = u
  | some (_, rest) => rest.Takes act t u

/-- The quantity is `u` as soon as the worker has ended its job. -/
structure Due (worker : ι) (value : σ → τ) (act : S.Op → τ → τ) (p : Pool S σ ι J) (u : τ) :
    Prop where
  remains : Remains act (value p.mem) u (p.thread worker)
  others : ∀ i j rest, p.thread i = some (j, rest) → i ≠ worker → rest.Keeps (Passive act) ()

/-- Only the start of a job changes what is due. -/
def Label.due [DecidableEq ι] (worker : ι) (effect : J → τ → τ) : Label S ι J → τ → τ
  | .start i j, u => if i = worker then effect j u else u
  | _, u => u

section Due

variable {sys : System S σ ι J} {worker : ι} {value : σ → τ} {act : S.Op → τ → τ}
variable {effect : J → τ → τ} {p q : Pool S σ ι J} {l : Label S ι J} {t u : τ}

theorem Due.idle (m : σ) : Due worker value act (Pool.idle m : Pool S σ ι J) (value m) :=
  ⟨rfl, fun _ _ _ h => (nomatch h)⟩

/-- An idle worker leaves nothing to wait for. -/
theorem Due.value_eq (due : Due worker value act p u) (idle : p.thread worker = none) :
    value p.mem = u := by
  have remains := due.remains
  rw [idle] at remains
  exact remains

variable [DecidableEq ι]

theorem Due.start (works : WorkedBy sys worker value act effect) {i : ι} {j : J}
    (due : Due worker value act p u) (idle : p.thread i = none) (may : sys.may i j) :
    Due worker value act (p.begin i j (sys.code j)) (if i = worker then effect j u else u) := by
  refine ⟨?_, active_update (works.quiet · may) fun k j' rest _ => due.others k j' rest⟩
  by_cases mine : i = worker
  · subst mine
    have now := due.value_eq idle
    simp only [Pool.begin, Function.update_self, if_true, ← now]
    exact works.effect may (value p.mem)
  · simp only [Pool.begin, Function.update_of_ne (Ne.symm mine), if_neg mine]
    exact due.remains

theorem Due.exec (works : WorkedBy sys worker value act effect) {i : ι} {j : J} {o : S.Op}
    {next : S.Res o → Program S Unit} {r : S.Res o} {m : σ} (due : Due worker value act p u)
    (active : p.thread i = some (j, .op o next)) (answer : sys.sem o p.mem r m) :
    Due worker value act (p.advance i j (next r) m) u := by
  have acted := works.sound answer
  by_cases mine : i = worker
  · subst mine
    refine ⟨?_, active_update (absurd rfl ·) fun k j' rest _ => due.others k j' rest⟩
    have remains := due.remains
    rw [active] at remains
    simp only [Pool.advance, Function.update_self, acted]
    exact remains.next r
  · obtain ⟨_, passive, rest⟩ := due.others i j _ active mine r
    have still : value m = value p.mem := acted.trans (passive (value p.mem))
    refine ⟨?_, active_update (fun _ => rest) fun k j' rest _ => due.others k j' rest⟩
    simp only [Pool.advance, Function.update_of_ne (Ne.symm mine), still]
    exact due.remains

theorem Due.finish {i : ι} {j : J} (due : Due worker value act p u)
    (active : p.thread i = some (j, .ret ())) : Due worker value act (p.retire i j) u := by
  refine ⟨?_, active_retire fun k j' rest _ => due.others k j' rest⟩
  by_cases mine : i = worker
  · subst mine
    have remains := due.remains
    rw [active] at remains
    simp only [Pool.retire, Function.update_self]
    exact remains.of_ret
  · simp only [Pool.retire, Function.update_of_ne (Ne.symm mine)]
    exact due.remains

/-- Whichever thread a step is of, only the start of a job of the worker changes what is due. -/
theorem Due.step (works : WorkedBy sys worker value act effect) (due : Due worker value act p u)
    (step : sys.Step p l q) : Due worker value act q (l.due worker effect u) := by
  cases step with
  | start idle may => exact due.start works idle may
  | exec active answer => exact due.exec works active answer
  | finish active => exact due.finish active

end Due

end Effect
