import Mathlib.Data.List.Basic

/-!
# Runs of a labelled transition relation

A run keeps its whole history, newest step first, so a statement about every
state reached along a run is a statement about the suffixes of one list.
-/

namespace Effect

variable {σ L : Type}

/-- `Run step s h t`: from `s` the steps recorded in `h`, newest first, lead to `t`.
Each entry is a label together with the state its step left. -/
inductive Run (step : σ → L → σ → Prop) (s : σ) : List (L × σ) → σ → Prop where
  | nil : Run step s [] s
  | step {h t l u} : Run step s h t → step t l u → Run step s ((l, u) :: h) u

/-- The state a recorded history ends in. -/
def stateAfter (s : σ) : List (L × σ) → σ
  | [] => s
  | (_, t) :: _ => t

@[simp] theorem stateAfter_nil (s : σ) : stateAfter s ([] : List (L × σ)) = s := rfl

@[simp] theorem stateAfter_cons (s t : σ) (l : L) (h : List (L × σ)) :
    stateAfter s ((l, t) :: h) = t := rfl

/-! ### The moments and the steps of a history -/

section History

variable {l₀ : L} {u₀ : σ} {h : List (L × σ)}

/-- The moments of a longer history are its end and those before. -/
theorem forall_moments_cons {P : List (L × σ) → Prop} :
    (∀ h', h' <:+ (l₀, u₀) :: h → P h') ↔ P ((l₀, u₀) :: h) ∧ ∀ h', h' <:+ h → P h' := by
  constructor
  · intro all
    exact ⟨all _ List.suffix_rfl, fun h' older => all h' (older.trans (List.suffix_cons _ h))⟩
  · rintro ⟨here, before⟩ h' suffix
    rcases List.suffix_cons_iff.mp suffix with rfl | older
    · exact here
    · exact before h' older

/-- An empty history has no steps. -/
theorem forall_steps_nil {P : L → σ → List (L × σ) → Prop} :
    ∀ l u h', (l, u) :: h' <:+ ([] : List (L × σ)) → P l u h' := by
  intro l u h' suffix
  exact nomatch List.suffix_nil.mp suffix

/-- The steps of a longer history are its last one and those before. -/
theorem forall_steps_cons {P : L → σ → List (L × σ) → Prop} :
    (∀ l u h', (l, u) :: h' <:+ (l₀, u₀) :: h → P l u h') ↔
      P l₀ u₀ h ∧ ∀ l u h', (l, u) :: h' <:+ h → P l u h' := by
  constructor
  · intro all
    refine ⟨all _ _ _ List.suffix_rfl, fun l u h' older => ?_⟩
    exact all l u h' (older.trans (List.suffix_cons _ h))
  · rintro ⟨here, before⟩ l u h' suffix
    rcases List.suffix_cons_iff.mp suffix with last | older
    · cases last
      exact here
    · exact before l u h' older

end History

namespace Run

variable {step : σ → L → σ → Prop} {s t : σ} {h : List (L × σ)}

theorem stateAfter_eq (run : Run step s h t) : stateAfter s h = t := by
  cases run <;> rfl

/-- A property preserved by every step holds at the end of every run. -/
theorem invariant {P : σ → Prop} (run : Run step s h t) (initial : P s)
    (preserves : ∀ {s l t}, P s → step s l t → P t) : P t := by
  induction run with
  | nil => exact initial
  | step _ last ih => exact preserves ih last

theorem mono {step' : σ → L → σ → Prop} (run : Run step s h t)
    (le : ∀ {s l t}, step s l t → step' s l t) : Run step' s h t := by
  induction run with
  | nil => exact .nil
  | step _ last ih => exact .step ih (le last)

/-- Every moment of a run is itself the end of a run. -/
theorem prefix_run (run : Run step s h t) {h' : List (L × σ)} (suffix : h' <:+ h) :
    Run step s h' (stateAfter s h') := by
  induction run with
  | nil =>
      obtain rfl := List.suffix_nil.mp suffix
      exact .nil
  | step earlier last ih =>
      rcases List.suffix_cons_iff.mp suffix with rfl | older
      · exact .step earlier last
      · exact ih older

/-- If a step from a good moment leads to a good one exactly when it is admissible, then
all moments of a run are good exactly when all its steps are admissible. -/
theorem always_iff {Good : List (L × σ) → Prop} {Ok : List (L × σ) → L → Prop}
    (run : Run step s h t) (initial : Good [])
    (exact : ∀ {h t l u}, Run step s h t → Good h → step t l u → (Good ((l, u) :: h) ↔ Ok h l)) :
    (∀ h', h' <:+ h → Good h') ↔ ∀ l u h', (l, u) :: h' <:+ h → Ok h' l := by
  induction run with
  | nil =>
      refine iff_of_true (fun h' suffix => ?_) forall_steps_nil
      obtain rfl := List.suffix_nil.mp suffix
      exact initial
  | @step h t l u earlier last ih =>
      rw [forall_moments_cons, forall_steps_cons, ← ih]
      exact and_congr_left fun good => exact earlier (good h List.suffix_rfl) last

/-- If every good step keeps `I`, a run of good steps does. -/
theorem invariant_of_good {I : σ → Prop} {G : σ → L → σ → Prop} (run : Run step s h t)
    (initial : I s) (keeps : ∀ {t l u}, I t → step t l u → G t l u → I u)
    (good : ∀ l u h', (l, u) :: h' <:+ h → G (stateAfter s h') l u) : I t := by
  induction run with
  | nil => exact initial
  | step earlier last ih =>
      obtain ⟨here, before⟩ := forall_steps_cons.mp good
      rw [earlier.stateAfter_eq] at here
      exact keeps (ih before) last here

/-- If, while `I` holds, a step is good exactly when it is admissible, and a good step keeps
`I`, then all steps of a run are good exactly when all are admissible. -/
theorem steps_iff {I : σ → Prop} {G : σ → L → σ → Prop} {Ok : σ → L → Prop}
    (run : Run step s h t) (initial : I s)
    (exact : ∀ {t l u}, I t → step t l u → (G t l u ↔ Ok t l))
    (keeps : ∀ {t l u}, I t → step t l u → G t l u → I u) :
    (∀ l u h', (l, u) :: h' <:+ h → G (stateAfter s h') l u) ↔
      ∀ l u h', (l, u) :: h' <:+ h → Ok (stateAfter s h') l := by
  induction run with
  | nil => exact iff_of_true forall_steps_nil forall_steps_nil
  | step earlier last ih =>
      rw [forall_steps_cons, forall_steps_cons, ← ih]
      refine and_congr_left fun good => ?_
      rw [earlier.stateAfter_eq]
      exact exact (earlier.invariant_of_good initial keeps good) last

/-- A run may be cut at any of its moments. -/
theorem split {h₂ h₁ : List (L × σ)} (run : Run step s (h₂ ++ h₁) t) :
    Run step s h₁ (stateAfter s h₁) ∧ Run step (stateAfter s h₁) h₂ t := by
  induction h₂ generalizing t with
  | nil =>
      rw [List.nil_append] at run
      rw [run.stateAfter_eq]
      exact ⟨run, .nil⟩
  | cons x h₂ ih =>
      cases run with
      | step earlier last =>
          obtain ⟨first, rest⟩ := ih earlier
          exact ⟨first, rest.step last⟩

/-- Where each step is matched by one of another relation, so is a run. -/
theorem simulate {σ' L' : Type} {step' : σ' → L' → σ' → Prop} {R : σ → σ' → Prop}
    {M : L → L' → Prop} {s' : σ'} (run : Run step s h t) (start : R s s')
    (each : ∀ {s s' l t}, R s s' → step s l t → ∃ l' t', step' s' l' t' ∧ M l l' ∧ R t t') :
    ∃ h' t', Run step' s' h' t' ∧ List.Forall₂ (fun x y => M x.1 y.1) h h' ∧ R t t' := by
  induction run with
  | nil => exact ⟨[], s', .nil, .nil, start⟩
  | step _ last ih =>
      obtain ⟨h', t', run, matched, related⟩ := ih
      obtain ⟨l', u', next, same, related⟩ := each related last
      exact ⟨(l', u') :: h', u', run.step next, .cons same matched, related⟩

end Run

/-- What the steps of a run emit, in their order. -/
def emitted {α : Type} (f : L → List α) : List (L × σ) → List α
  | [] => []
  | (l, _) :: h => emitted f h ++ f l

/-- If every step takes `out` from the front of a content and puts `into` at its end, then
so does a whole run. -/
theorem Run.conserved {α : Type} {step : σ → L → σ → Prop} {s t : σ} {h : List (L × σ)}
    {content : σ → List α} {into out : L → List α} (run : Run step s h t)
    (each : ∀ {s l t}, step s l t → content s ++ into l = out l ++ content t) :
    content s ++ emitted into h = emitted out h ++ content t := by
  induction run with
  | nil => simp [emitted]
  | @step h t l u earlier last ih =>
      calc content s ++ (emitted into h ++ into l)
          = emitted out h ++ (content t ++ into l) := by
            rw [← List.append_assoc, ih, List.append_assoc]
        _ = (emitted out h ++ out l) ++ content u := by rw [each last, List.append_assoc]

/-- The steps of `step` that meet the condition `ok` in the state before them. -/
def Restrict (step : σ → L → σ → Prop) (ok : σ → L → Prop) : σ → L → σ → Prop :=
  fun s l t => ok s l ∧ step s l t

theorem Run.restrict {step : σ → L → σ → Prop} {ok : σ → L → Prop} {s t : σ} {h : List (L × σ)}
    (run : Run step s h t) (each : ∀ l u h', (l, u) :: h' <:+ h → ok (stateAfter s h') l) :
    Run (Restrict step ok) s h t := by
  induction run with
  | nil => exact .nil
  | step earlier last ih =>
      obtain ⟨here, before⟩ := forall_steps_cons.mp each
      rw [earlier.stateAfter_eq] at here
      exact (ih before).step ⟨here, last⟩

end Effect
