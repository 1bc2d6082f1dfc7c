import Lra.Server.DriveRace

/-!
# The three drives keep in step

The handler of `drvDriveUpdate` compares the wish with the drive on `x` alone. That is
enough: a job, whatever becomes of its transfers, treats the three cached states alike,
so they agree whenever no job is in progress.
-/

namespace Lra

open Effect

namespace Server

/-- One job, run to completion whatever becomes of its transfers. -/
def Attempted (w : World) (j : Job) (w' : World) : Prop :=
  ∃ tr, Exec attempted j.code w tr () w'

theorem Attempted.flags {w w' : World} {j : Job} (h : Attempted w j w') :
    w'.flag = j.flags w.flag := by
  obtain ⟨tr, run⟩ := h
  exact (j.marks w.flag).exec rfl run

theorem Attempted.exists_of (w : World) (j : Job) : ∃ w', Attempted w j w' := by
  obtain ⟨tr, run⟩ := server_within_attempted.exec j.code w
  exact ⟨_, tr, run⟩

/-- `Controller::Init` has returned, whatever became of its transfers. -/
def Initialised (w : World) : Prop :=
  ∃ board tr, Exec faulty Controller.init { World.initial with board } tr () w

theorem Initialised.flag {w : World} (h : Initialised w) (f : Flag) : w.flag f = false := by
  obtain ⟨board, tr, run⟩ := h
  rw [(Controller.Call.marks .init fun _ => false).exec rfl run]
  cases f <;> rfl

theorem initialised_anyhow : Initialised initialised := by
  obtain ⟨tr, run⟩ := bench_within_faulty.exec Controller.init World.initial
  exact ⟨World.initial.board, tr, run⟩

/-- `F` and `G` differ by one function of the cached state, the same for each drive. -/
def Alike (F G : Flags) : Prop := ∃ g : Bool → Bool, ∀ ax, G (.run ax) = g (F (.run ax))

theorem Alike.of_run_eq {F G : Flags} (same : ∀ ax, G (.run ax) = F (.run ax)) : Alike F G :=
  ⟨id, same⟩

theorem alike_call (c : Controller.Call) (F : Flags) : Alike F (c.flags F) :=
  ⟨c.runs, fun _ => rfl⟩

theorem alike_event (e : Event) (F : Flags) : Alike F (e.flags F) := by
  cases e with
  | disconnect n =>
      simp only [Event.flags]
      split
      · exact ⟨fun _ => false, fun _ => rfl⟩
      · exact .of_run_eq fun _ => rfl
  | drvDriveUpdate toRun =>
      simp only [Event.flags]
      split
      · exact alike_call _ _
      · exact .of_run_eq fun _ => rfl
  | calibrationRequire => exact ⟨fun _ => false, fun _ => rfl⟩
  | _ => exact .of_run_eq fun _ => rfl

theorem alike_work (F : Flags) : Alike F (workFlags F) := by
  unfold workFlags
  split
  · exact alike_call _ _
  · split
    · exact alike_call .runDrv F
    · exact .of_run_eq fun _ => rfl

theorem alike_job (j : Job) (F : Flags) : Alike F (j.flags F) := by
  cases j with
  | event e => exact alike_event e F
  | trigLoopExpired => exact .of_run_eq fun _ => rfl
  | tick =>
      simp only [Job.flags]
      split
      · exact alike_work _
      · exact .of_run_eq fun _ => rfl

theorem Attempted.uniform {w w' : World} {j : Job} (h : Attempted w j w') (uniform : Uniform w) :
    Uniform w' := by
  obtain ⟨g, alike⟩ := alike_job j w.flag
  intro ax
  rw [h.flags, alike, alike, uniform ax]

/-- Where the states agree, comparing the wish with one of them is enough. -/
theorem drvDriveUpdate_flags {F : Flags} (same : ∀ ax, F (.run ax) = F (.run .x)) (b : Bool)
    (ax : Axis) : (Event.drvDriveUpdate b).flags F (.run ax) = b := by
  cases b <;> cases onX : F (.run .x) <;>
    simp [Event.flags, Controller.Call.flags, Controller.Call.runs, onX, same ax]

theorem uniform_of_run {w₀ w : World} {h : List (Job × World)} (start : Initialised w₀)
    (run : Run Attempted w₀ h w) : Uniform w :=
  run.invariant (fun _ => (start.flag _).trans (start.flag _).symm)
    fun uniform step => step.uniform uniform

/-- Between jobs the three drives agree, and after a `drvDriveUpdate` they are as it asked. -/
theorem drives_in_step {w₀ w : World} {h : List (Job × World)} (start : Initialised w₀)
    (run : Run Attempted w₀ h w) :
    (∀ h', h' <:+ h → ∀ ax ax', (stateAfter w₀ h').flag (.run ax) =
      (stateAfter w₀ h').flag (.run ax')) ∧
    ∀ b u h', (.event (.drvDriveUpdate b), u) :: h' <:+ h → ∀ ax, u.flag (.run ax) = b := by
  constructor
  · intro h' suffix ax ax'
    have uniform := uniform_of_run start (run.prefix_run suffix)
    exact (uniform ax).trans (uniform ax').symm
  · intro b u h' suffix ax
    cases run.prefix_run suffix with
    | step earlier last =>
        rw [last.flags]
        exact drvDriveUpdate_flags (uniform_of_run start earlier) b ax

/-- A client starts the drives, and a calibration stops them. -/
theorem drives_in_step_calibration :
    ∃ w₀ w₁ w₂, Initialised w₀ ∧ Attempted w₀ (.event (.drvDriveUpdate true)) w₁ ∧
      Attempted w₁ (.event .calibrationRequire) w₂ ∧
      (∀ ax, w₁.flag (.run ax) = true) ∧ ∀ ax ax', w₂.flag (.run ax) = w₂.flag (.run ax') := by
  have start := initialised_anyhow
  obtain ⟨w₁, first⟩ := Attempted.exists_of initialised (.event (.drvDriveUpdate true))
  obtain ⟨w₂, second⟩ := Attempted.exists_of w₁ (.event .calibrationRequire)
  have run := (Run.nil.step first).step second
  have both := drives_in_step start run
  exact ⟨_, _, _, start, first, second, both.2 true _ _ (List.suffix_cons _ _),
    both.1 _ List.suffix_rfl⟩

end Server

end Lra
