import Lra.Effect.Transition
import Lra.Search.FirstFree
import Mathlib

/-!
# The registry of log units

Every unit is registered under a name of its own: a stem and the first index that is free.
The registry shares its units with the users, and an entry is erased when nobody else holds
its unit any more, so a name may be used again while no unit that bears it is held. Until
the entry is erased the unit is still found by its name. Only a copy of a unit takes over
the name, and the entry, of another one.
-/

namespace Lra

open Effect

/-- A `LogUnit` object; the objects are numbered in the order of their creation. -/
abbrev LogUnitPtr := Nat

/-- `logunits_`. An entry may hold a null pointer. -/
abbrev Registry := AList fun _ : String => Option LogUnitPtr

/-- What the constructors of `LogUnit` are called with. An object of the class `LogUnit` goes
to the copy constructor. -/
inductive LogUnitArg where
  | none
  | string (name : String)
  | object (className : String)
  | logUnit (u : LogUnitPtr)

/-- The stem of the name: nothing, a user's string, or the class of an object. A copy has none,
as its name is not made. -/
def LogUnitArg.namePrefix : LogUnitArg → Option String
  | .none => some ""
  | .string name => some ("s_" ++ name)
  | .object className => some ("\x7b" ++ (className ++ "\x7d"))
  | .logUnit _ => Option.none

/-- `std::erase_if` on the pointers. An entry that is erased because nobody else holds its
unit changes no other count, so all may be counted beforehand. -/
def Registry.eraseIf (p : Option LogUnitPtr → Bool) (r : Registry) : Registry where
  entries := r.entries.filter fun e => !p e.2
  nodupKeys := r.nodupKeys.sublist List.filter_sublist

structure LogUnits where
  /-- `name_` of every unit created. -/
  names : List String := []
  logunits : Registry := ∅
  /-- The units users hold, each as often as there are pointers to it. -/
  held : Multiset LogUnitPtr := 0

namespace LogUnits

def getName (s : LogUnits) (u : LogUnitPtr) : Option String := s.names[u]?

/-- `use_count()`: the entries of the registry and the pointers of users. -/
def useCount (s : LogUnits) : Option LogUnitPtr → Nat
  | none => 0
  | some u => s.logunits.entries.countP (fun e => e.2 = some u) + s.held.count u

def nameAt (namePrefix : String) (idx : UInt32) : String :=
  namePrefix ++ "_" ++ toString idx.toNat

/-- At most `fuel` rounds of the loop. -/
def createLogUnitName (s : LogUnits) (namePrefix : String) (fuel : Nat) : Option String :=
  Search.firstFree (fun target => (s.logunits.lookup target).isSome) (nameAt namePrefix) fuel 0

/-- The name that the constructor for the argument leaves in the new unit. -/
def constructedName (s : LogUnits) (fuel : Nat) (arg : LogUnitArg) : Option String :=
  match arg with
  | .logUnit u => s.getName u
  | arg => arg.namePrefix.bind fun namePrefix => s.createLogUnitName namePrefix fuel

/-- The new unit gets its name, is registered under it, and is given to the user. -/
def createLogUnit (s : LogUnits) (name : String) : LogUnits where
  names := s.names ++ [name]
  logunits := s.logunits.insert name (some s.names.length)
  held := s.names.length ::ₘ s.held

/-- `logunits_[name]` adds a null pointer where there is no entry. -/
def subscript (s : LogUnits) (name : String) : LogUnits :=
  if (s.logunits.lookup name).isSome then s
  else { s with logunits := s.logunits.insert name none }

def getLogUnit (s : LogUnits) (str : String) : Option LogUnitPtr × LogUnits :=
  match s.logunits.lookup str with
  | some (some u) => (some u, { s with held := u ::ₘ s.held })
  | _ => (none, s)

def refreshKeys (s : LogUnits) : LogUnits :=
  { s with logunits := s.logunits.eraseIf fun value => s.useCount value = 1 }

def getAllLogUnitKeys (s : LogUnits) : List String × LogUnits :=
  let s := s.refreshKeys
  (s.logunits.keys, s)

/-- `Drop` on the unit `this`. -/
def drop (s : LogUnits) (this : LogUnitPtr) (logunitName : String) : Bool × LogUnits :=
  let name := if logunitName = "" then (s.getName this).getD "" else logunitName
  let s := s.subscript name
  if s.useCount ((s.logunits.lookup name).getD none) = 1 then
    (true, { s with logunits := s.logunits.erase name })
  else
    (false, s)

/-- A user lets one pointer go. -/
def release (s : LogUnits) (u : LogUnitPtr) : LogUnits := { s with held := s.held.erase u }

end LogUnits

inductive LogUnitAct where
  | createLogUnit (arg : LogUnitArg) (name : String)
  | drop (this : LogUnitPtr) (logunitName : String)
  | getAllLogUnitKeys
  | getLogUnit (str : String)
  | copy (u : LogUnitPtr)
  | release (u : LogUnitPtr)

/-- A unit is created as the copy of another one. -/
def LogUnitAct.Copies : LogUnitAct → Prop
  | .createLogUnit (.logUnit _) _ => True
  | _ => False

/-- The steps of users. A unit is used through a pointer that its user holds. -/
inductive LogUnitStep : LogUnits → LogUnitAct → LogUnits → Prop where
  | createLogUnit {s name fuel} (arg : LogUnitArg) : (∀ u, arg = .logUnit u → u ∈ s.held) →
      s.constructedName fuel arg = some name →
      LogUnitStep s (.createLogUnit arg name) (s.createLogUnit name)
  | drop {s this} (logunitName) : this ∈ s.held →
      LogUnitStep s (.drop this logunitName) (s.drop this logunitName).2
  | getAllLogUnitKeys {s} : LogUnitStep s .getAllLogUnitKeys s.getAllLogUnitKeys.2
  | getLogUnit {s} (str) : LogUnitStep s (.getLogUnit str) (s.getLogUnit str).2
  | copy {s u} : u ∈ s.held → LogUnitStep s (.copy u) { s with held := u ::ₘ s.held }
  | release {s u} : u ∈ s.held → LogUnitStep s (.release u) (s.release u)

/-! ### The names -/

namespace LogUnits

theorem nameAt_injective (namePrefix : String) : Function.Injective (nameAt namePrefix) := by
  intro i j same
  have digits : toString i.toNat = toString j.toNat := by
    have lists := congrArg String.toList same
    simp only [nameAt, String.toList_append] at lists
    exact String.toList_inj.mp (List.append_cancel_left lists)
  exact UInt32.toNat_inj.mp (Nat.repr_injective digits)

/-- The name is built with the smallest index that is free, while there are fewer entries
than indices. -/
theorem exists_createLogUnitName (s : LogUnits) (namePrefix : String)
    (few : s.logunits.entries.length < 2 ^ 32) :
    ∃ n < 2 ^ 32,
      (∀ name, (∃ fuel, s.createLogUnitName namePrefix fuel = some name) ↔
        name = nameAt namePrefix (UInt32.ofNat n)) ∧
      s.logunits.lookup (nameAt namePrefix (UInt32.ofNat n)) = none ∧
      ∀ j < n, (s.logunits.lookup (nameAt namePrefix (UInt32.ofNat j))).isSome = true := by
  have keys : s.logunits.keys.length < 2 ^ 32 := by
    rw [AList.keys, List.keys, List.length_map]
    exact few
  have spec : ∀ name, (s.logunits.lookup name).isSome = true ↔ name ∈ s.logunits.keys := by
    intro name
    rw [AList.lookup_isSome, AList.mem_keys]
  obtain ⟨n, inside, ⟨fuel, found⟩, free, before⟩ :=
    Search.exists_firstFree (nameAt_injective namePrefix) spec keys
  refine ⟨n, inside, fun name => ⟨?_, ?_⟩, ?_, before⟩
  · intro ⟨fuel', found'⟩
    exact Search.firstFree_unique found' found
  · intro same
    exact ⟨fuel, same ▸ found⟩
  · exact Option.not_isSome_iff_eq_none.mp (Bool.eq_false_iff.mp free)

/-! ### What holds between two calls -/

/-- An entry names its own unit, and a unit that is held has its entry. -/
structure Inv (s : LogUnits) : Prop where
  named : ∀ {name u}, s.logunits.lookup name = some (some u) → s.getName u = some name
  kept : ∀ {u}, u ∈ s.held → ∃ name, s.logunits.lookup name = some (some u)

section Steps

variable {s t : LogUnits} {u v : LogUnitPtr} {name : String}

theorem Inv.lookup (inv : s.Inv) (held : u ∈ s.held) (called : s.getName u = some name) :
    s.logunits.lookup name = some (some u) := by
  obtain ⟨name', entry⟩ := inv.kept held
  obtain rfl : name' = name := Option.some.inj ((inv.named entry).symm.trans called)
  exact entry

/-- An entry that is the only owner of its unit is not that of a unit held. -/
theorem not_held_of_useCount (entry : s.logunits.lookup name = some (some u))
    (alone : s.useCount (some u) = 1) : u ∉ s.held := by
  intro held
  have inside : ⟨name, some u⟩ ∈ s.logunits.entries := AList.mem_lookup_iff.mp entry
  have counted : 0 < s.logunits.entries.countP (fun e => e.2 = some u) :=
    List.countP_pos_iff.mpr ⟨_, inside, by simp⟩
  have pointers : 0 < s.held.count u := Multiset.count_pos.mpr held
  rw [useCount] at alone
  omega

/-- Entries of units that are not held may go. -/
theorem Inv.shrink (inv : s.Inv) {r : Registry}
    (fewer : ∀ {name value}, r.lookup name = some value → s.logunits.lookup name = some value)
    (left : ∀ {name u}, s.logunits.lookup name = some (some u) → u ∈ s.held →
      r.lookup name = some (some u)) : Inv { s with logunits := r } where
  named entry := inv.named (fewer entry)
  kept held := by
    obtain ⟨name, entry⟩ := inv.kept held
    exact ⟨name, left entry held⟩

theorem Inv.subscript (inv : s.Inv) (name : String) : (s.subscript name).Inv := by
  unfold LogUnits.subscript
  split
  · exact inv
  · next absent =>
      have none := Option.not_isSome_iff_eq_none.mp absent
      constructor
      · intro name' u entry
        by_cases same : name' = name
        · subst same
          rw [AList.lookup_insert] at entry
          cases entry
        · rw [AList.lookup_insert_ne same] at entry
          exact inv.named entry
      · intro u held
        obtain ⟨name', entry⟩ := inv.kept held
        refine ⟨name', ?_⟩
        rw [AList.lookup_insert_ne (fun same => by rw [same, none] at entry; cases entry)]
        exact entry

theorem Inv.drop (inv : s.Inv) (this : LogUnitPtr) (logunitName : String) :
    (s.drop this logunitName).2.Inv := by
  unfold LogUnits.drop
  generalize (if logunitName = "" then (s.getName this).getD "" else logunitName) = name
  have subscripted := inv.subscript name
  dsimp only
  generalize s.subscript name = s at subscripted ⊢
  split
  · next alone =>
      apply subscripted.shrink
      · intro name' value entry
        have other : name' ≠ name := by
          intro same
          rw [same, AList.lookup_erase] at entry
          cases entry
        rwa [AList.lookup_erase_ne other] at entry
      · intro name' u entry held
        rw [AList.lookup_erase_ne]
        · exact entry
        · intro same
          rw [← same, entry] at alone
          exact not_held_of_useCount entry alone held
  · exact subscripted

theorem lookup_eraseIf {r : Registry} {p : Option LogUnitPtr → Bool}
    {value : Option LogUnitPtr} :
    (r.eraseIf p).lookup name = some value ↔ r.lookup name = some value ∧ p value = false := by
  have mem : ∀ {r : Registry}, r.lookup name = some value ↔ ⟨name, value⟩ ∈ r.entries :=
    AList.mem_lookup_iff
  rw [mem, mem, Registry.eraseIf, List.mem_filter]
  simp

theorem Inv.refreshKeys (inv : s.Inv) : s.refreshKeys.Inv := by
  apply inv.shrink
  · intro name value entry
    exact (lookup_eraseIf.mp entry).1
  · intro name u entry held
    refine lookup_eraseIf.mpr ⟨entry, ?_⟩
    simpa using fun alone => not_held_of_useCount entry alone held

theorem Inv.getLogUnit (inv : s.Inv) (str : String) : (s.getLogUnit str).2.Inv := by
  unfold LogUnits.getLogUnit
  split
  · next u entry =>
      refine ⟨inv.named, fun {v} held => ?_⟩
      cases Multiset.mem_cons.mp held with
      | inl same => exact ⟨str, same ▸ entry⟩
      | inr before => exact inv.kept before
  · exact inv

/-- A free name is given to a new unit. -/
theorem Inv.createLogUnit (inv : s.Inv) (free : s.logunits.lookup name = none) :
    (s.createLogUnit name).Inv := by
  constructor
  · intro name' u entry
    by_cases same : name' = name
    · subst same
      rw [LogUnits.createLogUnit, AList.lookup_insert] at entry
      cases entry
      simp [getName, LogUnits.createLogUnit]
    · rw [LogUnits.createLogUnit, AList.lookup_insert_ne same] at entry
      have called := inv.named entry
      have older : u < s.names.length := (List.getElem?_eq_some_iff.mp called).1
      rw [getName, LogUnits.createLogUnit, List.getElem?_append_left older]
      exact called
  · intro u held
    cases Multiset.mem_cons.mp held with
    | inl new =>
        subst new
        exact ⟨name, AList.lookup_insert _⟩
    | inr before =>
        obtain ⟨name', entry⟩ := inv.kept before
        refine ⟨name', ?_⟩
        have other : name' ≠ name := by
          intro same
          rw [same, free] at entry
          cases entry
        exact (AList.lookup_insert_ne other).trans entry

/-- A name that is made is free. -/
theorem lookup_of_constructedName {fuel : Nat} {arg : LogUnitArg} (own : ∀ u, arg ≠ .logUnit u)
    (found : s.constructedName fuel arg = some name) : s.logunits.lookup name = none := by
  have made : ∃ namePrefix, s.createLogUnitName namePrefix fuel = some name := by
    cases arg with
    | logUnit u => exact absurd rfl (own u)
    | none => exact ⟨_, found⟩
    | string str => exact ⟨_, found⟩
    | object className => exact ⟨_, found⟩
  obtain ⟨namePrefix, made⟩ := made
  have free := Search.not_taken_of_firstFree made
  exact Option.not_isSome_iff_eq_none.mp (Bool.eq_false_iff.mp free)

theorem own_of_not_copies {arg : LogUnitArg}
    (own : ¬ LogUnitAct.Copies (.createLogUnit arg name)) (u : LogUnitPtr) :
    arg ≠ .logUnit u := by
  rintro rfl
  exact own trivial

theorem Inv.step {l : LogUnitAct} (inv : s.Inv) (own : ¬ l.Copies) (step : LogUnitStep s l t) :
    t.Inv := by
  cases step with
  | createLogUnit arg _ found =>
      exact inv.createLogUnit (lookup_of_constructedName (own_of_not_copies own) found)
  | drop logunitName _ => exact inv.drop _ logunitName
  | getAllLogUnitKeys => exact inv.refreshKeys
  | getLogUnit str => exact inv.getLogUnit str
  | @copy u held =>
      refine ⟨inv.named, fun {v} member => ?_⟩
      cases Multiset.mem_cons.mp member with
      | inl same => exact inv.kept (same ▸ held)
      | inr before => exact inv.kept before
  | release held => exact ⟨inv.named, fun member => inv.kept (Multiset.mem_of_mem_erase member)⟩

theorem inv_of_run {h : List (LogUnitAct × LogUnits)} (run : Run LogUnitStep {} h s)
    (own : ∀ x ∈ h, ¬ x.1.Copies) : s.Inv := by
  induction run with
  | nil =>
      exact ⟨fun entry => by simp at entry, fun held => absurd held (Multiset.notMem_zero _)⟩
  | step _ last ih =>
      rw [List.forall_mem_cons] at own
      exact (ih own.2).step own.1 last

/-! ### Held units and their names -/

theorem Inv.eq_of_getName (inv : s.Inv) (held : u ∈ s.held) (held' : v ∈ s.held)
    (same : s.getName u = s.getName v) : u = v := by
  obtain ⟨name, entry⟩ := inv.kept held
  have entry' := inv.lookup held' (same.symm.trans (inv.named entry))
  cases entry.symm.trans entry'
  rfl

/-- The registry has an entry with the unit. -/
def Registered (s : LogUnits) (u : LogUnitPtr) : Prop :=
  ∃ key, s.logunits.lookup key = some (some u)

theorem getLogUnit_eq_some_iff :
    (s.getLogUnit name).1 = some u ↔ s.logunits.lookup name = some (some u) := by
  unfold LogUnits.getLogUnit
  split
  · next v entry => simp [entry]
  · next missing => exact iff_of_false nofun (missing u)

theorem Inv.getLogUnit_iff_registered (inv : s.Inv) :
    (s.getLogUnit name).1 = some u ↔ s.Registered u ∧ s.getName u = some name := by
  rw [getLogUnit_eq_some_iff]
  constructor
  · intro entry
    exact ⟨⟨name, entry⟩, inv.named entry⟩
  · intro ⟨⟨key, entry⟩, called⟩
    obtain rfl : key = name := Option.some.inj ((inv.named entry).symm.trans called)
    exact entry

/-- No unit has two entries. -/
theorem Inv.countP_eq_one (inv : s.Inv) (entry : s.logunits.lookup name = some (some u)) :
    s.logunits.entries.countP (fun e => e.2 = some u) = 1 := by
  have inside : ⟨name, some u⟩ ∈ s.logunits.entries := AList.mem_lookup_iff.mp entry
  have one := List.count_eq_one_of_mem s.logunits.nodupKeys.nodup inside
  rw [List.count_eq_countP] at one
  rw [← one]
  refine List.countP_congr fun e mem => ?_
  simp only [decide_eq_true_eq, beq_iff_eq]
  constructor
  · intro same
    obtain ⟨key, value⟩ := e
    cases same
    have other : s.logunits.lookup key = some (some u) := AList.mem_lookup_iff.mpr mem
    obtain rfl : key = name :=
      Option.some.inj ((inv.named other).symm.trans (inv.named entry))
    rfl
  · rintro rfl
    rfl

/-- The entries that survive a refresh are those of the units that are held. -/
theorem Inv.getLogUnit_refreshed_iff (inv : s.Inv) :
    (s.getAllLogUnitKeys.2.getLogUnit name).1 = some u ↔
      u ∈ s.held ∧ s.getName u = some name := by
  have kept : (s.getAllLogUnitKeys.2.getLogUnit name).1 = some u ↔
      s.logunits.lookup name = some (some u) ∧ s.useCount (some u) ≠ 1 := by
    rw [getLogUnit_eq_some_iff]
    exact lookup_eraseIf.trans (by simp)
  rw [kept]
  constructor
  · intro ⟨entry, shared⟩
    rw [useCount, inv.countP_eq_one entry] at shared
    exact ⟨Multiset.count_pos.mp (by omega), inv.named entry⟩
  · intro ⟨held, called⟩
    have entry := inv.lookup held called
    exact ⟨entry, fun alone => not_held_of_useCount entry alone held⟩

end Steps

end LogUnits

/-- After any calls a name is made with the smallest free index. If no unit was made as the copy
of another one, units that are held have different names, `getLogUnit` returns the registered
unit of a name, each unit that is held is registered, and after a refresh no other one is. -/
theorem logUnits_exact {h : List (LogUnitAct × LogUnits)} {s : LogUnits}
    (run : Run LogUnitStep {} h s) :
    (s.logunits.entries.length < 2 ^ 32 → ∀ namePrefix, ∃ n < 2 ^ 32,
      (∀ name, (∃ fuel, s.createLogUnitName namePrefix fuel = some name) ↔
        name = LogUnits.nameAt namePrefix (UInt32.ofNat n)) ∧
      s.logunits.lookup (LogUnits.nameAt namePrefix (UInt32.ofNat n)) = none ∧
      ∀ j < n,
        (s.logunits.lookup (LogUnits.nameAt namePrefix (UInt32.ofNat j))).isSome = true) ∧
    ((∀ x ∈ h, ¬ x.1.Copies) →
      (∀ u ∈ s.held, ∀ v ∈ s.held, s.getName u = s.getName v → u = v) ∧
      (∀ name u, (s.getLogUnit name).1 = some u ↔ s.Registered u ∧ s.getName u = some name) ∧
      (∀ u ∈ s.held, s.Registered u) ∧
      ∀ name u, (s.getAllLogUnitKeys.2.getLogUnit name).1 = some u ↔
        u ∈ s.held ∧ s.getName u = some name) := by
  refine ⟨fun few namePrefix => LogUnits.exists_createLogUnitName s namePrefix few, ?_⟩
  intro own
  have inv := LogUnits.inv_of_run run own
  refine ⟨?_, ?_, ?_, ?_⟩
  · intro u held v held' same
    exact inv.eq_of_getName held held' same
  · intro name u
    exact inv.getLogUnit_iff_registered
  · intro u held
    exact inv.kept held
  · intro name u
    exact inv.getLogUnit_refreshed_iff

/-- Of two units with one stem the first is let go and its entry erased, and a third one
takes its name. -/
theorem logUnits_exact_reuse :
    ∃ h s, Run LogUnitStep {} h s ∧ (∀ x ∈ h, ¬ x.1.Copies) ∧ h.length = 5 ∧ s.held = {2, 1} ∧
      s.getName 2 = some "s_a_0" ∧
      (∀ u ∈ s.held, ∀ v ∈ s.held, s.getName u = s.getName v → u = v) ∧
      (∀ name u, (s.getLogUnit name).1 = some u ↔ s.Registered u ∧ s.getName u = some name) ∧
      ∀ u ∈ s.held, s.Registered u := by
  have first : Run LogUnitStep {} _ _ :=
    .step .nil (@LogUnitStep.createLogUnit {} "s_a_0" 1 (.string "a") nofun rfl)
  have second := Run.step first
    (@LogUnitStep.createLogUnit _ "s_a_1" 2 (.string "a") nofun (by decide +kernel))
  have released := Run.step second (.release (u := 0) (by decide +kernel))
  have erased := Run.step released .getAllLogUnitKeys
  have run := Run.step erased
    (@LogUnitStep.createLogUnit _ "s_a_0" 1 (.string "a") nofun (by decide +kernel))
  obtain ⟨different, found, registered, _⟩ :=
    (logUnits_exact run).2 (by simp [LogUnitAct.Copies])
  exact ⟨_, _, run, by simp [LogUnitAct.Copies], rfl, by decide +kernel, by decide +kernel,
    different, found, registered⟩

/-- A unit that nobody holds any more is found by its name; and a copy of a unit bears the name
of the other one while both are held. -/
theorem not_logUnits_held :
    (¬ ∀ h s, Run LogUnitStep {} h s → ∀ name u,
      (s.getLogUnit name).1 = some u ↔ u ∈ s.held ∧ s.getName u = some name) ∧
    ¬ ∀ h s, Run LogUnitStep {} h s → ∀ u ∈ s.held, ∀ v ∈ s.held,
      s.getName u = s.getName v → u = v := by
  have first : Run LogUnitStep {} _ _ :=
    .step .nil (@LogUnitStep.createLogUnit {} "_0" 1 .none nofun rfl)
  have only : ∀ v, LogUnitArg.logUnit 0 = .logUnit v →
      v ∈ (LogUnits.createLogUnit {} "_0").held := by
    rintro _ ⟨⟩
    decide +kernel
  constructor
  · intro exact_
    have released := Run.step first (.release (u := 0) (by decide +kernel))
    have found := (exact_ _ _ released "_0" 0).mp (by decide +kernel)
    exact absurd found.1 (by decide +kernel)
  · intro unique
    have copied := Run.step first
      (@LogUnitStep.createLogUnit _ "_0" 1 (.logUnit 0) only (by decide +kernel))
    have same := unique _ _ copied 0 (by decide +kernel) 1 (by decide +kernel) (by decide +kernel)
    exact absurd same (by decide)

namespace LogUnits

/-! ### Dropping -/

/-- The name `Drop` is about: its argument, or the unit's own where that is empty. -/
def dropName (s : LogUnits) (this : LogUnitPtr) (logunitName : String) : String :=
  if logunitName = "" then (s.getName this).getD "" else logunitName

/-- `Drop` takes away its own entry at most, of a unit that no user holds, and a name that is
not registered changes nothing that anybody could see. -/
structure DropRight (s : LogUnits) (this : LogUnitPtr) (logunitName : String) : Prop where
  others : ∀ name ≠ s.dropName this logunitName,
    (s.drop this logunitName).2.logunits.lookup name = s.logunits.lookup name
  own : (s.drop this logunitName).2.logunits.lookup (s.dropName this logunitName) =
      s.logunits.lookup (s.dropName this logunitName) ∨
    (s.drop this logunitName).2.logunits.lookup (s.dropName this logunitName) = none ∧
      ∀ u ∈ s.held, s.logunits.lookup (s.dropName this logunitName) ≠ some (some u)
  absent : s.logunits.lookup (s.dropName this logunitName) = none →
    (s.drop this logunitName).1 = false ∧
    (s.drop this logunitName).2.logunits = s.logunits ∧
    (s.drop this logunitName).2.getAllLogUnitKeys.1 = s.getAllLogUnitKeys.1 ∧
    ∀ namePrefix fuel, (s.drop this logunitName).2.createLogUnitName namePrefix fuel =
      s.createLogUnitName namePrefix fuel

section Drop

variable {s t : LogUnits} {this : LogUnitPtr} {logunitName name : String}

theorem drop_of_registered {value : Option LogUnitPtr}
    (entry : s.logunits.lookup (s.dropName this logunitName) = some value) :
    s.drop this logunitName =
      if s.useCount value = 1 then
        (true, { s with logunits := s.logunits.erase (s.dropName this logunitName) })
      else (false, s) := by
  have same : s.subscript (s.dropName this logunitName) = s := by simp [subscript, entry]
  unfold drop
  rw [← dropName]
  dsimp only
  rw [same, entry, Option.getD_some]

/-- The lookup adds a null pointer, which nobody counts. -/
theorem drop_of_absent (absent : s.logunits.lookup (s.dropName this logunitName) = none) :
    s.drop this logunitName =
      (false, { s with logunits := s.logunits.insert (s.dropName this logunitName) none }) := by
  have added : s.subscript (s.dropName this logunitName) =
      { s with logunits := s.logunits.insert (s.dropName this logunitName) none } := by
    simp [subscript, absent]
  unfold drop
  rw [← dropName]
  dsimp only
  rw [added, AList.lookup_insert, Option.getD_some]
  simp [useCount]

theorem dropRight_iff :
    DropRight s this logunitName ↔
      (s.logunits.lookup (s.dropName this logunitName)).isSome = true := by
  constructor
  · intro right
    by_contra missing
    have absent := Option.not_isSome_iff_eq_none.mp missing
    obtain ⟨_, same, _⟩ := right.absent absent
    have added := congrArg (AList.lookup (s.dropName this logunitName)) same
    rw [drop_of_absent absent, absent, AList.lookup_insert] at added
    cases added
  · intro registered
    obtain ⟨value, entry⟩ := Option.isSome_iff_exists.mp registered
    have dropped := drop_of_registered entry
    by_cases alone : s.useCount value = 1
    · rw [if_pos alone] at dropped
      constructor
      · intro name other
        rw [dropped]
        exact AList.lookup_erase_ne other
      · right
        constructor
        · rw [dropped]
          exact AList.lookup_erase ..
        · intro u held named
          obtain rfl : value = some u := Option.some.inj (entry.symm.trans named)
          exact not_held_of_useCount named alone held
      · intro absent
        rw [entry] at absent
        cases absent
    · rw [if_neg alone] at dropped
      constructor
      · intro name _
        rw [dropped]
      · left
        rw [dropped]
      · intro absent
        rw [entry] at absent
        cases absent

/-- One unit, and a name that was never registered: it is not given to the next unit. -/
theorem not_dropRight_typo :
    ¬ ∀ (s : LogUnits) (this : LogUnitPtr) (logunitName : String),
      DropRight s this logunitName := by
  intro right
  obtain ⟨_, _, _, given⟩ :=
    (right (createLogUnit {} "s_a_0") 0 "s_b_0").absent (by decide +kernel)
  have after : (drop (createLogUnit {} "s_a_0") 0 "s_b_0").2.createLogUnitName "s_b" 2 =
      some "s_b_1" := by decide +kernel
  have before : (createLogUnit {} "s_a_0").createLogUnitName "s_b" 2 = some "s_b_0" := by
    decide +kernel
  have same := given "s_b" 2
  rw [after, before] at same
  exact absurd (Option.some.inj same) (by decide)

/-- A null pointer is in the registry for good: no call erases it, and only a copy of a unit
of that name replaces it. -/
theorem null_kept_step {l : LogUnitAct} (own : ¬ l.Copies) (step : LogUnitStep s l t)
    (null : s.logunits.lookup name = some none) : t.logunits.lookup name = some none := by
  cases step with
  | @createLogUnit name' fuel arg _ found =>
      have free := lookup_of_constructedName (own_of_not_copies own) found
      have other : name ≠ name' := by
        intro same
        rw [← same, null] at free
        cases free
      exact (AList.lookup_insert_ne other).trans null
  | @drop this logunitName _ =>
      cases entry : s.logunits.lookup (s.dropName this logunitName) with
      | none =>
          have other : name ≠ s.dropName this logunitName := by
            intro same
            rw [← same, null] at entry
            cases entry
          rw [drop_of_absent entry]
          exact (AList.lookup_insert_ne other).trans null
      | some value =>
          rw [drop_of_registered entry]
          split
          · next alone =>
              have other : name ≠ s.dropName this logunitName := by
                intro same
                rw [← same, null] at entry
                cases entry
                cases alone
              exact (AList.lookup_erase_ne other).trans null
          · exact null
  | getAllLogUnitKeys => exact lookup_eraseIf.mpr ⟨null, by simp [useCount]⟩
  | getLogUnit str =>
      unfold getLogUnit
      split
      · exact null
      · exact null
  | copy _ => exact null
  | release _ => exact null

/-- So after `Drop` with a name that is not registered the name is listed ever after, and no
unit is given it. -/
theorem null_kept {h : List (LogUnitAct × LogUnits)}
    (run : Run LogUnitStep (s.drop this logunitName).2 h t) (own : ∀ x ∈ h, ¬ x.1.Copies)
    (absent : s.logunits.lookup (s.dropName this logunitName) = none) :
    s.dropName this logunitName ∈ t.getAllLogUnitKeys.1 ∧
      ∀ namePrefix fuel,
        t.createLogUnitName namePrefix fuel ≠ some (s.dropName this logunitName) := by
  have null : t.logunits.lookup (s.dropName this logunitName) = some none := by
    induction run with
    | nil =>
        rw [drop_of_absent absent]
        exact AList.lookup_insert ..
    | step _ last ih =>
        rw [List.forall_mem_cons] at own
        exact null_kept_step own.1 last (ih own.2)
  constructor
  · have listed := null_kept_step id .getAllLogUnitKeys null
    have entry : (t.getAllLogUnitKeys.2.logunits.lookup (s.dropName this logunitName)).isSome := by
      rw [listed]
      rfl
    exact AList.mem_keys.mp (AList.lookup_isSome.mp entry)
  · intro namePrefix fuel found
    have free := Search.not_taken_of_firstFree found
    rw [null] at free
    cases free

end Drop

end LogUnits

end Lra
