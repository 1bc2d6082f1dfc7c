import Lra.Effect.Fallible
import Lra.Search.Window
import Lra.Usb.FileCallback

/-!
# What the realtime plot shows

The lists a callback keeps are the columns of one table of samples. A line that is not a
sample is refused and changes nothing, and a sample slides the window of the last seconds on.
-/

namespace Lra

open Effect Search Text

namespace RealtimePlot

/-- The number in each field of a line. -/
abbrev Sample := String → ℚ

/-- The fields in the order of the line, and the keys of the dictionary in its own. -/
structure Table where
  fields : List String
  keys : List String
  perm : fields.Perm keys
  nodup : fields.Nodup
  time : "t" ∈ fields

namespace Table

def pwm : Table where
  fields := ["t", "x_cmd", "x_freq", "y_cmd", "y_freq", "z_cmd", "z_freq"]
  keys := ["t", "x_cmd", "y_cmd", "z_cmd", "x_freq", "y_freq", "z_freq"]
  perm := by decide
  nodup := by decide
  time := by decide

def acc : Table where
  fields := ["t", "x", "y", "z"]
  keys := ["t", "x", "y", "z"]
  perm := by decide
  nodup := by decide
  time := by decide

variable (float : Line → Option ℚ) (c : Table)

def callback : Callback := fileCallback float c.fields c.keys

/-- The sample in a line, if it has a number for each field and nothing else. -/
def sample (line : Line) : Option Sample :=
  let values := (strip line).splitOn ','
  if values.length = c.fields.length then
    (values.mapM float).map fun numbers key => ((c.fields.zip numbers).lookup key).getD 0
  else none

/-- The lists of the dictionary, as the columns of some samples. -/
def columns (samples : List Sample) : Data := fun key =>
  if key ∈ c.keys then samples.map (· key) else []

end Table

/-! ### Appending and removing -/

section Lists

variable {data : Data} {keys : List String}

theorem lookup_eq_none_iff_not_mem {pairs : List (String × ℚ)} {key : String} :
    pairs.lookup key = none ↔ key ∉ pairs.map Prod.fst := by
  rw [List.lookup_eq_none_iff]
  constructor
  · intro apart member
    obtain ⟨pair, here, rfl⟩ := List.mem_map.mp member
    exact absurd rfl (bne_iff_ne.mp (apart pair here))
  · intro new pair here
    have old : pair.1 ∈ pairs.map Prod.fst := List.mem_map_of_mem here
    rw [bne_iff_ne]
    rintro rfl
    exact new old

/-- Every list gets what there is for its key. -/
theorem forM_append {f : String × ℚ → EStateM PyError Data Unit} {pairs : List (String × ℚ)}
    (appends : ∀ key value, f (key, value) = modify (append key value))
    (nodup : (pairs.map Prod.fst).Nodup) (data : Data) :
    pairs.forM f data = .ok () fun key => data key ++ (pairs.lookup key).toList := by
  induction pairs generalizing data with
  | nil =>
      refine congrArg (EStateM.Result.ok ()) (funext fun key => ?_)
      exact (List.append_nil (data key)).symm
  | cons pair pairs ih =>
      obtain ⟨key, value⟩ := pair
      obtain ⟨new, rest⟩ := List.nodup_cons.mp nodup
      have first : f (key, value) data = .ok () (append key value data) := by
        rw [appends]
        rfl
      show (f (key, value) >>= fun _ => pairs.forM f) data = _
      rw [bind_of_ok first, ih rest]
      refine congrArg (EStateM.Result.ok ()) (funext fun key' => ?_)
      by_cases same : key' = key
      · subst same
        rw [append, Function.update_self, lookup_eq_none_iff_not_mem.mpr new, List.lookup_cons_self]
        exact List.append_nil _
      · have other : (key' == key) = false := beq_false_of_ne same
        rw [append, Function.update_of_ne same, List.lookup_cons, other]

theorem pop_eq {key : String} {x : ℚ} {rest : List ℚ} (filled : data key = x :: rest) :
    pop key data = .ok () (Function.update data key rest) := by
  rw [pop, get_bind, filled]
  rfl

/-- Every list that is popped loses its first element. -/
theorem forM_pop (nodup : keys.Nodup) (filled : ∀ key ∈ keys, data key ≠ []) :
    keys.forM pop data
      = .ok () fun key => if key ∈ keys then (data key).tail else data key := by
  induction keys generalizing data with
  | nil =>
      refine congrArg (EStateM.Result.ok ()) (funext fun key => ?_)
      exact (if_neg List.not_mem_nil).symm
  | cons key keys ih =>
      obtain ⟨new, rest⟩ := List.nodup_cons.mp nodup
      obtain ⟨x, xs, here⟩ := List.exists_cons_of_ne_nil (filled key List.mem_cons_self)
      have others : ∀ key' ∈ keys, Function.update data key xs key' = data key' := by
        intro key' member
        have other : key' ≠ key := by
          rintro rfl
          exact new member
        rw [Function.update_of_ne other]
      show (pop key >>= fun _ => keys.forM pop) data = _
      rw [bind_of_ok (pop_eq here), ih rest]
      · refine congrArg (EStateM.Result.ok ()) (funext fun key' => ?_)
        by_cases same : key' = key
        · subst same
          rw [if_neg new, if_pos List.mem_cons_self, Function.update_self, here, List.tail_cons]
        · by_cases member : key' ∈ keys
          · rw [if_pos member, if_pos (List.mem_cons_of_mem _ member), others key' member]
          · rw [if_neg member, if_neg (by simp [same, member]), Function.update_of_ne same]
      · intro key' member
        rw [others key' member]
        exact filled key' (List.mem_cons_of_mem _ member)

end Lists

/-! ### The table -/

namespace Table

variable {float : Line → Option ℚ} {c : Table} {samples : List Sample} {x y : Sample}
  {key : String}

theorem columns_of_mem (member : key ∈ c.keys) : c.columns samples key = samples.map (· key) :=
  if_pos member

theorem columns_of_not_mem (other : key ∉ c.keys) : c.columns samples key = [] := if_neg other

theorem time_mem (c : Table) : "t" ∈ c.keys := c.perm.mem_iff.mp c.time

/-- The numbers of a line become the last row. -/
theorem append_columns {f : String × ℚ → EStateM PyError Data Unit} {numbers : List ℚ}
    (appends : ∀ key value, f (key, value) = modify (append key value))
    (length : numbers.length = c.fields.length) :
    (c.fields.zip numbers).forM f (c.columns samples)
      = .ok () (c.columns (samples ++
        [fun key => ((c.fields.zip numbers).lookup key).getD 0])) := by
  have names : (c.fields.zip numbers).map Prod.fst = c.fields := List.map_fst_zip length.ge
  rw [forM_append appends (names.symm ▸ c.nodup)]
  refine congrArg (EStateM.Result.ok ()) (funext fun key => ?_)
  have named : (c.fields.zip numbers).lookup key = none ↔ key ∉ c.keys := by
    rw [lookup_eq_none_iff_not_mem, names, c.perm.mem_iff]
  by_cases member : key ∈ c.keys
  · obtain ⟨value, found⟩ := Option.ne_none_iff_exists'.mp (mt named.mp (not_not_intro member))
    rw [columns_of_mem member, columns_of_mem member, List.map_append, List.map_singleton]
    dsimp only
    rw [found]
    rfl
  · rw [columns_of_not_mem member, columns_of_not_mem member, named.mpr member]
    rfl

/-- One round of the loop removes the first row. -/
theorem pop_columns : c.keys.forM pop (c.columns (y :: samples)) = .ok () (c.columns samples) := by
  rw [forM_pop (c.perm.nodup_iff.mp c.nodup)]
  · refine congrArg (EStateM.Result.ok ()) (funext fun key => ?_)
    by_cases member : key ∈ c.keys
    · rw [if_pos member, columns_of_mem member, columns_of_mem member]
      rfl
    · rw [if_neg member, columns_of_not_mem member, columns_of_not_mem member]
  · intro key member
    rw [columns_of_mem member]
    exact List.cons_ne_nil _ _

/-- The test compares the first row with the last. -/
theorem outOfWindow_columns (last : (y :: samples).getLast? = some x) :
    outOfWindow (c.columns (y :: samples))
      = .ok (isBehind (· "t") timeWindow x y) (c.columns (y :: samples)) := by
  have newest : (y "t" :: samples.map (· "t")).getLastD (y "t") = x "t" := by
    have whole : y "t" :: samples.map (· "t") = (y :: samples).map (· "t") := rfl
    rw [whole, List.getLastD_eq_getLast?, List.getLast?_map, last]
    rfl
  rw [outOfWindow, get_bind, columns_of_mem c.time_mem, List.map_cons]
  dsimp only
  rw [newest]
  rfl

/-- As many rounds as there are rows are enough, and the loop ends where its test fails. -/
theorem trim_columns {n : Nat} (last : samples.getLast? = some x) (enough : samples.length ≤ n) :
    trim c.keys n (c.columns samples)
      = .ok () (c.columns (samples.dropWhile (isBehind (· "t") timeWindow x))) := by
  induction samples generalizing n with
  | nil => cases last
  | cons y samples ih =>
      obtain ⟨n, rfl⟩ : ∃ m, n = m + 1 := ⟨n - 1, by rw [List.length_cons] at enough; omega⟩
      rw [trim, bind_of_ok (outOfWindow_columns last)]
      cases behind : isBehind (· "t") timeWindow x y with
      | false =>
          rw [List.dropWhile_cons_of_neg (by simp [behind])]
          rfl
      | true =>
          have later : samples.getLast? = some x := by
            cases samples with
            | nil =>
                have same : y = x := Option.some.inj last
                rw [same, not_isBehind_self (by decide)] at behind
                cases behind
            | cons => rwa [List.getLast?_cons_cons] at last
          rw [if_pos rfl, bind_of_ok pop_columns, List.dropWhile_cons_of_pos behind]
          exact ih later (Nat.le_of_succ_le_succ enough)

/-- A line that is no sample is refused. -/
theorem callback_refuses {line : Line} (malformed : c.sample float line = none) (data : Data) :
    ∃ message, c.callback float line data = .error (.valueError message) data := by
  have count : c.fields.length = c.keys.length := c.perm.length_eq
  rw [sample] at malformed
  rw [callback, fileCallback, ← count]
  dsimp only
  by_cases fits : ((strip line).splitOn ',').length = c.fields.length
  · rw [if_pos fits, Option.map_eq_none_iff] at malformed
    rw [if_neg (not_not_intro fits), malformed]
    exact ⟨_, rfl⟩
  · rw [if_pos fits]
    exact ⟨_, rfl⟩

/-- A sample is put into the window. -/
theorem callback_accepts {line : Line} (found : c.sample float line = some x)
    (samples : List Sample) :
    c.callback float line (c.columns samples)
      = .ok () (c.columns (slide (· "t") timeWindow samples x)) := by
  have count : c.fields.length = c.keys.length := c.perm.length_eq
  rw [sample] at found
  obtain ⟨fits, found⟩ := Option.ite_none_right_eq_some.mp found
  obtain ⟨numbers, read, rfl⟩ := Option.map_eq_some_iff.mp found
  rw [callback, fileCallback, ← count]
  dsimp only
  rw [if_neg (not_not_intro fits), read]
  have length : numbers.length = c.fields.length := (length_of_mapM read).trans fits
  dsimp only
  rw [if_neg (not_not_intro length), bind_of_ok (append_columns (fun _ _ => rfl) length)]
  generalize (fun key => ((c.fields.zip numbers).lookup key).getD 0 : Sample) = x
  have rows : (c.columns (samples ++ [x]) "t").length = (samples ++ [x]).length := by
    rw [columns_of_mem c.time_mem, List.length_map]
  rw [get_bind, rows]
  exact trim_columns List.getLast?_concat (Nat.le_refl _)

theorem columns_nil (c : Table) : c.columns [] = fun _ => [] := funext fun _ => ite_self []

end Table

/-! ### Histories -/

/-- The dictionary after some lines; what a call raises is caught. -/
def after (callback : Callback) (lines : List Line) : Data :=
  lines.foldl (fun data line => left (callback line data)) fun _ => []

/-- What the plot shows after some lines, and what the next line does to it: the lists are
aligned, only samples are taken, the newest sample is there when the loop ends, and where the
times do not fall, all samples of the window are. -/
structure Plotted (float : Line → Option ℚ) (c : Table) (callback : Callback)
    (lines : List Line) : Prop where
  aligned : ∀ key ∈ c.keys, ∀ key' ∈ c.keys,
    (after callback lines key).length = (after callback lines key').length
  refuses : ∀ line, c.sample float line = none → ∃ message,
    callback line (after callback lines) = .error (.valueError message) (after callback lines)
  keeps : ∀ line x, c.sample float line = some x → ∃ data,
    callback line (after callback lines) = .ok () data ∧ outOfWindow data = .ok false data ∧
      ∀ key ∈ c.keys, (data key).getLast? = some (x key)
  windowed : (lines.filterMap (c.sample float)).Pairwise (fun x y => x "t" ≤ y "t") →
    ∀ key ∈ c.keys, after callback lines key =
      ((lines.filterMap (c.sample float)).filter fun y =>
        (lines.filterMap (c.sample float)).getLast?.all fun newest =>
          newest "t" - y "t" ≤ timeWindow).map (· key)

namespace Table

variable {float : Line → Option ℚ} {c : Table}

/-- The lists are the columns of the window. -/
theorem after_eq (lines : List Line) : after (c.callback float) lines = c.columns
    ((lines.filterMap (c.sample float)).foldl (slide (· "t") timeWindow) []) := by
  induction lines using List.reverseRecOn with
  | nil => exact c.columns_nil.symm
  | append_singleton lines line ih =>
      rw [after, List.foldl_append, List.foldl_cons, List.foldl_nil, ← after, ih,
        List.filterMap_append]
      cases found : c.sample float line with
      | none =>
          obtain ⟨message, refused⟩ := callback_refuses found (c.columns
            ((lines.filterMap (c.sample float)).foldl (slide (· "t") timeWindow) []))
          rw [refused, List.filterMap_cons_none found, List.filterMap_nil, List.append_nil]
          rfl
      | some x =>
          rw [callback_accepts found, List.filterMap_cons_some found, List.filterMap_nil,
            List.foldl_append]
          rfl

/-- Where the loop ends the last row is not too far from the first. -/
theorem outOfWindow_slide (samples : List Sample) (x : Sample) :
    outOfWindow (c.columns (slide (· "t") timeWindow samples x))
      = .ok false (c.columns (slide (· "t") timeWindow samples x)) := by
  have kept : slide (· "t") timeWindow samples x
      = samples.dropWhile (isBehind (· "t") timeWindow x) ++ [x] :=
    slide_eq_append (by decide) samples x
  cases rows : slide (· "t") timeWindow samples x with
  | nil =>
      rw [rows] at kept
      exact absurd kept.symm (List.append_ne_nil_of_right_ne_nil _ (List.cons_ne_nil x []))
  | cons y rest =>
      have last : (y :: rest).getLast? = some x := by
        rw [← rows, kept, List.getLast?_concat]
      rw [outOfWindow_columns last, not_isBehind_of_slide rows]

theorem plotted (lines : List Line) : Plotted float c (c.callback float) lines where
  aligned := by
    intro key member key' member'
    rw [after_eq, columns_of_mem member, columns_of_mem member', List.length_map, List.length_map]
  refuses := fun line malformed => callback_refuses malformed _
  keeps := by
    intro line x found
    rw [after_eq]
    refine ⟨_, callback_accepts found _, outOfWindow_slide _ x, ?_⟩
    intro key member
    rw [columns_of_mem member, slide_eq_append (by decide), List.getLast?_map,
      List.getLast?_concat]
    rfl
  windowed := by
    intro rising key member
    rw [after_eq, columns_of_mem member, foldl_slide_eq_filter rising]
    refine congrArg (List.map _) (List.filter_congr ?_)
    intro y _
    refine congrArg (Option.all · _) (funext fun x => ?_)
    rw [isBehind, ← decide_not]
    exact decide_eq_decide.mpr not_lt

end Table

/-- Both callbacks, after any lines. -/
theorem callbacks_plotted (float : Line → Option ℚ) (lines : List Line) :
    Plotted float .pwm (pwmFileCallback float) lines ∧
      Plotted float .acc (accFileCallback float) lines :=
  ⟨Table.plotted lines, Table.plotted lines⟩

end RealtimePlot

end Lra
