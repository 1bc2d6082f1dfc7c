import Lra.Text.Fields
import Lra.Usb.DataFiles
import Lra.Usb.FileObserver
import Lra.Usb.FileWindow
import Lra.Usb.Link
import Lra.Usb.RcwsParser

/-!
# From the device to the plot

While both data files are open, the parser appends the rows of each message to them, and the
plot's observers look at the files at any moment and however much has got there. The link,
the parser and the observers take their steps in any order.

As long as no header is read behind a late body and no cut line is taken for a row, the files
hold the rows of some of the frames sent, whole and in order, and each plot shows the window
over the first of its rows.
-/

namespace Lra

open Effect Buffer Text

/-! ### Rows -/

/-- How a number is printed. -/
inductive FormatSpec where
  /-- With a number of digits behind the point, `{:.6f}`. -/
  | fixed (digits : Nat)
  /-- `{}`. -/
  | shortest
  deriving DecidableEq

abbrev Field := FormatSpec × UInt32

abbrev Row := List Field

/-- `"{:.6f}, {:.4f}, {:.4f}, {:.4f}\n"`. -/
def AccDataSet.row (d : AccDataSet) : Row :=
  [(.fixed 6, d.t), (.fixed 4, d.x), (.fixed 4, d.y), (.fixed 4, d.z)]

/-- `"{:.3f}, {}, {}, {}, {}, {}, {}\n"`. -/
def pwmRow : UInt32 × RcwsPwmInfo → Row
  | (t, info) => [(.fixed 3, t), (.shortest, info.x.amp), (.shortest, info.x.freq),
      (.shortest, info.y.amp), (.shortest, info.y.freq), (.shortest, info.z.amp),
      (.shortest, info.z.freq)]

/-- The rows a call of `Parse` appends to a file. -/
def RcwsParser.Output.written (out : Output) : DataFile → List Row
  | .acc => (out.accFile.getD []).map AccDataSet.row
  | .pwm => out.pwmFile.toList.map pwmRow

/-- Some numbers as a sample. -/
def RealtimePlot.Table.sampleOf (c : Table) (numbers : List ℚ) : Sample :=
  fun key => ((c.fields.zip numbers).lookup key).getD 0

/-! ### The system -/

/-- The link with the parser at its end, what is in the data files, and their observers. -/
structure Recording where
  link : Pool Link Line Party LinkJob
  content : DataFile → List Char := fun _ => []
  plot : DataFile → FileObserver RealtimePlot.Data := fun _ => { fargs := fun _ => [] }

/-- The parties of the link take a step, or an observer is told of a change. -/
inductive RecordEvent where
  | link (l : Label Link Party LinkJob)
  | modified (k : DataFile) (event : FileObserver.Modified)

namespace Recording

/-- All of the frames are still on their way. -/
def sending (frames : List Frame) : Recording := { link := Pool.idle (.sending frames) }

/-- What `Parse` does while both files are open. -/
def parse (msg : List UInt8) : Checked RcwsParser.Output := RcwsParser.parse ⟨true, true⟩ msg

def written (msg : List UInt8) (k : DataFile) : List Row :=
  ((parse msg).toOption.getD {}).written k

/-- The plot that follows a file. -/
def table : DataFile → RealtimePlot.Table
  | .acc => .acc
  | .pwm => .pwm

theorem length_of_mem_written {out : RcwsParser.Output} {k : DataFile} {row : Row}
    (written : row ∈ out.written k) : row.length = (table k).fields.length := by
  cases k with
  | acc =>
      obtain ⟨d, _, rfl⟩ := List.mem_map.mp written
      rfl
  | pwm =>
      obtain ⟨d, _, rfl⟩ := List.mem_map.mp written
      rfl

section Rows

variable (text : Field → Text.Line) (float : Text.Line → Option ℚ)

/-- A row as it is written. -/
def line (row : Row) : Text.Line := [',', ' '].intercalate (row.map text) ++ ['\n']

/-- The text of a field is a number for the plot, also behind a blank. -/
structure Prints (field : Field) (value : ℚ) : Prop where
  some : text field ≠ []
  bare : ∀ c ∈ text field, RealtimePlot.isSpace c = false ∧ c ≠ ','
  first : float (text field) = Option.some value
  behind : float (' ' :: text field) = Option.some value

variable {text float} {value : Field → ℚ} {row : Row}

theorem exists_intercalate (sep : Text.Line) {texts : List Text.Line} (filled : texts ≠ []) :
    ∃ front back, sep.intercalate texts = texts.head filled ++ back ∧
      sep.intercalate texts = front ++ texts.getLast filled := by
  induction texts with
  | nil => exact absurd rfl filled
  | cons first rest ih =>
      cases rest with
      | nil => exact ⟨[], [], by simp, by simp⟩
      | cons second rest =>
          obtain ⟨front, back, _, ends⟩ := ih (List.cons_ne_nil second rest)
          refine ⟨first ++ sep ++ front, sep ++ sep.intercalate (second :: rest), ?_, ?_⟩
          · rw [List.intercalate_cons_cons, List.append_assoc]
            rfl
          · rw [List.intercalate_cons_cons, ends]
            simp

theorem strip_line {body : Text.Line} (head : ∀ c ∈ body.head?, RealtimePlot.isSpace c = false)
    (last : ∀ c ∈ body.getLast?, RealtimePlot.isSpace c = false) :
    RealtimePlot.strip (body ++ ['\n']) = body := by
  have space : RealtimePlot.isSpace '\n' = true := by decide
  cases body with
  | nil => decide
  | cons c body =>
      have front : ((c :: body) ++ ['\n']).dropWhile RealtimePlot.isSpace
          = (c :: body) ++ ['\n'] := List.dropWhile_cons_of_neg (by simp [head c rfl])
      rw [RealtimePlot.strip, front, List.reverse_append, List.reverse_singleton,
        List.singleton_append, List.dropWhile_cons_of_pos space]
      cases back : (c :: body).reverse with
      | nil => simp at back
      | cons z rest =>
          have ends : (c :: body).getLast? = some z := by
            rw [List.getLast?_eq_head?_reverse, back]
            rfl
          rw [List.dropWhile_cons_of_neg (by simp [last z ends]), ← back, List.reverse_reverse]

theorem intercalate_bare (filled : row ≠ [])
    (prints : ∀ field ∈ row, Prints text float field (value field)) :
    RealtimePlot.strip (line text row) = [',', ' '].intercalate (row.map text) := by
  have some : row.map text ≠ [] := mt List.map_eq_nil_iff.mp filled
  obtain ⟨front, back, head, last⟩ := exists_intercalate [',', ' '] some
  have bare : ∀ t ∈ row.map text, t ≠ [] ∧ ∀ c ∈ t, RealtimePlot.isSpace c = false := by
    intro t member
    obtain ⟨field, inside, rfl⟩ := List.mem_map.mp member
    exact ⟨(prints field inside).some, fun c here => ((prints field inside).bare c here).1⟩
  refine strip_line ?_ ?_
  · obtain ⟨some, bare⟩ := bare _ (List.head_mem some)
    rw [head, List.head?_append_of_ne_nil _ some]
    exact fun c here => bare c (List.mem_of_head? here)
  · obtain ⟨some, bare⟩ := bare _ (List.getLast_mem some)
    rw [last, List.getLast?_append_of_ne_nil _ some]
    exact fun c here => bare c (List.mem_of_getLast? here)

/-- A row is read back as its values. -/
theorem sample_line (c : RealtimePlot.Table) (fits : row.length = c.fields.length)
    (prints : ∀ field ∈ row, Prints text float field (value field)) :
    c.sample float (line text row) = some (c.sampleOf (row.map value)) := by
  cases row with
  | nil =>
      have none : c.fields = [] := List.length_eq_zero_iff.mp fits.symm
      exact absurd c.time (none ▸ List.not_mem_nil)
  | cons field rest =>
      have apart : ∀ t ∈ text field :: rest.map text, ',' ∉ t := by
        intro t member comma
        rw [← List.map_cons] at member
        obtain ⟨other, inside, rfl⟩ := List.mem_map.mp member
        exact ((prints other inside).bare ',' comma).2 rfl
      have parts := splitOn_intercalate_pad [' '] (text field) (rest.map text) (by decide) apart
      have behind : ∀ fields : List Field, (∀ f ∈ fields, Prints text float f (value f)) →
          ((fields.map text).map ([' '] ++ ·)).mapM float = some (fields.map value) := by
        intro fields prints
        induction fields with
        | nil => rfl
        | cons f fields ih =>
            have later := ih fun g member => prints g (List.mem_cons_of_mem _ member)
            have here := (prints f List.mem_cons_self).behind
            simp only [List.map_cons, List.mapM_cons, later]
            rw [List.singleton_append, here]
            rfl
      have numbers : (text field :: (rest.map text).map ([' '] ++ ·)).mapM float
          = some ((field :: rest).map value) := by
        have later := behind rest fun g member => prints g (List.mem_cons_of_mem _ member)
        rw [List.mapM_cons, later, (prints field List.mem_cons_self).first]
        rfl
      rw [RealtimePlot.Table.sample, intercalate_bare (List.cons_ne_nil _ _) prints, List.map_cons,
        parts, if_pos (by simpa using fits), numbers]
      rfl

theorem mem_of_mem_intercalate {sep : Text.Line} {texts : List Text.Line} {c : Char}
    (member : c ∈ sep.intercalate texts) : c ∈ sep ∨ ∃ t ∈ texts, c ∈ t := by
  induction texts with
  | nil => cases member
  | cons first rest ih =>
      cases rest with
      | nil =>
          rw [List.intercalate_singleton] at member
          exact .inr ⟨first, List.mem_cons_self, member⟩
      | cons second rest =>
          rw [List.intercalate_cons_cons, List.mem_append, List.mem_append] at member
          rcases member with (here | between) | later
          · exact .inr ⟨first, List.mem_cons_self, here⟩
          · exact .inl between
          · refine (ih later).imp_right ?_
            rintro ⟨t, inside, here⟩
            exact ⟨t, List.mem_cons_of_mem _ inside, here⟩

/-- Of the white space only blanks are between the fields. -/
theorem not_mem_intercalate {c : Char} (space : RealtimePlot.isSpace c = true) (other : c ≠ ' ')
    (prints : ∀ field ∈ row, Prints text float field (value field)) :
    c ∉ [',', ' '].intercalate (row.map text) := by
  intro member
  rcases mem_of_mem_intercalate member with between | ⟨t, inside, here⟩
  · rcases List.mem_pair.mp between with rfl | rfl
    · exact absurd space (by decide)
    · exact other rfl
  · obtain ⟨field, printed, rfl⟩ := List.mem_map.mp inside
    rw [((prints field printed).bare c here).1] at space
    cases space

variable {rows : List Row}

theorem terminated_rows
    (prints : ∀ row ∈ rows, ∀ field ∈ row, Prints text float field (value field)) :
    universalNewlines (rows.flatMap (line text)) = rows.flatMap (line text) ∧
      terminated (rows.flatMap (line text)) = rows.map (line text) ∧
      cut (rows.flatMap (line text)) = [] := by
  have lines : ∀ row ∈ rows, ∃ body, line text row = body ++ ['\n'] ∧ '\n' ∉ body :=
    fun row member =>
      ⟨_, rfl, not_mem_intercalate (by decide) (by decide) (prints row member)⟩
  refine ⟨universalNewlines_of_not_mem ?_, terminated_flatMap lines, cut_flatMap lines⟩
  intro member
  obtain ⟨row, inside, here⟩ := List.mem_flatMap.mp member
  rcases List.mem_append.mp here with within | ends
  · exact not_mem_intercalate (by decide) (by decide) (prints row inside) within
  · exact absurd (List.mem_singleton.mp ends) (by decide)

end Rows

/-! ### Observers -/

open FileObserver RealtimePlot

/-- What the observer of a file calls. -/
def callback (float : Text.Line → Option ℚ) : DataFile → Callback
  | .acc => accFileCallback float
  | .pwm => pwmFileCallback float

/-- The window over some rows. -/
def window (value : Field → ℚ) (k : DataFile) (rows : List Row) : Data :=
  (table k).columns ((rows.map fun row => (table k).sampleOf (row.map value)).foldl
    (Search.slide (· "t") timeWindow) [])

section Observers

variable {text : Field → Text.Line} {float : Text.Line → Option ℚ} {value : Field → ℚ}
  {minInterval : ℚ} {k : DataFile} {rows more : List Row} {o : FileObserver Data}

theorem callback_eq (float : Text.Line → Option ℚ) (k : DataFile) :
    callback float k = (table k).callback float := by
  cases k <;> rfl

/-- After the rows the lists are the window over them. -/
theorem after_rows (fits : ∀ row ∈ rows, row.length = (table k).fields.length)
    (prints : ∀ row ∈ rows, ∀ field ∈ row, Prints text float field (value field)) :
    RealtimePlot.after (callback float k) (rows.map (line text)) = window value k rows := by
  have samples : (rows.map (line text)).filterMap ((table k).sample float)
      = rows.map fun row => (table k).sampleOf (row.map value) := by
    rw [List.filterMap_map, ← List.filterMap_eq_map]
    refine List.filterMap_congr fun row member => ?_
    exact sample_line (table k) (fits row member) (prints row member)
  rw [callback_eq, Table.after_eq, samples, window]

/-- An observer of a file with these rows: it has taken the first of them and plotted what it
took. -/
structure Shows (text : Field → Text.Line) (float : Text.Line → Option ℚ) (k : DataFile)
    (rows : List Row) (o : FileObserver Data) : Prop where
  counted : o.line = o.taken.length
  taken : o.taken <+: rows.map (line text)
  plotted : o.fargs = RealtimePlot.after (callback float k) o.taken

theorem Shows.append (shows : Shows text float k rows o) (more : List Row) :
    Shows text float k (rows ++ more) o := by
  refine ⟨shows.counted, ?_, shows.plotted⟩
  rw [List.map_append]
  exact shows.taken.trans (List.prefix_append _ _)

theorem after_concat (call : Callback) (lines : List Text.Line) (newLine : Text.Line) :
    RealtimePlot.after call (lines ++ [newLine])
      = left (call newLine (RealtimePlot.after call lines)) := by
  rw [RealtimePlot.after, List.foldl_append]
  rfl

/-- The lists are always what the lines taken make of them. -/
theorem plotted_visit (float : Text.Line → Option ℚ) (c : Table) (lines : List Text.Line)
    (o : FileObserver Data) (plotted : o.fargs = RealtimePlot.after (c.callback float) o.taken) :
    (visit (some (c.callback float)) o lines).fargs
      = RealtimePlot.after (c.callback float) (visit (some (c.callback float)) o lines).taken := by
  induction lines generalizing o with
  | nil => exact plotted
  | cons newLine newLines ih =>
      have next : left (c.callback float newLine o.fargs)
          = RealtimePlot.after (c.callback float) (o.taken ++ [newLine]) := by
        rw [plotted, after_concat]
      cases called : c.callback float newLine o.fargs with
      | ok _ fargs =>
          rw [called] at next
          have first : visit (some (c.callback float)) o (newLine :: newLines)
              = visit (some (c.callback float))
                { o with line := o.line + 1, fargs, taken := o.taken ++ [newLine] } newLines := by
            rw [visit, called]
          rw [first]
          exact ih _ next
      | error e fargs =>
          have first : visit (some (c.callback float)) o (newLine :: newLines)
              = { o with fargs } := by
            rw [visit, called]
          rw [first]
          cases found : c.sample float newLine with
          | none =>
              obtain ⟨message, refused⟩ := Table.callback_refuses found o.fargs
              rw [refused] at called
              cases called
              exact plotted
          | some x =>
              rw [plotted, Table.after_eq, Table.callback_accepts found] at called
              cases called

/-- One look at the file, at whatever is there of it. -/
theorem Shows.modified (shows : Shows text float k rows o) {event : Modified}
    (prints : ∀ row ∈ rows, ∀ field ∈ row, Prints text float field (value field))
    (there : event.content <+: rows.flatMap (line text))
    (whole : ¬ TakesCut (some (callback float k)) minInterval o event) :
    Shows text float k rows (onModified (some (callback float k)) minInterval o event) := by
  obtain ⟨same, lines, _⟩ := terminated_rows prints
  have step : FileObserver.Step (some (callback float k)) minInterval (rows.flatMap (line text)) o
      event (onModified (some (callback float k)) minInterval o event) := ⟨there, rfl⟩
  refine ⟨counted_step step shows.counted, ?_, ?_⟩
  · have good : o.taken <+: terminated (universalNewlines (rows.flatMap (line text))) := by
      rw [same, lines]
      exact shows.taken
    have kept := (prefix_step_iff step shows.counted good).mpr whole
    rwa [same, lines] at kept
  · rw [onModified]
    split
    · rw [internalCallback]
      dsimp only
      have plotted := shows.plotted
      rw [callback_eq] at plotted ⊢
      exact plotted_visit float (table k) _ o plotted
    · exact shows.plotted

/-- The callback returns for rows. -/
theorem accepts_rows (c : Table) (fits : ∀ row ∈ rows, row.length = c.fields.length)
    (prints : ∀ row ∈ rows, ∀ field ∈ row, Prints text float field (value field))
    (lines : List Text.Line) :
    Accepts (some (c.callback float)) (RealtimePlot.after (c.callback float) lines)
      (rows.map (line text)) := by
  induction rows generalizing lines with
  | nil => exact .nil _
  | cons row rows ih =>
      have found := sample_line c (fits row List.mem_cons_self) (prints row List.mem_cons_self)
      have later := ih (fun r member => fits r (List.mem_cons_of_mem _ member))
        (fun r member => prints r (List.mem_cons_of_mem _ member)) (lines ++ [line text row])
      have called := Table.callback_accepts found
        ((lines.filterMap (c.sample float)).foldl (Search.slide (· "t") timeWindow) [])
      rw [← Table.after_eq] at called
      have next : RealtimePlot.after (c.callback float) (lines ++ [line text row])
          = left (c.callback float (line text row) (RealtimePlot.after (c.callback float) lines)) :=
        after_concat ..
      rw [next, called] at later
      exact .cons rfl called later

/-- A look at the whole file leaves nothing out. -/
theorem Shows.modified_all (shows : Shows text float k rows o) {event : Modified}
    (fits : ∀ row ∈ rows, row.length = (table k).fields.length)
    (prints : ∀ row ∈ rows, ∀ field ∈ row, Prints text float field (value field))
    (all : event.content = rows.flatMap (line text))
    (told : event.currentTime - o.lastTriggered > minInterval) :
    (onModified (some (callback float k)) minInterval o event).fargs = window value k rows := by
  obtain ⟨same, lines, none⟩ := terminated_rows prints
  have within : o.line ≤ (rows.map (line text)).length := by
    rw [shows.counted]
    exact shows.taken.length_le
  have new : (readlines (universalNewlines event.content)).drop o.line
      = (rows.drop o.line).map (line text) := by
    rw [all, same, drop_readlines (by rwa [lines]), none, lines, if_pos rfl, List.append_nil,
      List.map_drop]
  have accepts :
      Accepts (some (callback float k)) o.fargs ((rows.drop o.line).map (line text)) := by
    rw [shows.plotted, callback_eq]
    exact accepts_rows (table k) (fun row member => fits row (List.mem_of_mem_drop member))
      (fun row member => prints row (List.mem_of_mem_drop member)) o.taken
  have plotted : (visit (some (callback float k)) o ((rows.drop o.line).map (line text))).fargs
      = RealtimePlot.after (callback float k)
        (visit (some (callback float k)) o ((rows.drop o.line).map (line text))).taken := by
    have before := shows.plotted
    rw [callback_eq] at before ⊢
    exact plotted_visit float (table k) _ o before
  have taken : (visit (some (callback float k)) o ((rows.drop o.line).map (line text))).taken
      = rows.map (line text) := by
    obtain ⟨n, _, _, taken, whole⟩ :=
      visit_spec (some (callback float k)) o ((rows.drop o.line).map (line text))
    rw [taken, whole.mpr accepts, List.take_length, List.map_drop, shows.counted]
    exact List.prefix_iff_eq_append.mp shows.taken
  rw [onModified, if_pos told, internalCallback, new]
  dsimp only
  rw [plotted, taken, after_rows fits prints]

/-- What the plot shows is the window over the rows taken. -/
theorem Shows.exists_window (shows : Shows text float k rows o)
    (fits : ∀ row ∈ rows, row.length = (table k).fields.length)
    (prints : ∀ row ∈ rows, ∀ field ∈ row, Prints text float field (value field)) :
    ∃ shown, shown <+: rows ∧ o.fargs = window value k shown := by
  refine ⟨rows.take o.taken.length, List.take_prefix _ _, ?_⟩
  have taken : o.taken = (rows.take o.taken.length).map (line text) := by
    rw [List.map_take]
    exact List.prefix_iff_eq_take.mp shows.taken
  rw [shows.plotted, ← after_rows (fun row member => fits row (List.mem_of_mem_take member))
    fun row member => prints row (List.mem_of_mem_take member), ← taken]

end Observers

/-! ### Any order -/

section Code

variable (text : Field → Text.Line) (float : Text.Line → Option ℚ) (minInterval : ℚ)

/-- The parser appends the rows of a message when it is handed over. -/
def record (content : DataFile → List Char) : Label Link Party LinkJob → DataFile → List Char
  | .exec _ (.parse msg), k => content k ++ (written msg k).flatMap (line text)
  | _, k => content k

/-- The observer of a file is told of a change. -/
def tell (s : Recording) (k : DataFile) (event : Modified) : Recording :=
  let o := onModified (some (callback float k)) minInterval (s.plot k) event
  { s with plot := Function.update s.plot k o }

/-- A message is parsed if no access leaves it. An observer finds a part of what is written. -/
inductive RecordStep : Recording → RecordEvent → Recording → Prop where
  | link {s l p} : linkSystem.Step s.link l p →
      (∀ i msg, l = .exec i (.parse msg) → InBounds (parse msg)) →
      RecordStep s (.link l) { s with link := p, content := record text s.content l }
  | modified {s k event} : event.content <+: s.content k →
      RecordStep s (.modified k event) (s.tell float minInterval k event)

/-- No header is read behind a late body, and no cut line is taken for a row. -/
def Intact (s : Recording) : RecordEvent → Prop
  | .link l => HeaderInTime s.link l
  | .modified k event => ¬ TakesCut (some (callback float k)) minInterval (s.plot k) event

end Code

/-- The rows of some frames in a file. -/
def rows (frames : List Frame) (k : DataFile) : List Row :=
  frames.flatMap fun f => written f.bytes k

section Run

variable {text : Field → Text.Line} {float : Text.Line → Option ℚ} {value : Field → ℚ}
  {minInterval : ℚ} {frames received : List Frame} {s t : Recording}

theorem fits_rows {k : DataFile} {row : Row} (member : row ∈ rows received k) :
    row.length = (table k).fields.length := by
  obtain ⟨f, _, here⟩ := List.mem_flatMap.mp member
  exact length_of_mem_written here

/-- The rows are those of the messages. -/
theorem rows_eq (received : List Frame) (k : DataFile) :
    rows received k = (received.map Frame.bytes).flatMap (written · k) := by
  rw [rows, List.flatMap_map]

/-- The messages handed over so far are the frames received, and their rows are in the files. -/
structure Receives (text : Field → Text.Line) (float : Text.Line → Option ℚ)
    (frames received : List Frame) (s : Recording) : Prop where
  run : ∃ h, Run linkSystem.Step (Pool.idle (.sending frames)) h s.link
  faithful : Faithful frames s.link.mem
  sublist : received.Sublist frames
  messages : messages s.link.mem.handed = received.map Frame.bytes
  content : ∀ k, s.content k = (rows received k).flatMap (line text)
  shows : ∀ k, Shows text float k (rows received k) (s.plot k)

/-- A message is handed over, or the files stay as they are. -/
theorem record_step (text : Field → Text.Line) {p q : Pool Link Line Party LinkJob}
    {l : Label Link Party LinkJob} (step : linkSystem.Step p l q) (content : DataFile → List Char) :
    (∃ msg, q.mem.handed = msg :: p.mem.handed ∧ ∀ k,
      record text content l k = content k ++ (written msg k).flatMap (line text)) ∨
      q.mem.handed = p.mem.handed ∧ record text content l = content := by
  cases step with
  | start _ _ => exact .inr ⟨rfl, rfl⟩
  | finish _ => exact .inr ⟨rfl, rfl⟩
  | @exec i j o next r m active answer =>
      cases o with
      | parse msg =>
          obtain rfl := answer
          exact .inl ⟨msg, rfl, fun k => rfl⟩
      | read n =>
          obtain ⟨_, _, rfl⟩ := answer
          exact .inr ⟨rfl, rfl⟩
      | readWithin n ms =>
          rcases answer with ⟨_, _, rfl⟩ | ⟨_, _, rfl⟩
          · exact .inr ⟨rfl, rfl⟩
          · exact .inr ⟨rfl, rfl⟩
      | deliver n =>
          obtain rfl := answer
          exact .inr ⟨rfl, rfl⟩
      | isOpen =>
          obtain ⟨_, rfl⟩ := answer
          exact .inr ⟨rfl, rfl⟩
      | isDataAvailable =>
          obtain ⟨_, rfl⟩ := answer
          exact .inr ⟨rfl, rfl⟩

theorem written_nil (k : DataFile) : written [] k = [] := by
  cases k <;> rfl

/-- A step of the link adds the frame that it hands over, if there is one. -/
theorem Receives.link {p : Pool Link Line Party LinkJob} {l : Label Link Party LinkJob}
    (now : Receives text float frames received s) (step : linkSystem.Step s.link l p)
    (inTime : HeaderInTime s.link l) :
    ∃ received, Receives text float frames received
      { s with link := p, content := record text s.content l } := by
  obtain ⟨h, run⟩ := now.run
  have faithful := (faithful_step_iff run now.faithful step).mpr inTime
  obtain ⟨all, sublist, same⟩ := List.sublist_map_iff.mp faithful.sublist
  have more (k : DataFile) : ∃ new, rows all k = rows received k ++ new ∧
      record text s.content l k = s.content k ++ new.flatMap (line text) := by
    rcases record_step text step s.content with ⟨msg, handed, recorded⟩ | ⟨handed, kept⟩
    · refine ⟨written msg k, ?_, recorded k⟩
      rw [rows_eq, rows_eq, ← same, ← now.messages, handed, messages_cons, List.flatMap_append]
      by_cases none : msg = []
      · simp [none, written_nil]
      · simp [none]
    · refine ⟨[], ?_, by simp [kept]⟩
      rw [rows_eq, rows_eq, ← same, ← now.messages, handed, List.append_nil]
  refine ⟨all, ⟨_, run.step step⟩, faithful, sublist, same, fun k => ?_, fun k => ?_⟩
  · obtain ⟨new, rows, content⟩ := more k
    rw [rows, List.flatMap_append, ← now.content k]
    exact content
  · obtain ⟨new, rows, _⟩ := more k
    rw [rows]
    exact (now.shows k).append new

/-- A look at a file changes what its plot shows. -/
theorem Receives.tell {k : DataFile} {event : Modified}
    (now : Receives text float frames received s)
    (prints : ∀ k, ∀ row ∈ rows received k, ∀ field ∈ row, Prints text float field (value field))
    (there : event.content <+: s.content k)
    (whole : ¬ TakesCut (some (callback float k)) minInterval (s.plot k) event) :
    Receives text float frames received (s.tell float minInterval k event) := by
  refine ⟨now.run, now.faithful, now.sublist, now.messages, now.content, fun l => ?_⟩
  by_cases same : l = k
  · subst same
    rw [now.content] at there
    have shows := (now.shows l).modified (prints l) there whole
    simpa [Recording.tell] using shows
  · have shows := now.shows l
    simpa [Recording.tell, same] using shows

theorem prints_rows {k : DataFile} (sublist : received.Sublist frames)
    (prints : ∀ k, ∀ row ∈ rows frames k, ∀ field ∈ row, Prints text float field (value field)) :
    ∀ row ∈ rows received k, ∀ field ∈ row, Prints text float field (value field) := by
  intro row member
  obtain ⟨f, received, here⟩ := List.mem_flatMap.mp member
  exact prints k row (List.mem_flatMap.mpr ⟨f, sublist.subset received, here⟩)

theorem receives_of_run {h : List (RecordEvent × Recording)}
    (prints : ∀ k, ∀ row ∈ rows frames k, ∀ field ∈ row, Prints text float field (value field))
    (run : Run (Restrict (RecordStep text float minInterval) (Intact float minInterval))
      (sending frames) h s) : ∃ received, Receives text float frames received s := by
  refine run.invariant (P := fun s => ∃ received, Receives text float frames received s)
    ⟨[], ?_⟩ ?_
  · refine ⟨⟨[], .nil⟩, ?_, List.nil_sublist _, rfl, fun k => rfl, fun k => ?_⟩
    · exact (linkRun_sending frames).inv.faithful fun start read => (nomatch read)
    · exact ⟨rfl, List.nil_prefix, rfl⟩
  · rintro s l t ⟨received, now⟩ ⟨intact, step⟩
    cases step with
    | link step _ => exact now.link step intact
    | modified there =>
        have read k := prints_rows (k := k) now.sublist prints
        exact ⟨received, now.tell read there intact⟩

/-- However the bytes arrive and whenever the observers look, as long as no header is read
behind a late body and no cut line is taken for a row: each file holds the rows of some of the
frames sent, whole and in order, and its plot shows the window over the first of these rows.
A look at all that is there leaves none out. -/
theorem plots_of_run {h : List (RecordEvent × Recording)}
    (prints : ∀ k, ∀ row ∈ rows frames k, ∀ field ∈ row, Prints text float field (value field))
    (run : Run (Restrict (RecordStep text float minInterval) (Intact float minInterval))
      (sending frames) h s) :
    ∃ received, received.Sublist frames ∧ ∀ k,
      s.content k = (rows received k).flatMap (line text) ∧
      (∃ shown, shown <+: rows received k ∧ (s.plot k).fargs = window value k shown) ∧
      ∀ event, event.content = s.content k →
        event.currentTime - (s.plot k).lastTriggered > minInterval →
        ((s.tell float minInterval k event).plot k).fargs = window value k (rows received k) := by
  obtain ⟨received, now⟩ := receives_of_run prints run
  refine ⟨received, now.sublist, fun k => ?_⟩
  have fits : ∀ row ∈ rows received k, row.length = (table k).fields.length :=
    fun row member => fits_rows member
  have read := prints_rows (k := k) now.sublist prints
  refine ⟨now.content k, (now.shows k).exists_window fits read, fun event all told => ?_⟩
  have shown := (now.shows k).modified_all fits read (all.trans (now.content k)) told
  simpa [Recording.tell] using shown

end Run

/-! ### One data set -/

/-- A data set of zeros. -/
def zeroSet : Frame where
  type := UsbCmd.updateAcc.inCode
  body := List.replicate 16 0 ++ [0x0D, 0x0A]
  body_pos := by decide
  body_lt := by decide

/-- Zero as it is printed. -/
def zeroText : Field → Text.Line
  | (.fixed digits, _) => '0' :: '.' :: List.replicate digits '0'
  | (.shortest, _) => ['0']

theorem zeroText_bare {field : Field} {c : Char} (member : c ∈ zeroText field) :
    RealtimePlot.isSpace c = false ∧ c ≠ ',' := by
  have drawn : c = '0' ∨ c = '.' := by
    obtain ⟨_ | _, _⟩ := field
    · simp only [zeroText, List.mem_cons, List.mem_replicate] at member
      tauto
    · exact .inl (List.mem_singleton.mp member)
  rcases drawn with rfl | rfl
  · decide
  · decide

theorem prints_zeroSet (k : DataFile) :
    ∀ row ∈ rows [zeroSet] k, ∀ field ∈ row, Prints zeroText decimal field 0 := by
  have prints : ∀ digits ∈ [4, 6], Prints zeroText decimal (.fixed digits, 0) 0 := by
    intro digits some
    refine ⟨List.cons_ne_nil _ _, fun c member => zeroText_bare member, ?_, ?_⟩
    · revert digits
      decide +kernel
    · revert digits
      decide +kernel
  cases k with
  | acc =>
      have one : rows [zeroSet] .acc = [AccDataSet.row ⟨0, 0, 0, 0⟩] := by decide
      rw [one]
      intro row same field member
      obtain rfl := List.mem_singleton.mp same
      simp only [AccDataSet.row, List.mem_cons, List.not_mem_nil, or_false] at member
      rcases member with rfl | rfl | rfl | rfl
      · exact prints 6 (by decide)
      · exact prints 4 (by decide)
      · exact prints 4 (by decide)
      · exact prints 4 (by decide)
  | pwm =>
      have none : rows [zeroSet] .pwm = [] := by decide
      rw [none]
      nofun

/-- A step of the link after which a recording goes on. -/
def InOrder (p : Pool Link Line Party LinkJob) (l : Label Link Party LinkJob) : Prop :=
  HeaderInTime p l ∧ ∀ i msg, l = .exec i (.parse msg) → InBounds (parse msg)

/-- The first header is read when it is there, and messages are parsed. -/
def inOrder (p : Pool Link Line Party LinkJob) : Label Link Party LinkJob → Bool
  | .exec _ (.read n) => n ≤ p.mem.arrived.length && p.mem.reads.isEmpty
  | .exec _ (.parse msg) => (parse msg).toOption.isSome
  | _ => true

theorem unblocked_of_inOrder {p : Pool Link Line Party LinkJob} {l : Label Link Party LinkJob}
    (test : inOrder p l = true) : unblocked p l = true := by
  cases l with
  | start i j => rfl
  | finish i => rfl
  | exec i o =>
      cases o with
      | read n => exact (Bool.and_eq_true_iff.mp test).1
      | isOpen | isDataAvailable | readWithin | parse | deliver => rfl

theorem inOrder_sound (p : Pool Link Line Party LinkJob) (l : Label Link Party LinkJob)
    (test : inOrder p l = true) : InOrder p l := by
  constructor
  · rintro i rfl ⟨start, late⟩
    have none := List.isEmpty_iff.mp (Bool.and_eq_true_iff.mp test).2
    rw [none] at late
    cases late
  · rintro i msg rfl
    have parsed : (parse msg).toOption.isSome = true := test
    cases result : parse msg with
    | ok out => exact ⟨out, rfl⟩
    | error e =>
        rw [result] at parsed
        cases parsed

theorem exists_run_of_link (text : Field → Text.Line) (float : Text.Line → Option ℚ)
    (minInterval : ℚ) {frames : List Frame} {p : Pool Link Line Party LinkJob}
    (reached : linkSystem.ReachesBy InOrder (Pool.idle (.sending frames)) p) :
    ∃ h s, Run (Restrict (RecordStep text float minInterval) (Intact float minInterval))
      (sending frames) h s ∧ s.link = p := by
  obtain ⟨h, run⟩ := reached
  induction run with
  | nil => exact ⟨[], _, .nil, rfl⟩
  | step _ last ih =>
      obtain ⟨h, s, run, rfl⟩ := ih
      have intact : Intact float minInterval s (.link _) := last.1.1
      exact ⟨_, _, run.step ⟨intact, .link last.2 last.1.2⟩, rfl⟩

/-- The frame arrives at once, and the next look at the file plots its row. -/
theorem plots_of_run_zeroSet :
    ∃ h s, Run (Restrict (RecordStep zeroText decimal (1 / 100)) (Intact decimal (1 / 100)))
        (sending [zeroSet]) h s ∧
      s.content .acc = "0.000000, 0.0000, 0.0000, 0.0000\n".toList ∧
      ∀ event, event.content = s.content .acc →
        event.currentTime - (s.plot .acc).lastTriggered > 1 / 100 →
        ((s.tell decimal (1 / 100) .acc event).plot .acc).fargs "t" = [0] := by
  have played : (linkSystem.play lineHandler inOrder (portion 21)
      (Pool.idle (.sending [zeroSet]))).any
        (fun q => messages q.mem.handed == [zeroSet.bytes]) = true := by
    decide +kernel
  obtain ⟨q, reached, check⟩ := System.exists_of_tested_play
    (fun p i o test => lineHandler_within p i o (unblocked_of_inOrder test))
    inOrder_sound (by decide) played
  obtain ⟨h, s, run, rfl⟩ := exists_run_of_link zeroText decimal (1 / 100) reached
  obtain ⟨_, now⟩ := receives_of_run prints_zeroSet run
  have content : s.content .acc = "0.000000, 0.0000, 0.0000, 0.0000\n".toList := by
    rw [now.content, rows_eq, ← now.messages, eq_of_beq check]
    decide +kernel
  obtain ⟨received, sublist, all⟩ := plots_of_run prints_zeroSet run
  obtain ⟨rowsThere, _, shown⟩ := all .acc
  refine ⟨h, s, run, content, fun event whole told => ?_⟩
  rw [shown event whole told]
  rcases List.sublist_singleton.mp sublist with rfl | rfl
  · rw [content] at rowsThere
    cases rowsThere
  · decide +kernel

end Recording

end Lra
