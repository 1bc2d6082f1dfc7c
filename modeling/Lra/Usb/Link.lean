import Lra.Effect.Protocol
import Lra.Usb.Reader

/-!
# The link between the device and the reader

The device's bytes arrive in any portions at any time, and `ParseTask` takes its
steps in between. As long as no body is late the reader stays on frame boundaries.
A late body leaves it inside a frame, and the next header it reads is out of place.
-/

namespace Lra

open Effect

namespace Rcws

/-- One turn of the loop of `ParseTask`. -/
def parseTask : Program Link Unit := do
  let isOpen ← .op .isOpen .ret
  let available ← if isOpen then .op .isDataAvailable .ret else pure false
  if available then
    let msg ← readRcwsMsg
    .op (.parse msg) .ret

end Rcws

inductive Party where
  | device
  | reader
  deriving DecidableEq

inductive LinkJob where
  | deliver (n : Nat)
  | parseTask
  deriving DecidableEq

/-- Bytes arrive and the reader takes turns, one operation at a time. -/
def linkSystem : System Link Line Party LinkJob where
  sem := onLine
  code
    | .deliver n => .op (.deliver n) .ret
    | .parseTask => Rcws.parseTask
  may
    | .device, .deliver _ => True
    | .reader, .parseTask => True
    | _, _ => False

instance (i : Party) (j : LinkJob) : Decidable (linkSystem.may i j) := by
  cases i <;> cases j <;> first | exact .isTrue trivial | exact .isFalse id

/-- An open port with all bytes of `frames` still on their way. -/
def Line.sending (frames : List Frame) : Line := { wire := frames.flatMap Frame.bytes }

/-! ### What is required -/

/-- `k` bytes are a whole number of the first frames. -/
def Boundary (frames : List Frame) (k : Nat) : Prop :=
  ∃ before, before <+: frames ∧ k = (before.flatMap Frame.bytes).length

/-- Every header was read where a frame begins. -/
def Aligned (frames : List Frame) (reads : List Access) : Prop :=
  ∀ start, .blocking start ∈ reads → Boundary frames start

/-- The messages handed to the parser that are not empty, in order. -/
def messages (handed : List (List UInt8)) : List (List UInt8) :=
  handed.reverse.filter (· ≠ [])

/-- Headers are in place, and what is handed over are some of the frames, whole and in order. -/
structure Faithful (frames : List Frame) (s : Line) : Prop where
  aligned : Aligned frames s.reads
  sublist : (messages s.handed).Sublist (frames.map Frame.bytes)

/-- Some body missed its timeout. -/
def WasLate (s : Line) : Prop := ∃ start, .timedOut start ∈ s.reads

/-- No header is read once a body was late. -/
def HeaderInTime (p : Pool Link Line Party LinkJob) (l : Label Link Party LinkJob) : Prop :=
  ∀ i, l = .exec i (.read 3) → ¬ WasLate p.mem

/-! ### Frame boundaries -/

theorem flatMap_length_le_of_prefix {as bs : List Frame} (h : as <+: bs) :
    (as.flatMap Frame.bytes).length ≤ (bs.flatMap Frame.bytes).length := by
  obtain ⟨cs, rfl⟩ := h
  simp [List.flatMap_append]

theorem boundary_prefix {frames before rest : List Frame} (split : frames = before ++ rest) :
    Boundary frames (before.flatMap Frame.bytes).length :=
  ⟨before, ⟨rest, split.symm⟩, rfl⟩

/-- Between two boundaries there is none. -/
theorem not_boundary_inside {frames before rest : List Frame} {f : Frame} {k : Nat}
    (split : frames = before ++ f :: rest) (pos : 0 < k) (lt : k < f.bytes.length) :
    ¬ Boundary frames ((before.flatMap Frame.bytes).length + k) := by
  rintro ⟨other, isPrefix, len⟩
  have upTo : before <+: frames := ⟨f :: rest, split.symm⟩
  have upToNext : before ++ [f] <+: frames := ⟨rest, by simp [split]⟩
  rcases Nat.lt_or_ge before.length other.length with longer | shorter
  · have sub := List.prefix_of_prefix_length_le upToNext isPrefix (by
      rw [List.length_append]
      exact longer)
    have := flatMap_length_le_of_prefix sub
    simp only [List.flatMap_append, List.length_append, List.flatMap_singleton] at this
    omega
  · have := flatMap_length_le_of_prefix (List.prefix_of_prefix_length_le isPrefix upTo shorter)
    omega

/-! ### The reader, step by step -/

/-- Where a thread is: the device; the reader before a header, after one, and with the
message it is to hand over. -/
inductive LinkPhase where
  | delivering
  | polling
  | body (header : List UInt8)
  | holding (msg : List UInt8)

inductive Reading : Protocol Link LinkPhase where
  | deliver {n r} : Reading .delivering (.deliver n) r .delivering
  | isOpen {r} : Reading .polling .isOpen r .polling
  | isDataAvailable {r} : Reading .polling .isDataAvailable r .polling
  | closed {r} : Reading .polling (.parse []) r .polling
  | header {h} : Reading .polling (.read 3) h (.body h)
  | body {h b} :
      Reading (.body h) (.readWithin (dataLen h).toNat 25) (some b) (.holding (h ++ b))
  | late {h} : Reading (.body h) (.readWithin (dataLen h).toNat 25) none (.holding [])
  | hand {m r} : Reading (.holding m) (.parse m) r .polling

namespace LinkPhase

def first : LinkJob → LinkPhase
  | .deliver _ => .delivering
  | .parseTask => .polling

/-- A job returns in the phase it began in. -/
def final (j : LinkJob) (t : LinkPhase) : Prop := t = first j

/-- The reader's phase; between turns it is before a header. -/
def ofReader (ts : Party → Option (LinkJob × LinkPhase)) : LinkPhase :=
  match ts .reader with
  | none => .polling
  | some (_, t) => t

end LinkPhase

theorem readRcwsMsg_parse :
    (Rcws.readRcwsMsg >>= fun msg => (.op (.parse msg) .ret : Program Link Unit)).Follows Reading
      (fun u _ => u = .polling) .polling := by
  intro isOpen
  refine ⟨_, .isOpen, ?_⟩
  cases isOpen with
  | false => exact fun r => ⟨_, .closed, rfl⟩
  | true =>
      intro header
      refine ⟨_, .header, fun body => ?_⟩
      cases body with
      | some body => exact ⟨_, .body, fun r => ⟨_, .hand, rfl⟩⟩
      | none => exact ⟨_, .late, fun r => ⟨_, .hand, rfl⟩⟩

theorem code_follows_reading (j : LinkJob) :
    (linkSystem.code j).Follows Reading (fun u _ => LinkPhase.final j u) (.first j) := by
  cases j with
  | deliver n => exact fun r => ⟨_, .deliver, rfl⟩
  | parseTask =>
      intro isOpen
      refine ⟨_, .isOpen, ?_⟩
      cases isOpen with
      | false => exact rfl
      | true =>
          intro available
          refine ⟨_, .isDataAvailable, ?_⟩
          cases available with
          | false => exact rfl
          | true => exact readRcwsMsg_parse

/-! ### Staying on the boundaries, and losing them -/

/-- The reader is where its phase says, and every message so far is one of the frames
before that place. -/
inductive InStep (frames : List Frame) (bytes : List UInt8) (handed : List (List UInt8)) :
    LinkPhase → Prop where
  | polling {before rest} (split : frames = before ++ rest)
      (taken : bytes = before.flatMap Frame.bytes)
      (sublist : (messages handed).Sublist (before.map Frame.bytes)) :
      InStep frames bytes handed .polling
  | body {before f rest} (split : frames = before ++ f :: rest)
      (taken : bytes = before.flatMap Frame.bytes ++ f.header)
      (sublist : (messages handed).Sublist (before.map Frame.bytes)) :
      InStep frames bytes handed (.body f.header)
  | holding {before f rest} (split : frames = before ++ f :: rest)
      (taken : bytes = before.flatMap Frame.bytes ++ f.bytes)
      (sublist : (messages handed).Sublist (before.map Frame.bytes)) :
      InStep frames bytes handed (.holding f.bytes)

/-- A late body has left the reader inside a frame. -/
inductive Inside (frames : List Frame) (bytes : List UInt8) (handed : List (List UInt8)) :
    LinkPhase → Prop where
  | mk {before f rest part t} (idle : t = .polling ∨ t = .holding [])
      (split : frames = before ++ f :: rest)
      (taken : bytes = before.flatMap Frame.bytes ++ part) (pos : 0 < part.length)
      (lt : part.length < f.bytes.length)
      (sublist : (messages handed).Sublist (before.map Frame.bytes)) :
      Inside frames bytes handed t

/-- No byte is lost on the way, and the reader is in step, or stuck inside a frame after
a late body, or has already read a header out of place. -/
structure LinkInv (frames : List Frame) (t : LinkPhase) (s : Line) : Prop where
  stream : s.taken ++ s.arrived ++ s.wire = frames.flatMap Frame.bytes
  place : Aligned frames s.reads →
    InStep frames s.taken s.handed t ∧ ¬ WasLate s ∨ Inside frames s.taken s.handed t ∧ WasLate s

section Invariant

variable {frames : List Frame} {t : LinkPhase} {s s' : Line} {n : Nat}

theorem messages_cons (msg : List UInt8) (handed : List (List UInt8)) :
    messages (msg :: handed) = messages handed ++ [msg].filter (· ≠ []) := by
  simp [messages]

@[simp] theorem messages_cons_nil (handed : List (List UInt8)) :
    messages ([] :: handed) = messages handed := by
  simp [messages]

theorem LinkInv.faithful (inv : LinkInv frames t s) (aligned : Aligned frames s.reads) :
    Faithful frames s := by
  have upTo : ∃ before, before <+: frames ∧
      (messages s.handed).Sublist (before.map Frame.bytes) := by
    rcases inv.place aligned with ⟨inStep, -⟩ | ⟨inside, -⟩
    · cases inStep with
      | polling split _ sublist => exact ⟨_, ⟨_, split.symm⟩, sublist⟩
      | body split _ sublist => exact ⟨_, ⟨_, split.symm⟩, sublist⟩
      | holding split _ sublist => exact ⟨_, ⟨_, split.symm⟩, sublist⟩
    · cases inside with
      | mk _ split _ _ _ sublist => exact ⟨_, ⟨_, split.symm⟩, sublist⟩
  obtain ⟨before, isPrefix, sublist⟩ := upTo
  exact ⟨aligned, sublist.trans (isPrefix.sublist.map _)⟩

/-- Before a header, the reader is on a boundary unless a body was late. -/
theorem LinkInv.boundary_iff (inv : LinkInv frames .polling s) (aligned : Aligned frames s.reads) :
    Boundary frames s.taken.length ↔ ¬ WasLate s := by
  rcases inv.place aligned with ⟨inStep, inTime⟩ | ⟨inside, late⟩
  · refine iff_of_true ?_ inTime
    cases inStep with
    | polling split taken _ =>
        rw [taken]
        exact boundary_prefix split
  · refine iff_of_false ?_ (not_not_intro late)
    cases inside with
    | mk _ split taken pos lt _ =>
        rw [taken, List.length_append]
        exact not_boundary_inside split pos lt

theorem aligned_cons_blocking {reads : List Access} {start : Nat} :
    Aligned frames (.blocking start :: reads) ↔ Boundary frames start ∧ Aligned frames reads := by
  simp [Aligned]

theorem aligned_cons_timed {reads : List Access} {start : Nat} :
    Aligned frames (.timed start :: reads) ↔ Aligned frames reads := by
  simp [Aligned]

theorem aligned_cons_timedOut {reads : List Access} {start : Nat} :
    Aligned frames (.timedOut start :: reads) ↔ Aligned frames reads := by
  simp [Aligned]

/-- What is taken from the front of the arrived bytes. -/
theorem take_arrived {arrived wire front rest : List UInt8} (h : arrived ++ wire = front ++ rest)
    (enough : front.length ≤ arrived.length) : arrived.take front.length = front := by
  have := congrArg (List.take front.length) h
  simpa [List.take_append_of_le_length enough] using this

theorem consume_stream (s : Line) (n : Nat) (access : Nat → Access) :
    (s.consume n access).taken ++ (s.consume n access).arrived ++ (s.consume n access).wire =
      s.taken ++ s.arrived ++ s.wire := by
  simp [Line.consume]

theorem linkInv_deliver {r : Unit} (inv : LinkInv frames t s)
    (answer : onLine (.deliver n) s r s') : LinkInv frames t s' := by
  obtain rfl := answer
  refine ⟨?_, inv.place⟩
  rw [← inv.stream]
  simp [Line.arrive]

theorem linkInv_header {h : List UInt8} (inv : LinkInv frames .polling s)
    (answer : onLine (.read 3) s h s') : LinkInv frames (.body h) s' := by
  obtain ⟨enough, rfl, rfl⟩ := answer
  refine ⟨(consume_stream s 3 .blocking).trans inv.stream, fun aligned => ?_⟩
  obtain ⟨onBoundary, aligned⟩ := aligned_cons_blocking.mp aligned
  have inTime := (inv.boundary_iff aligned).mp onBoundary
  rcases inv.place aligned with ⟨inStep, -⟩ | ⟨-, late⟩
  · cases inStep with
    | @polling before rest split taken sublist =>
        have ahead : s.arrived ++ s.wire = rest.flatMap Frame.bytes := by
          have stream := inv.stream
          rw [split, taken, List.flatMap_append, List.append_assoc] at stream
          exact List.append_cancel_left stream
        cases rest with
        | nil =>
            rw [(List.append_eq_nil_iff.mp ahead).1] at enough
            simp at enough
        | cons f rest =>
            have header : s.arrived.take 3 = f.header := by
              rw [List.flatMap_cons, Frame.bytes, List.append_assoc] at ahead
              exact take_arrived ahead enough
            rw [header]
            refine .inl ⟨.body split ?_ sublist, ?_⟩
            · rw [← header, ← taken]
              rfl
            · simpa [WasLate, Line.consume] using inTime
  · exact absurd late inTime

theorem linkInv_body {h b : List UInt8} {ms : Nat} (inv : LinkInv frames (.body h) s)
    (answer : onLine (.readWithin (dataLen h).toNat ms) s (some b) s') :
    LinkInv frames (.holding (h ++ b)) s' := by
  rcases answer with ⟨enough, got, rfl⟩ | ⟨_, none, _⟩
  · obtain rfl := Option.some.inj got
    refine ⟨(consume_stream s _ .timed).trans inv.stream, fun aligned => ?_⟩
    rcases inv.place (aligned_cons_timed.mp aligned) with ⟨inStep, inTime⟩ | ⟨inside, _⟩
    · cases inStep with
      | @body before f rest split taken sublist =>
          have ahead : s.arrived ++ s.wire = f.body ++ rest.flatMap Frame.bytes := by
            have stream := inv.stream
            rw [split, taken, List.flatMap_append, List.flatMap_cons, Frame.bytes] at stream
            simpa [List.append_assoc] using stream
          rw [f.dataLen_header] at enough ⊢
          have body := take_arrived ahead enough
          rw [body]
          refine .inl ⟨.holding split ?_ sublist, ?_⟩
          · simp [Line.consume, body, taken, Frame.bytes]
          · simpa [WasLate, Line.consume] using inTime
    · cases inside with
      | mk idle _ _ _ _ _ => simp at idle
  · cases none

/-- A late body loses the rest of its frame to the next header. -/
theorem linkInv_late {h : List UInt8} {ms : Nat} (inv : LinkInv frames (.body h) s)
    (answer : onLine (.readWithin (dataLen h).toNat ms) s none s') :
    LinkInv frames (.holding []) s' := by
  rcases answer with ⟨_, none, _⟩ | ⟨short, _, rfl⟩
  · cases none
  · refine ⟨(consume_stream s _ .timedOut).trans inv.stream, fun aligned => ?_⟩
    rcases inv.place (aligned_cons_timedOut.mp aligned) with ⟨inStep, _⟩ | ⟨inside, _⟩
    · cases inStep with
      | @body before f rest split taken sublist =>
          have pos := f.body_pos
          rw [f.dataLen_header] at short
          have consumed : (s.consume s.arrived.length .timedOut).taken =
              before.flatMap Frame.bytes ++ (f.header ++ s.arrived) := by
            simp [Line.consume, taken]
          refine .inr ⟨.mk (.inr rfl) split consumed ?_ ?_ sublist, ⟨_, List.mem_cons_self ..⟩⟩
          · simp only [List.length_append, Frame.header_length]
            omega
          · simp only [List.length_append, Frame.header_length, Frame.bytes_length]
            omega
    · cases inside with
      | mk idle _ _ _ _ _ => simp at idle

theorem linkInv_closed {r : Unit} (inv : LinkInv frames .polling s)
    (answer : onLine (.parse []) s r s') : LinkInv frames .polling s' := by
  obtain rfl := answer
  refine ⟨inv.stream, fun aligned => ?_⟩
  rcases inv.place aligned with ⟨inStep, inTime⟩ | ⟨inside, late⟩
  · cases inStep with
    | polling split taken sublist =>
        exact .inl ⟨.polling split taken (by simpa [Line.hand] using sublist), inTime⟩
  · cases inside with
    | mk idle split taken pos lt sublist =>
        exact .inr ⟨.mk idle split taken pos lt (by simpa [Line.hand] using sublist), late⟩

theorem linkInv_hand {m : List UInt8} {r : Unit} (inv : LinkInv frames (.holding m) s)
    (answer : onLine (.parse m) s r s') : LinkInv frames .polling s' := by
  obtain rfl := answer
  refine ⟨inv.stream, fun aligned => ?_⟩
  rcases inv.place aligned with ⟨inStep, inTime⟩ | ⟨inside, late⟩
  · cases inStep with
    | @holding before f rest split taken sublist =>
        have split : frames = (before ++ [f]) ++ rest := by simpa using split
        refine .inl ⟨.polling split ?_ ?_, inTime⟩
        · simpa [Line.hand] using taken
        · rw [Line.hand, messages_cons, List.map_append]
          exact sublist.append (by simp [f.bytes_ne_nil])
  · cases inside with
    | mk idle split taken pos lt sublist =>
        rcases idle with idle | idle
        · cases idle
        · cases idle
          exact .inr ⟨.mk (.inl rfl) split taken pos lt (by simpa [Line.hand] using sublist), late⟩

/-- One operation of the reader leads to the place its next phase says. -/
theorem linkInv_exec {t' : LinkPhase} {o : LinkOp} {r : Link.Res o} (inv : LinkInv frames t s)
    (permitted : Reading t o r t') (answer : onLine o s r s') : LinkInv frames t' s' := by
  cases permitted with
  | deliver => exact linkInv_deliver inv answer
  | isOpen =>
      obtain ⟨-, rfl⟩ := answer
      exact inv
  | isDataAvailable =>
      obtain ⟨-, rfl⟩ := answer
      exact inv
  | closed => exact linkInv_closed inv answer
  | header => exact linkInv_header inv answer
  | body => exact linkInv_body inv answer
  | late => exact linkInv_late inv answer
  | hand => exact linkInv_hand inv answer

end Invariant

/-! ### All runs -/

/-- Each party does its own job, and the reader is where the invariant says. -/
structure LinkRun (frames : List Frame) (ts : Party → Option (LinkJob × LinkPhase)) (s : Line) :
    Prop where
  device : ∀ j t, ts .device = some (j, t) → t = .delivering
  reader : ∀ j t, ts .reader = some (j, t) → j = .parseTask
  inv : LinkInv frames (.ofReader ts) s

theorem link_preserved (frames : List Frame) :
    Preserved linkSystem Reading LinkPhase.first LinkPhase.final (fun _ _ => True)
      (fun ts _ s => LinkRun frames ts s) where
  follows {i j} _ := code_follows_reading j
  start {p ts i j} _ run idle may := by
    cases i with
    | device =>
        refine ⟨fun j' t state => ?_, run.reader, run.inv⟩
        cases j with
        | deliver n =>
            cases state
            rfl
        | parseTask => exact may.elim
    | reader =>
        have inv := run.inv
        simp only [LinkPhase.ofReader, idle] at inv
        cases j with
        | deliver n => exact may.elim
        | parseTask =>
            refine ⟨run.device, fun j' t state => ?_, inv⟩
            cases state
            rfl
  exec {p ts i j t o r t' m} _ run state _ permitted answer _ := by
    cases i with
    | device =>
        obtain rfl := run.device j t state
        cases permitted with
        | @deliver n r =>
            refine ⟨fun j' u state => ?_, run.reader, linkInv_deliver (r := r) run.inv answer⟩
            cases state
            rfl
    | reader =>
        have inv := run.inv
        simp only [LinkPhase.ofReader, state] at inv
        refine ⟨run.device, fun j' u state' => ?_, linkInv_exec inv permitted answer⟩
        cases state'
        exact run.reader j t state
  finish {p ts i j t} _ run state final := by
    cases i with
    | device => exact ⟨fun j' u state => (nomatch state), run.reader, run.inv⟩
    | reader =>
        have inv := run.inv
        obtain rfl := run.reader j t state
        obtain rfl := final
        simp only [LinkPhase.ofReader, state] at inv
        exact ⟨run.device, fun j' u state => (nomatch state), inv⟩

theorem linkRun_sending (frames : List Frame) :
    LinkRun frames (fun _ => none) (.sending frames) where
  device _ _ state := nomatch state
  reader _ _ state := nomatch state
  inv := {
    stream := rfl
    place := by
      intro _
      have split : frames = [] ++ frames := rfl
      exact .inl ⟨.polling split rfl (List.Sublist.refl []), fun late => nomatch late⟩ }

/-- Every moment of a run of the link satisfies the invariant. -/
theorem exists_linkRun {frames : List Frame} {h : List (Label Link Party LinkJob ×
      Pool Link Line Party LinkJob)} {p : Pool Link Line Party LinkJob}
    (run : Run linkSystem.Step (Pool.idle (.sending frames)) h p) :
    ∃ ts, Tracks Reading LinkPhase.final p ts ∧ LinkRun frames ts p.mem :=
  (link_preserved frames).reaches (Tracks.idle _) (linkRun_sending frames)
    ⟨_, run.mono fun step => ⟨trivial, step⟩⟩

/-- Operations other than reading a header leave the headers read so far. -/
theorem aligned_of_answer (frames : List Frame) {t t' : LinkPhase} {o : LinkOp} {r : Link.Res o}
    {s s' : Line} (permitted : Reading t o r t') (answer : onLine o s r s') :
    o = .read 3 ∧ t = .polling ∧ s' = s.consume 3 .blocking ∨
      o ≠ .read 3 ∧ (Aligned frames s'.reads ↔ Aligned frames s.reads) := by
  cases permitted with
  | header => exact .inl ⟨rfl, rfl, answer.2.2⟩
  | body =>
      rcases answer with ⟨_, _, rfl⟩ | ⟨_, none, _⟩
      · exact .inr ⟨by simp, aligned_cons_timed⟩
      · cases none
  | late =>
      rcases answer with ⟨_, none, _⟩ | ⟨_, _, rfl⟩
      · cases none
      · exact .inr ⟨by simp, aligned_cons_timedOut⟩
  | deliver | closed | hand =>
      obtain rfl := answer
      exact .inr ⟨by simp, Iff.rfl⟩
  | isOpen | isDataAvailable =>
      obtain ⟨_, rfl⟩ := answer
      exact .inr ⟨by simp, Iff.rfl⟩

/-- A step keeps the headers in place exactly if it reads none after a late body. -/
theorem faithful_step_iff {frames : List Frame}
    {h : List (Label Link Party LinkJob × Pool Link Line Party LinkJob)}
    {p q : Pool Link Line Party LinkJob} {l : Label Link Party LinkJob}
    (run : Run linkSystem.Step (Pool.idle (.sending frames)) h p) (good : Faithful frames p.mem)
    (step : linkSystem.Step p l q) : Faithful frames q.mem ↔ HeaderInTime p l := by
  obtain ⟨_, _, later⟩ := exists_linkRun (.step run step)
  have iff_aligned : Faithful frames q.mem ↔ Aligned frames q.mem.reads :=
    ⟨Faithful.aligned, later.inv.faithful⟩
  rw [iff_aligned]
  obtain ⟨ts, tracks, now⟩ := exists_linkRun run
  cases step with
  | start _ _ => exact iff_of_true good.aligned fun i h => (nomatch h)
  | finish _ => exact iff_of_true good.aligned fun i h => (nomatch h)
  | @exec i j o next r m active answer =>
      obtain ⟨t, state, follows⟩ := tracks.of_thread active
      obtain ⟨t', permitted, _⟩ := follows r
      rcases aligned_of_answer frames permitted answer with
        ⟨rfl, rfl, rfl⟩ | ⟨other, same⟩
      · have polling : LinkPhase.ofReader ts = .polling := by
          cases i with
          | device => cases now.device j _ state
          | reader => simp [LinkPhase.ofReader, state]
        have inv := now.inv
        rw [polling] at inv
        have exact := inv.boundary_iff good.aligned
        refine aligned_cons_blocking.trans ⟨fun onBoundary i' h => ?_, fun inTime => ?_⟩
        · exact exact.mp onBoundary.1
        · exact ⟨exact.mpr (inTime i rfl), good.aligned⟩
      · refine iff_of_true (same.mpr good.aligned) fun i' h => ?_
        cases h
        exact absurd rfl other

/-- Over a run of the link, headers are always in place and the messages handed over are
always some of the frames sent, whole and in order, exactly if no header is read once a
body was late. -/
theorem faithful_iff {frames : List Frame}
    {h : List (Label Link Party LinkJob × Pool Link Line Party LinkJob)}
    {q : Pool Link Line Party LinkJob}
    (run : Run linkSystem.Step (Pool.idle (.sending frames)) h q) :
    (∀ h', h' <:+ h → Faithful frames (stateAfter (Pool.idle (.sending frames)) h').mem) ↔
      ∀ l p h', (l, p) :: h' <:+ h →
        HeaderInTime (stateAfter (Pool.idle (.sending frames)) h') l := by
  refine run.always_iff ?_ fun earlier good step => ?_
  · exact (linkRun_sending frames).inv.faithful fun start h => (nomatch h)
  · rw [earlier.stateAfter_eq] at good ⊢
    exact faithful_step_iff earlier good step

/-! ### Playing schedules -/

/-- Reads never block, and a body is late whenever it is not there yet. -/
def lineHandler : Handler Link Line
  | .isOpen, s => (s.opened, s)
  | .isDataAvailable, s => (!s.arrived.isEmpty, s)
  | .read n, s => (s.arrived.take n, s.consume n .blocking)
  | .readWithin n _, s =>
    if n ≤ s.arrived.length then
      (some (s.arrived.take n), s.consume n .timed)
    else
      (none, s.consume s.arrived.length .timedOut)
  | .parse msg, s => ((), s.hand msg)
  | .deliver n, s => ((), s.arrive n)

/-- A blocking read is only scheduled when its bytes are there. -/
def unblocked (p : Pool Link Line Party LinkJob) : Label Link Party LinkJob → Bool
  | .exec _ (.read n) => n ≤ p.mem.arrived.length
  | _ => true

theorem lineHandler_within (p : Pool Link Line Party LinkJob) (i : Party) (o : LinkOp)
    (test : unblocked p (.exec i o) = true) :
    onLine o p.mem (lineHandler o p.mem).1 (lineHandler o p.mem).2 := by
  cases o with
  | read n => exact ⟨of_decide_eq_true test, rfl, rfl⟩
  | readWithin n ms =>
      by_cases enough : n ≤ p.mem.arrived.length
      · simp [onLine, lineHandler, enough]
      · have short := Nat.lt_of_not_le enough
        simp [onLine, lineHandler, enough, short]
  | isOpen => exact ⟨rfl, rfl⟩
  | isDataAvailable => exact ⟨rfl, rfl⟩
  | parse msg => exact rfl
  | deliver n => exact rfl

/-- Deliver `n` bytes and let the reader take the turn it can take. -/
def portion (n : Nat) : List (System.Move Party LinkJob) :=
  [.start .device (.deliver n), .go .device, .finish .device, .start .reader .parseTask] ++
    List.replicate 6 (.go .reader) ++ [.finish .reader]

/-- A frame whose body reads `A`, `B`, `0`, `3`, `C` and the terminator. -/
def splitFrame : Frame where
  type := 0x21
  body := [0x41, 0x42, 0x00, 0x03, 0x43, 0x0D, 0x0A]
  body_pos := by decide
  body_lt := by decide

/-- The frame arrives with a pause after its fourth byte, and the rest of its body is
taken for a message. -/
theorem body_taken_for_message :
    ∃ frames q msg, linkSystem.Reaches (Pool.idle (.sending frames)) q ∧
      msg ∈ messages q.mem.handed ∧ msg ∉ frames.map Frame.bytes ∧ ¬ Faithful frames q.mem := by
  have played : (linkSystem.play lineHandler unblocked (portion 4 ++ portion 6)
      (Pool.idle (.sending [splitFrame]))).any
        (fun q => q.mem.handed == [[0x42, 0x00, 0x03, 0x43, 0x0D, 0x0A], []]) = true := by
    decide +kernel
  obtain ⟨q, reached, check⟩ := System.exists_of_tested_play lineHandler_within
    (fun _ _ _ => trivial) (by decide) played
  have handed := eq_of_beq check
  have given : [0x42, 0x00, 0x03, 0x43, 0x0D, 0x0A] ∈ messages q.mem.handed := by
    simp [messages, handed]
  have foreign : [0x42, 0x00, 0x03, 0x43, 0x0D, 0x0A] ∉ [splitFrame].map Frame.bytes := by
    decide
  exact ⟨[splitFrame], q, _, reached, given, foreign,
    fun faithful => foreign (faithful.sublist.subset given)⟩

/-- The equivalence on a run in which the frame arrives at once. -/
theorem faithful_iff_at_once :
    ∃ h q, Run linkSystem.Step (Pool.idle (.sending [splitFrame])) h q ∧
      messages q.mem.handed = [splitFrame.bytes] ∧
      ((∀ h', h' <:+ h → Faithful [splitFrame]
          (stateAfter (Pool.idle (.sending [splitFrame])) h').mem) ↔
        ∀ l p h', (l, p) :: h' <:+ h →
          HeaderInTime (stateAfter (Pool.idle (.sending [splitFrame])) h') l) := by
  have played : (linkSystem.play lineHandler unblocked (portion 10)
      (Pool.idle (.sending [splitFrame]))).any
        (fun q => messages q.mem.handed == [splitFrame.bytes]) = true := by
    decide +kernel
  obtain ⟨q, reached, check⟩ := System.exists_of_tested_play lineHandler_within
    (fun _ _ _ => trivial) (by decide) played
  obtain ⟨h, run⟩ : linkSystem.Reaches _ q := reached
  have run := run.mono fun step => step.2
  exact ⟨h, q, run, eq_of_beq check, faithful_iff run⟩

end Lra
