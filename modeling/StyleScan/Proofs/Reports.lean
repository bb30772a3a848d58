import StyleScan.Proofs.Chunking
import StyleScan.Proofs.OpenPiece

/-! # What operations report

The events of the operations on a tokenizer fall in two parts.  Some announce the operations
themselves: a chunk arrives, bytes were replaced, input is refused.  The others come from reading,
and these do not depend on how the input is cut: they are the events of the whole text
(`readingOf_reportedAll_new`).  What a hook sees is taken from the reading alone
(`traceOf_readingOf`).

## Implementation notes

Operations that bring no input report nothing, so that only those that bring some are followed here
through a session. -/

namespace StyleScan

namespace Event

/-- The event comes from reading characters or from the end of what they form. -/
def isReading : Event → Bool
  | .read _ _ | .started _ _ | .produced _ | .entered _ _ | .left _ _ | .endedInside _ _ => true
  | .created | .feeding _ | .feedingRaw _ | .replaced _ _ | .truncated _ | .finishing _
  | .refused | .failed _ => false

/-- The event comes from reading a character. -/
def isScanning : Event → Bool
  | .read _ _ | .started _ _ | .produced _ | .entered _ _ | .left _ _ => true
  | .endedInside _ _ | .created | .feeding _ | .feedingRaw _ | .replaced _ _ | .truncated _
  | .finishing _ | .refused | .failed _ => false

theorem isReading_of_isScanning {e : Event} (h : e.isScanning) : e.isReading := by
  cases e with
  | read _ _ | started _ _ | produced _ | entered _ _ | left _ _ => rfl
  | _ => cases h

end Event

/-- The events that come from reading. -/
def readingOf (events : List Event) : List Event :=
  events.filter Event.isReading

/-- Nothing else is traced. -/
theorem traceOf_readingOf (events : List Event) : traceOf (readingOf events) = traceOf events := by
  rw [traceOf, readingOf, List.filterMap_filter]
  congr 1
  funext e
  cases e <;> rfl

namespace Phase

theorem isScanning_of_mem_readGeneral (p : Phase) (here : Position) (c : Char) :
    ∀ e ∈ (p.readGeneral here c).1, e.isScanning := by
  unfold readGeneral blank closing
  (repeat' split) <;> simp [Event.isScanning]

theorem isScanning_of_mem_read (p : Phase) (spot : Placement) (c : Char) :
    ∀ e ∈ (p.read spot c).1, e.isScanning := by
  have hgeneral := isScanning_of_mem_readGeneral .between spot.position c
  cases p with
  | between => exact hgeneral
  | blanks start text => exact isScanning_of_mem_readGeneral _ _ _
  | slash start =>
    simp only [read, readSlash]
    (repeat' split) <;> simp only [List.forall_mem_cons]
    · exact ⟨rfl, rfl, rfl, List.forall_mem_nil _⟩
    · exact ⟨rfl, rfl, rfl, List.forall_mem_nil _⟩
    · exact ⟨rfl, rfl, rfl, hgeneral⟩
  | block start body =>
    simp only [read]
    split <;> simp [Event.isScanning]
  | line start body =>
    simp only [read]
    split
    · simp only [List.forall_mem_cons]
      exact ⟨rfl, rfl, hgeneral⟩
    · split <;> simp [Event.isScanning]
  | string quote start body =>
    simp only [read]
    (repeat' split) <;> simp [Event.isScanning]

end Phase

namespace Progress

theorem isScanning_of_mem_step (x : Progress) (c : Char) : ∀ e ∈ (x.step c).1, e.isScanning := by
  intro e he
  rcases List.mem_cons.mp he with rfl | he
  · rfl
  · exact Phase.isScanning_of_mem_read _ _ _ e he

/-- A run reports what it reads and nothing else. -/
theorem isScanning_of_mem_run (x : Progress) (cs : List Char) :
    ∀ e ∈ (x.run cs).1, e.isScanning := by
  induction cs generalizing x with
  | nil => simp
  | cons c cs ih =>
    intro e he
    rw [run_cons] at he
    rcases List.mem_append.mp he with he | he
    · exact isScanning_of_mem_step x c e he
    · exact ih _ e he

theorem isReading_of_mem_run (x : Progress) (cs : List Char) :
    ∀ e ∈ (x.run cs).1, e.isReading :=
  fun e he => Event.isReading_of_isScanning (x.isScanning_of_mem_run cs e he)

theorem isReading_of_mem_flush (x : Progress) : ∀ e ∈ x.flush, e.isReading := by
  obtain ⟨tracker, phase⟩ := x
  cases phase <;> simp [flush, Event.isReading]

end Progress

section Readings

variable (es fs : List Event)

@[simp] theorem readingOf_append : readingOf (es ++ fs) = readingOf es ++ readingOf fs := by
  simp [readingOf]

@[simp] theorem readingOf_cons (e : Event) :
    readingOf (e :: es) = if e.isReading then e :: readingOf es else readingOf es :=
  List.filter_cons

theorem readingOf_eq_self (h : ∀ e ∈ es, e.isReading) : readingOf es = es :=
  List.filter_eq_self.mpr h

@[simp] theorem readingOf_run (x : Progress) (cs : List Char) :
    readingOf (x.run cs).1 = (x.run cs).1 :=
  readingOf_eq_self _ (x.isReading_of_mem_run cs)

@[simp] theorem readingOf_flush (x : Progress) : readingOf x.flush = x.flush :=
  readingOf_eq_self _ x.isReading_of_mem_flush

@[simp] theorem readingOf_cutEvents (decoder : Utf8.Decoder) (here : Position) :
    readingOf (Tokenizer.cutEvents decoder here) = [] := by
  unfold Tokenizer.cutEvents
  split <;> rfl

@[simp] theorem readingOf_replacedEvents (segments : List Utf8.Segment) (here : Position) :
    readingOf (Tokenizer.replacedEvents segments here) = [] := by
  unfold Tokenizer.replacedEvents
  split <;> rfl

end Readings

namespace Tokenizer

/-- What an operation reports. -/
def reported (t : Tokenizer) : Operation → List Event
  | .feed chunk => (t.feed chunk).events
  | .feedBytes chunk => (t.feedBytes chunk).events
  | .finish => t.finish.events
  | .next | .drain | .drainTake _ | .hook | .unhook | .setLevel _ => []

/-- What operations report, in order. -/
def reportedAll (t : Tokenizer) : List Operation → List Event
  | [] => []
  | op :: ops => t.reported op ++ (t.perform op).reportedAll ops

theorem reported_of_not_isInput (t : Tokenizer) {op : Operation} (hop : op.isInput = false) :
    t.reported op = [] := by
  cases op with
  | feed _ | feedBytes _ | finish => simp [Operation.isInput] at hop
  | _ => rfl

/-- All that a closed tokenizer reports is that it refuses. -/
theorem reported_of_closed (t : Tokenizer) (h : t.closed) {op : Operation} (hop : op.isInput) :
    t.reported op = [.refused] := by
  cases op with
  | feed chunk => rw [reported, feed_of_closed t h, refuse]
  | feedBytes chunk => rw [reported, feedBytes_of_closed t h, refuse]
  | finish => rw [reported, finish_of_closed t h, refuse]
  | _ => simp [Operation.isInput] at hop

/-- Input takes nothing out of the queue. -/
theorem handedOut_of_isInput (t : Tokenizer) {ops : List Operation}
    (hops : ∀ op ∈ ops, op.isInput) : t.handedOut ops = [] := by
  induction ops generalizing t with
  | nil => rfl
  | cons op ops ih =>
    rw [handedOut, handsOut_of_isInput t (hops op List.mem_cons_self), List.nil_append]
    exact ih _ fun op' hop' => hops op' (List.mem_cons_of_mem op hop')

/-- After nothing but input, all tokens are in the queue. -/
theorem performAll_new_of_isInput {ops : List Operation} (hops : ∀ op ∈ ops, op.isInput) :
    new.performAll ops =
      (Intake.start.takeAll ops).tokenizer (Intake.start.takeAll ops).tokens := by
  obtain ⟨queue, hall, htokens⟩ := Intake.exists_performAll_new_eq ops
  rw [handedOut_of_isInput new hops, List.nil_append] at htokens
  rw [hall, htokens]

end Tokenizer

namespace Intake

variable {r : Intake}

/-- The events of reading what has been given. -/
def events (r : Intake) : List Event :=
  let read := Progress.start.run r.decoded
  read.1 ++ if r.ended then read.2.flush else []

@[simp] theorem events_start : start.events = [] := by
  simp [start, events, decoded]

theorem events_of_open (h : r.ended = false) : r.events = (Progress.start.run r.decoded).1 := by
  simp [events, h]

/-- The characters of the text are read one by one, each at its position. -/
theorem reads_events (r : Intake) :
    (traceOf r.events).filterMap TraceEvent.read? =
      r.decoded.zip ((Tracker.start.placements r.decoded).map Placement.position) := by
  have hrun := Progress.start.reads_run r.decoded
  rw [events, traceOf_append, List.filterMap_append, hrun]
  cases r.ended with
  | false => exact List.append_nil _
  | true => simp [Progress.reads_flush, Progress.start]

/-- A chunk of text where no bytes came before it is text as it is. -/
theorem take_feed (hopen : r.ended = false) (hblock : r.block = []) (chunk : String) :
    r.take (.feed chunk) = { text := r.text ++ chunk.toList } := by
  simp [take, hopen, hblock]

/-- Only the text and what the decoder holds back make a difference. -/
theorem tokenizer_congr {r r' : Intake} (hd : r.decoded = r'.decoded) (he : r.ended = r'.ended)
    (hs : (Utf8.split r.block).2 = (Utf8.split r'.block).2) :
    r.tokenizer r.tokens = r'.tokenizer r'.tokens ∧ r.events = r'.events := by
  simp [tokenizer, progress, tokens, events, hd, he, hs]

/-- More text adds the events of reading it from where the text so far has led. -/
theorem events_append {r' : Intake} {cs : List Char} (h : r.ended = false)
    (h' : r'.ended = false) (hd : r'.decoded = r.decoded ++ cs) :
    r'.events = r.events ++ (r.progress.run cs).1 := by
  rw [events_of_open h', hd, Progress.run_append, events_of_open h, progress_of_open h]

/-- The end of the input adds the events of its last characters and of what they leave open. -/
theorem events_finish {r' : Intake} {cs : List Char} (h : r.ended = false) (h' : r'.ended)
    (hd : r'.decoded = r.decoded ++ cs) :
    r'.events = r.events ++ ((r.progress.run cs).1 ++ (r.progress.run cs).2.flush) := by
  simp [events, progress, h, h', hd, Progress.run_append]

/-- An operation reports the reading of what it gives. -/
theorem events_take (r : Intake) (queue : List Token) (op : Operation) :
    (r.take op).events = r.events ++ readingOf ((r.tokenizer queue).reported op) := by
  cases hop : op.isInput with
  | false =>
    rw [take_of_not_isInput hop, Tokenizer.reported_of_not_isInput _ hop]
    simp [readingOf]
  | true =>
    cases h : r.ended with
    | true =>
      rw [take_of_ended h, Tokenizer.reported_of_closed _ h hop]
      simp [readingOf, Event.isReading]
    | false =>
      cases op with
      | feed chunk =>
        rw [events_append h (by simp [take, h]) (decoded_take_feed h chunk), Tokenizer.reported,
          tokenizer, h, Tokenizer.feed_tokenizer]
        simp [Event.isReading]
      | feedBytes chunk =>
        rw [events_append h (by simp [take, h]) (decoded_take_feedBytes h chunk),
          Tokenizer.reported, tokenizer, h, Tokenizer.feedBytes_tokenizer]
        simp [Event.isReading, Utf8.Decoder.decode]
      | finish =>
        rw [events_finish h (by simp [take, h]) (decoded_take_finish h), Tokenizer.reported,
          tokenizer, h, Tokenizer.finish_tokenizer]
        simp [Event.isReading]
      | _ => simp [Operation.isInput] at hop

/-- An operation leaves a tokenizer that has been given what the operation gives. -/
theorem exists_queue_perform (r : Intake) (queue : List Token) (op : Operation) :
    ∃ queue', (r.tokenizer queue).perform op = (r.take op).tokenizer queue' := by
  cases hop : op.isInput with
  | false =>
    obtain ⟨queue', hperform, -⟩ := Tokenizer.perform_of_not_isInput r.progress
      ⟨(Utf8.split r.block).2⟩ queue r.ended hop
    rw [take_of_not_isInput hop]
    exact ⟨queue', hperform⟩
  | true =>
    obtain ⟨more, hperform, -⟩ := exists_perform_input_eq r queue hop
    exact ⟨queue ++ more, hperform⟩

/-- Operations report the reading of what they give. -/
theorem events_takeAll (r : Intake) (queue : List Token) (ops : List Operation) :
    (r.takeAll ops).events = r.events ++ readingOf ((r.tokenizer queue).reportedAll ops) := by
  induction ops generalizing r queue with
  | nil => simp [takeAll, Tokenizer.reportedAll, readingOf]
  | cons op ops ih =>
    obtain ⟨queue', hperform⟩ := exists_queue_perform r queue op
    have hrest : (r.takeAll (op :: ops)).events = (r.take op).events ++
        readingOf (((r.take op).tokenizer queue').reportedAll ops) := ih (r.take op) queue'
    rw [hrest, events_take r queue op, Tokenizer.reportedAll, hperform, readingOf_append,
      List.append_assoc]

end Intake

/-- However the input is cut, what is reported of reading it is what the whole text makes happen. -/
theorem readingOf_reportedAll_new (ops : List Operation) :
    readingOf (Tokenizer.new.reportedAll ops) = (Intake.start.takeAll ops).events := by
  rw [Intake.events_takeAll .start [] ops, Intake.events_start, List.nil_append,
    Intake.tokenizer_start]

/-- The trace of operations is that of the whole text. -/
theorem traceOf_reportedAll_new (ops : List Operation) :
    traceOf (Tokenizer.new.reportedAll ops) = traceOf (Intake.start.takeAll ops).events := by
  rw [← traceOf_readingOf, readingOf_reportedAll_new]

namespace Session

variable {σ : Type} (s : Session σ)

theorem seen_append (es fs : List Event) : s.seen (es ++ fs) = s.seen es ++ s.seen fs := by
  unfold seen
  split <;> simp

theorem logged_append (es fs : List Event) :
    s.logged (es ++ fs) = s.logged es ++ s.logged fs := by
  simp [logged, Log.Logger.passing]

/-- Input shows the observers what it makes the tokenizer report, and leaves them as they are. -/
theorem perform_of_isInput {op : Operation} (hop : op.isInput) :
    (s.perform op).1 = { s with tokenizer := s.tokenizer.perform op } ∧
      (s.perform op).2.trace = s.seen (s.tokenizer.reported op) ∧
      (s.perform op).2.entries = s.logged (s.tokenizer.reported op) := by
  cases op with
  | feed _ | feedBytes _ | finish => exact ⟨rfl, rfl, rfl⟩
  | _ => simp [Operation.isInput] at hop

/-- So do inputs in order. -/
theorem performAll_of_isInput {ops : List Operation} (hops : ∀ op ∈ ops, op.isInput) :
    (s.performAll ops).1 = { s with tokenizer := s.tokenizer.performAll ops } ∧
      (s.performAll ops).2.flatMap Outcome.trace = s.seen (s.tokenizer.reportedAll ops) ∧
      (s.performAll ops).2.flatMap Outcome.entries = s.logged (s.tokenizer.reportedAll ops) := by
  induction ops generalizing s with
  | nil => simp [performAll, Tokenizer.reportedAll, seen, logged, Log.Logger.passing]
  | cons op ops ih =>
    obtain ⟨hsession, htrace, hentries⟩ := s.perform_of_isInput (hops op (by simp))
    obtain ⟨hrest, hrestTrace, hrestEntries⟩ :=
      ih (s.perform op).1 fun op' hop' => hops op' (by simp [hop'])
    simp only [performAll, List.flatMap_cons, Tokenizer.reportedAll, Tokenizer.performAll_cons]
    rw [hrest, hrestTrace, hrestEntries, hsession, htrace, hentries, seen_append, logged_append]
    exact ⟨rfl, rfl, rfl⟩

end Session

end StyleScan
