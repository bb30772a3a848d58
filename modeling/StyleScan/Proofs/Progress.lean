import StyleScan.Proofs.Phase

/-! # Runs of the scanner

Progress is a phase together with the position of the next character.  Reading a text from some
progress yields events and further progress, and reading a text in two parts is reading the whole.
A scanner that has made some progress reads on exactly like it, whatever events are waiting to be
handed over. -/

namespace StyleScan

/-- The tokens that events hand over. -/
def tokensOf (events : List Event) : List Token :=
  events.filterMap Event.token?

@[simp] theorem tokensOf_nil : tokensOf [] = [] := rfl

@[simp] theorem tokensOf_append (es fs : List Event) :
    tokensOf (es ++ fs) = tokensOf es ++ tokensOf fs := by
  simp [tokensOf]

@[simp] theorem tokensOf_cons (e : Event) (es : List Event) :
    tokensOf (e :: es) = e.token?.toList ++ tokensOf es := by
  cases h : e.token? <;> simp [tokensOf, h]

/-- What a trace reports of events. -/
def traceOf (events : List Event) : List TraceEvent :=
  events.filterMap Event.trace?

@[simp] theorem traceOf_nil : traceOf [] = [] := rfl

@[simp] theorem traceOf_append (es fs : List Event) :
    traceOf (es ++ fs) = traceOf es ++ traceOf fs := by
  simp [traceOf]

@[simp] theorem traceOf_cons (e : Event) (es : List Event) :
    traceOf (e :: es) = e.trace?.toList ++ traceOf es := by
  cases h : e.trace? <;> simp [traceOf, h]

/-- How far the scanner has come. -/
structure Progress where
  tracker : Tracker
  phase : Phase
deriving Repr, DecidableEq, Inhabited

namespace Progress

/-- Nothing has been read. -/
def start : Progress :=
  ⟨.start, .between⟩

/-- The scanner that has come so far. -/
def scanner (x : Progress) (events : Array Event) : Scanner :=
  x.phase.scanner x.tracker events

/-- The events of one character, and the progress after it. -/
def step (x : Progress) (c : Char) : List Event × Progress :=
  let spot := x.tracker.place c
  let (events, p) := x.phase.read spot c
  (.read c spot.position :: events, ⟨x.tracker.advance c, p⟩)

/-- The events of a text, and the progress after it. -/
def run (x : Progress) : List Char → List Event × Progress
  | [] => ([], x)
  | c :: cs =>
    let (events, y) := x.step c
    let (more, z) := y.run cs
    (events ++ more, z)

/-- The events of the end of the input. -/
def flush (x : Progress) : List Event :=
  match x.phase with
  | .between => []
  | .blanks start text => [.produced (.ofList .whitespace start text)]
  | .slash start =>
    [.left (.slashLookahead start) x.tracker.next, .started .slash start,
      .produced (.ofList .slash start ['/'])]
  | .block start body =>
    [.produced (.ofList .multiLineComment start ('/' :: '*' :: body)),
      .endedInside (.multiLineComment (starred body)) 2]
  | .line start body =>
    [.produced (.ofList .singleLineComment start ('/' :: '/' :: body)),
      .endedInside .singleLineComment 2]
  | .string quote start body =>
    [.produced (.ofList (.string quote) start (quote.char :: body)),
      .endedInside (.string quote (escaping body)) 2]

/-- The progress with nothing open any more. -/
def settled (x : Progress) : Progress :=
  ⟨x.tracker, .between⟩

/-- The tokens of a text that is the rest of the input. -/
def lex (x : Progress) (cs : List Char) : List Token :=
  tokensOf (x.run cs).1 ++ tokensOf (x.run cs).2.flush

@[simp] theorem run_nil (x : Progress) : x.run [] = ([], x) := rfl

theorem run_cons (x : Progress) (c : Char) (cs : List Char) :
    x.run (c :: cs) = ((x.step c).1 ++ ((x.step c).2.run cs).1, ((x.step c).2.run cs).2) := rfl

/-- A text may be read in two parts. -/
theorem run_append (x : Progress) (cs ds : List Char) :
    x.run (cs ++ ds) = ((x.run cs).1 ++ ((x.run cs).2.run ds).1, ((x.run cs).2.run ds).2) := by
  induction cs generalizing x with
  | nil => simp
  | cons c cs ih => rw [List.cons_append, run_cons, ih, run_cons, List.append_assoc]

theorem lex_nil (x : Progress) : x.lex [] = tokensOf x.flush := by
  simp [lex]

theorem lex_cons (x : Progress) (c : Char) (cs : List Char) :
    x.lex (c :: cs) = tokensOf (x.step c).1 ++ (x.step c).2.lex cs := by
  simp [lex, run_cons]

@[simp] theorem report_scanner (x : Progress) (events : Array Event) (e : Event) :
    (x.scanner events).report e = x.scanner (events.push e) := rfl

/-- The scanner reads a character as its progress does. -/
theorem read_scanner (x : Progress) (events : Array Event) (c : Char) :
    (x.scanner events).read c = .ok ((x.step c).2.scanner (events ++ (x.step c).1)) := by
  have h := x.phase.readIn_scanner (x.tracker.advance c)
    (events.push (.read c x.tracker.next)) (x.tracker.place c) c
  have he : events ++ (x.step c).1 =
      events.push (.read c x.tracker.next) ++ (x.phase.read (x.tracker.place c) c).1 := by
    simp [step, Tracker.place]
  rw [he]
  exact h

/-- The scanner reads a text as its progress does, to the end. -/
theorem readAll_scanner (x : Progress) (events : Array Event) (cs : List Char) :
    (x.scanner events).readAll cs = ((x.run cs).2.scanner (events ++ (x.run cs).1), none) := by
  induction cs generalizing x events with
  | nil => simp [Scanner.readAll]
  | cons c cs ih =>
    have he : events ++ ((x.step c).1 ++ ((x.step c).2.run cs).1) =
        events ++ (x.step c).1 ++ ((x.step c).2.run cs).1 := by
      apply Array.ext'
      simp
    rw [Scanner.readAll, read_scanner, run_cons, he]
    exact ih _ _

/-- The scanner completes what is open at the end of the input. -/
theorem flush_scanner (x : Progress) (events : Array Event) :
    (x.scanner events).flush = .ok (x.settled.scanner (events ++ x.flush)) := by
  obtain ⟨tracker, phase⟩ := x
  cases phase <;>
    simp [Scanner.flush, scanner, Phase.scanner, Phase.contexts, Phase.draft, flush, settled,
      ContextStack.top, ContextStack.depth, ContextStack.reset, ContextStack.base,
      Scanner.position]

end Progress

end StyleScan
