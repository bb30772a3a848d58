import StyleScan.Event

/-! # The scanner

The scanner reads one character at a time.  The innermost context decides what a character means;
at most one token is being read at any time, and what has happened since the last hand-over waits
in the list of events.

A slash is not read as a token at once: it opens a context in which the next character decides
between a comment and a slash on its own.  In the latter case, and after a line comment that ended
in a lone carriage return, the same character is read again in the context below.  Reading
therefore goes down the stack of contexts, which is why it ends.

## Implementation notes

Actions of the scanner check what they rely on, for instance that no token is open when one is
begun, and fail with `ScanError.invariant` otherwise. -/

namespace StyleScan

/-- The state of the scanner between two characters. -/
structure Scanner where
  tracker : Tracker
  contexts : ContextStack
  /-- The token that is being read. -/
  draft : Option Draft
  /-- What happened since the last hand-over, oldest first. -/
  events : Array Event
deriving Repr, DecidableEq, Inhabited

/-- A failed action: the error, and the scanner as the action found it. -/
structure Breakdown where
  error : ScanError
  scanner : Scanner
deriving Repr, DecidableEq, Inhabited

namespace Scanner

/-- The scanner at the start of the input. -/
def start : Scanner :=
  ⟨.start, .base, none, #[]⟩

/-- The position of the next character. -/
def position (s : Scanner) : Position :=
  s.tracker.next

/-- Reports an event. -/
def report (s : Scanner) (e : Event) : Scanner :=
  { s with events := s.events.push e }

/-- Hands the events over. -/
def handOver (s : Scanner) : List Event × Scanner :=
  (s.events.toList, { s with events := #[] })

/-- The failure of an action at the character that stands at `here`. -/
def broken (s : Scanner) (here : Position) (detail : String) : Breakdown :=
  ⟨.invariant s.contexts.top.name here detail, s⟩

/-- Begins a token. -/
def begin (s : Scanner) (here : Position) (d : Draft) : Except Breakdown Scanner :=
  match s.draft with
  | some current =>
    .error (s.broken here
      ("cannot start " ++ d.kind.name ++ " token while " ++ current.kind.name ++
        " token is open"))
  | none => .ok ({ s with draft := some d }.report (.started d.kind d.start))

/-- Appends a character to the open token. -/
def append (s : Scanner) (here : Position) (c : Char) : Except Breakdown Scanner :=
  match s.draft with
  | some d => .ok { s with draft := some (d.push c) }
  | none => .error (s.broken here "no open token to append to")

/-- Changes the kind of the open token, if there is one. -/
def reclassify (s : Scanner) (kind : Kind) : Scanner :=
  { s with draft := s.draft.map (·.reclassify kind) }

/-- Completes the open token. -/
def close (s : Scanner) (here : Position) : Except Breakdown Scanner :=
  match s.draft with
  | some d => .ok ({ s with draft := none }.report (.produced d.finish))
  | none => .error (s.broken here "no open token to close")

/-- Completes a run of blanks, if one is open; no other token may be. -/
def closeWhitespace (s : Scanner) (here : Position) : Except Breakdown Scanner :=
  match s.draft with
  | none => .ok s
  | some d =>
    if d.kind = .whitespace then s.close here
    else .error (s.broken here (d.kind.name ++ " token left open"))

/-- Checks that a token of the given kind is open. -/
def expectOpen (s : Scanner) (here : Position) (kind : Kind) : Except Breakdown Unit :=
  match s.draft with
  | some d =>
    if d.kind = kind then .ok ()
    else .error (s.broken here
      ("expected open " ++ kind.name ++ " token, found " ++ d.kind.name))
  | none => .error (s.broken here ("expected open " ++ kind.name ++ " token, none is open"))

/-- Enters a context. -/
def enter (s : Scanner) (here : Position) (c : Context) : Scanner :=
  { s with contexts := s.contexts.push c }.report (.entered c here)

/-- Leaves the innermost context. -/
def leave (s : Scanner) (here : Position) : Except Breakdown Scanner :=
  match s.contexts.pop? with
  | some (c, below) => .ok ({ s with contexts := below }.report (.left c here))
  | none => .error (s.broken here "general context cannot be popped")

/-- Replaces the innermost context. -/
def update (s : Scanner) (c : Context) : Scanner :=
  { s with contexts := s.contexts.setTop c }

/-- Produces the slash that stands at `start`. -/
def emitSlash (s : Scanner) (here start : Position) : Except Breakdown Scanner := do
  let s ← s.begin here (.ofChar .slash start '/')
  s.close here

/-- Reads a character between tokens or in a run of blanks. -/
def readGeneral (s : Scanner) (here : Position) (c : Char) : Except Breakdown Scanner :=
  match Quote.ofChar? c with
  | some quote => do
    let s ← s.closeWhitespace here
    let s ← s.begin here (.ofChar quote.kind here c)
    return s.enter here (.string quote false)
  | none =>
    if c = '/' then do
      let s ← s.closeWhitespace here
      return s.enter here (.slashLookahead here)
    else if isBlank c then
      match s.draft with
      | none => s.begin here (.ofChar .whitespace here c)
      | some d =>
        if d.kind = .whitespace then s.append here c
        else .error (s.broken here (d.kind.name ++ " token left open"))
    else do
      let s ← s.closeWhitespace here
      let s ← s.begin here (.ofChar .identifier here c)
      s.close here

/-- Reads a character of a comment that `*/` ends. -/
def readMultiLineComment (s : Scanner) (here : Position) (c : Char) (endPending : Bool) :
    Except Breakdown Scanner := do
  s.expectOpen here .multiLineComment
  let s ← s.append here c
  if endPending && c = '/' then
    let s ← s.leave here
    s.close here
  else
    return s.update (.multiLineComment (c = '*'))

/-- Reads a character of a comment that the end of its line ends. -/
def readSingleLineComment (s : Scanner) (spot : Placement) (c : Char) :
    Except Breakdown Scanner := do
  let s ← s.append spot.position c
  if spot.lineBreak.isComplete then
    let s ← s.leave spot.position
    s.close spot.position
  else
    return s

/-- Reads a character of a string. -/
def readString (s : Scanner) (here : Position) (c : Char) (quote : Quote) (escapePending : Bool) :
    Except Breakdown Scanner := do
  s.expectOpen here quote.kind
  let s ← s.append here c
  if escapePending then
    return s.update (.string quote false)
  else if c = '\\' then
    return s.update (.string quote true)
  else if c = '\r' || c = '\n' || c = '\x0c' then
    let s ← (s.reclassify quote.unterminatedKind).leave here
    s.close here
  else if c = quote.char then
    let s ← s.leave here
    s.close here
  else
    return s

/-- Reads the placed character `c` in the innermost of the given contexts.  They are those of the
scanner; where that context ends before `c`, it is left and `c` is read in those below. -/
def readIn (spot : Placement) (c : Char) : List Context → Scanner → Except Breakdown Scanner
  | [], s => s.readGeneral spot.position c
  | .general :: _, s => s.readGeneral spot.position c
  | .slashLookahead start :: below, s => do
    let s ← s.leave spot.position
    if c = '*' then
      let s ← s.begin spot.position ⟨.multiLineComment, start, "/*"⟩
      return s.enter spot.position (.multiLineComment false)
    else if c = '/' then
      let s ← s.begin spot.position ⟨.singleLineComment, start, "//"⟩
      return s.enter spot.position .singleLineComment
    else
      let s ← s.emitSlash spot.position start
      readIn spot c below s
  | .multiLineComment endPending :: _, s => s.readMultiLineComment spot.position c endPending
  | .singleLineComment :: below, s => do
    s.expectOpen spot.position .singleLineComment
    if spot.afterReturn && spot.lineBreak ≠ .pairedLineFeed then
      let s ← s.leave spot.position
      let s ← s.close spot.position
      readIn spot c below s
    else
      s.readSingleLineComment spot c
  | .string quote escapePending :: _, s => s.readString spot.position c quote escapePending

/-- Reads one character. -/
def read (s : Scanner) (c : Char) : Except Breakdown Scanner :=
  let spot := s.tracker.place c
  let s := { s with tracker := s.tracker.advance c }.report (.read c spot.position)
  readIn spot c s.contexts.above s

/-- Reads characters up to the first that fails, and tells how that one failed. -/
def readAll (s : Scanner) : List Char → Scanner × Option ScanError
  | [] => (s, none)
  | c :: cs =>
    match s.read c with
    | .ok s => readAll s cs
    | .error b => (b.scanner, some b.error)

/-- Completes what is still open at the end of the input. -/
def flush (s : Scanner) : Except Breakdown Scanner := do
  let here := s.position
  let s ← match s.contexts.top with
    | .slashLookahead start => do
      let s ← s.leave here
      s.emitSlash here start
    | _ => pure s
  let s ← if s.draft.isSome then s.close here else pure s
  let s := if 1 < s.contexts.depth then
      s.report (.endedInside s.contexts.top s.contexts.depth)
    else s
  return { s with contexts := s.contexts.reset }

end Scanner

end StyleScan
