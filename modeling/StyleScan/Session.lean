import StyleScan.Tokenizer
import StyleScan.Log.Logger

/-! # Observed tokenizers

A session is a tokenizer that is used through a sequence of operations while a trace hook and a
logger look on.  The hook and the logger get readings of the tokenizer's events; they are never
asked for anything, so the tokenizer goes on as it would without them. -/

namespace StyleScan

open Log (Entry Level Logger)

/-- The name under which the tokenizer logs. -/
def logTarget : String :=
  "nassty_core::lexer::tokenizer"

/-- What a complete token is announced with. -/
def Token.announcement (t : Token) : String :=
  "Produced token: kind=" ++ t.kind.name ++ ", text=" ++ Text.quoted Text.isShown t.text ++
    ", line=" ++ toString t.line ++ ", column=" ++ toString t.column

namespace Event

/-- What is logged about an event, if anything; characters that are read only if `traceChars`. -/
def message? (traceChars : Bool) : Event → Option (Level × String)
  | .created => some (.trace, "Creating tokenizer")
  | .feeding n => some (.trace, "Feeding " ++ toString n ++ " bytes")
  | .feedingRaw n => some (.trace, "Feeding " ++ toString n ++ " raw bytes")
  | .replaced n p =>
    some (.warn, "Replaced " ++ toString n ++ " invalid UTF-8 sequence(s) in chunk starting at " ++
      p.text)
  | .truncated p =>
    some (.warn, "Truncated UTF-8 sequence at " ++ p.text ++ " replaced with U+FFFD")
  | .finishing p => some (.trace, "Finishing input at " ++ p.text)
  | .refused => some (.warn, "Input fed to a closed tokenizer")
  | .read c p =>
    if traceChars then
      some (.trace, "Read " ++ Text.quotedChar Text.isShown c ++ " at " ++ p.text)
    else none
  | .started _ _ => none
  | .produced t => some (.debug, t.announcement)
  | .entered c p => some (.trace, "Entering " ++ c.name ++ " context at " ++ p.text)
  | .left c p => some (.trace, "Leaving " ++ c.name ++ " context at " ++ p.text)
  | .endedInside c depth =>
    some (.debug, "Input ended inside " ++ c.name ++ " context (depth " ++ toString depth ++ ")")
  | .failed e => some (.error, e.message)

/-- The log entry about an event, if there is one. -/
def entry? (traceChars : Bool) (e : Event) : Option Entry :=
  (e.message? traceChars).map fun (level, message) => ⟨level, logTarget, message⟩

end Event

/-- A use of an observed tokenizer. -/
inductive Operation where
  | feed (chunk : String)
  | feedBytes (chunk : List UInt8)
  | finish
  | next
  | drain
  /-- Drains the queue but keeps no more than the first tokens. -/
  | drainTake (count : Nat)
  | hook
  | unhook
  | setLevel (level : Level)
deriving Repr, DecidableEq, Inhabited

/-- What an operation answers. -/
inductive Answer where
  | accepted
  | rejected (error : ScanError)
  | emitted (emit : Emit)
  | drained (tokens : List Token)
deriving Repr, DecidableEq, Inhabited

/-- An operation's answer and what was observed meanwhile. -/
structure Outcome where
  answer : Answer
  /-- What the hook saw. -/
  trace : List TraceEvent
  /-- What passed the logger. -/
  entries : List Entry
deriving Repr, DecidableEq, Inhabited

/-- A tokenizer and its observers. -/
structure Session (σ : Type) where
  tokenizer : Tokenizer
  /-- Characters are logged as they are read. -/
  traceChars : Bool
  /-- A trace hook is set. -/
  hooked : Bool
  logger : Logger σ
deriving Repr, DecidableEq, Inhabited

namespace Session

variable {σ : Type}

/-- What the hook sees of some events. -/
def seen (s : Session σ) (events : List Event) : List TraceEvent :=
  if s.hooked then events.filterMap Event.trace? else []

/-- What passes the logger of some events. -/
def logged (s : Session σ) (events : List Event) : List Entry :=
  s.logger.passing (events.filterMap (Event.entry? s.traceChars))

/-- A new tokenizer with its observers, and what was logged about making it. -/
def new (logger : Logger σ) (traceChars hooked : Bool) : Session σ × List Entry :=
  let s : Session σ := ⟨.new, false, hooked, logger⟩
  ({ s with traceChars }, s.logged [.created])

/-- Shows a reply to the observers. -/
def observe (s : Session σ) (reply : Reply) : Session σ × Outcome :=
  ({ s with tokenizer := reply.tokenizer },
    { answer := match reply.error with
        | none => .accepted
        | some e => .rejected e
      trace := s.seen reply.events
      entries := s.logged reply.events })

/-- Answers without anything to observe. -/
def quietly (s : Session σ) (answer : Answer) : Session σ × Outcome :=
  (s, ⟨answer, [], []⟩)

/-- Performs an operation. -/
def perform (s : Session σ) : Operation → Session σ × Outcome
  | .feed chunk => s.observe (s.tokenizer.feed chunk)
  | .feedBytes chunk => s.observe (s.tokenizer.feedBytes chunk)
  | .finish => s.observe s.tokenizer.finish
  | .next =>
    let (emit, tokenizer) := s.tokenizer.next
    { s with tokenizer }.quietly (.emitted emit)
  | .drain =>
    let (tokens, tokenizer) := s.tokenizer.drain
    { s with tokenizer }.quietly (.drained tokens)
  | .drainTake count =>
    let (tokens, tokenizer) := s.tokenizer.drain
    { s with tokenizer }.quietly (.drained (tokens.take count))
  | .hook => { s with hooked := true }.quietly .accepted
  | .unhook => { s with hooked := false }.quietly .accepted
  | .setLevel level => { s with logger := s.logger.setLevel level }.quietly .accepted

/-- Performs operations in order and collects their outcomes. -/
def performAll (s : Session σ) : List Operation → Session σ × List Outcome
  | [] => (s, [])
  | op :: ops =>
    let (s, outcome) := s.perform op
    let (s, outcomes) := performAll s ops
    (s, outcome :: outcomes)

end Session

end StyleScan
