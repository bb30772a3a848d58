import StyleScan.Context
import StyleScan.ScanError

/-! # Events

Everything that can be observed of a scanner at work is an event: the characters it reads, the
tokens it starts and produces, the contexts it enters and leaves, and what happens to its input.
The token queue, the trace and the log are three readings of the same events, so none of them can
change what the scanner does. -/

namespace StyleScan

/-- Something that a scanner does. -/
inductive Event where
  /-- The scanner has been made. -/
  | created
  /-- A chunk of text arrives, so many bytes long. -/
  | feeding (bytes : Nat)
  /-- A chunk of raw bytes arrives. -/
  | feedingRaw (bytes : Nat)
  /-- Invalid byte sequences of the arriving chunk were replaced. -/
  | replaced (count : Nat) (position : Position)
  /-- A sequence that nothing completed was replaced. -/
  | truncated (position : Position)
  /-- The end of the input arrives. -/
  | finishing (position : Position)
  /-- Input arrives after the end. -/
  | refused
  /-- A character is read. -/
  | read (c : Char) (position : Position)
  /-- A token is begun. -/
  | started (kind : Kind) (position : Position)
  /-- A token is complete. -/
  | produced (token : Token)
  /-- A context is entered at the character that stands at `position`. -/
  | entered (context : Context) (position : Position)
  /-- A context is left at the character that stands at `position`. -/
  | left (context : Context) (position : Position)
  /-- The input ended inside a context other than the general one. -/
  | endedInside (context : Context) (depth : Nat)
  /-- The scanner gave up. -/
  | failed (error : ScanError)
deriving Repr, DecidableEq, Inhabited

namespace Event

/-- The token that an event hands over. -/
def token? : Event → Option Token
  | .produced token => some token
  | _ => none

end Event

/-- What a trace reports. -/
inductive TraceEvent where
  /-- A character is read. -/
  | charRead (c : Char) (position : Position)
  /-- A token is begun. -/
  | tokenStart (kind : Kind) (position : Position)
  /-- A token is complete; `position` is where it starts. -/
  | tokenEnd (kind : Kind) (text : String) (position : Position)
deriving Repr, DecidableEq, Inhabited

/-- The part of an event that a trace reports. -/
def Event.trace? : Event → Option TraceEvent
  | .read c position => some (.charRead c position)
  | .started kind position => some (.tokenStart kind position)
  | .produced token => some (.tokenEnd token.kind token.text token.start)
  | _ => none

end StyleScan
