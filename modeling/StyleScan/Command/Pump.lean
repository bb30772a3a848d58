import StyleScan.Command.Error
import StyleScan.Printer
import StyleScan.Session

/-! # From input to output

The pump reads the input piece by piece, feeds each piece to the tokenizer, and writes the tokens
that are complete by then.  At the end of the input it writes the rest. -/

namespace StyleScan.Command

open Log (Entry)

/-- The result of one attempt at reading. -/
inductive Reading where
  /-- Some bytes; none at all at the end of the input. -/
  | bytes (piece : List UInt8)
  /-- Nothing yet: the attempt has to be repeated. -/
  | interrupted
  | failed (e : SystemError)
deriving Repr, DecidableEq, Inhabited

/-- A tokenizer between its input and its output. -/
structure Pump (σ : Type) where
  session : Session σ
  printer : Printer
  /-- What was logged, oldest first. -/
  entries : Array Entry
deriving Repr, DecidableEq, Inhabited

namespace Pump

variable {σ : Type}

/-- A pump that has not read anything. -/
def new (session : Session σ) (printer : Printer) : Pump σ :=
  ⟨session, printer, #[]⟩

/-- Performs an operation of the tokenizer and keeps what it logs. -/
def perform (p : Pump σ) (op : Operation) : Pump σ × Answer :=
  let (session, outcome) := p.session.perform op
  ({ p with session, entries := p.entries ++ outcome.entries.toArray }, outcome.answer)

/-- Writes the tokens that are ready. -/
def write (p : Pump σ) : Pump σ × Option CommandError :=
  match p.perform .drain with
  | (p, .drained tokens) =>
    let (printer, failure) := p.printer.writeAll tokens
    ({ p with printer }, failure.map .io)
  | (p, _) => (p, none)

/-- Performs an operation on the input and writes the tokens that are ready then. -/
def advance (p : Pump σ) (op : Operation) : Pump σ × Option CommandError :=
  match p.perform op with
  | (p, .rejected e) => (p, some (.lex e))
  | (p, _) => p.write

/-- Takes a piece of the input. -/
def feed (p : Pump σ) (piece : List UInt8) : Pump σ × Option CommandError :=
  p.advance (.feedBytes piece)

/-- Takes the end of the input. -/
def finish (p : Pump σ) : Pump σ × Option CommandError :=
  p.advance .finish

/-- Reads to the end of the input, or up to the first error. -/
def run (p : Pump σ) : List Reading → Pump σ × Option CommandError
  | [] => p.finish
  | .interrupted :: rest => p.run rest
  | .failed e :: _ => (p, some (.io e))
  | .bytes [] :: _ => p.finish
  | .bytes piece :: rest =>
    match p.feed piece with
    | (p, none) => p.run rest
    | (p, some e) => (p, some e)

end Pump

/-- The pieces of a byte sequence: `more + 1` bytes each, but for the last. -/
def pieces (more : Nat) (bytes : List UInt8) : List (List UInt8) :=
  if bytes.isEmpty then []
  else bytes.take (more + 1) :: pieces more (bytes.drop (more + 1))
termination_by bytes.length
decreasing_by
  have : bytes ≠ [] := by simp_all
  have := List.length_pos_iff.2 this
  simp only [List.length_drop]
  omega

/-- How many bytes the standard input is read ahead. -/
def readAhead : Nat :=
  8192

/-- The readings of a file, `size` bytes at a time. -/
def fileReadings (size : Nat) (bytes : List UInt8) : List Reading :=
  (pieces (size - 1) bytes).map .bytes

/-- The readings of the standard input: directly if `size` reaches the length that is read ahead,
and otherwise out of what was read ahead, which is used up before more is read. -/
def inputReadings (size : Nat) (bytes : List UInt8) : List Reading :=
  if readAhead ≤ size then fileReadings size bytes
  else (pieces (readAhead - 1) bytes).flatMap (fileReadings size)

/-- How many readings of a growing file are made at most. -/
def readingLimit : Nat :=
  100000

/-- The readings of a file that grows while it is read, `size` bytes at a time: what the pump logs
about a piece is appended to the file, as `added` tells, before the next piece is read.  The file
may grow for ever, so that no more than `limit` readings are made. -/
def growingReadings {σ : Type} (size : Nat) (added : Array Entry → List UInt8) (p : Pump σ)
    (left : List UInt8) : Nat → List Reading
  | 0 => []
  | limit + 1 =>
    if left.isEmpty then []
    else
      let piece := left.take size
      match p.feed piece with
      | (p, none) =>
        .bytes piece :: growingReadings size added { p with entries := #[] }
          (left.drop size ++ added p.entries) limit
      | (_, some _) => [.bytes piece]

end StyleScan.Command
