import StyleScan.Scanner
import StyleScan.Utf8.Decoder

/-! # The tokenizer

Input arrives in chunks of any size, as text or as raw UTF-8 bytes.  Tokens are queued the moment
they are complete, so that they can be pulled while the input is still arriving.  Once the input
is finished, what is still open is completed and no more input is taken. -/

namespace StyleScan

open Text (Outline)

/-- A scanner with its byte decoder and the queue of complete tokens. -/
structure Tokenizer where
  scanner : Scanner
  decoder : Utf8.Decoder
  /-- Complete tokens that nobody has pulled, oldest first. -/
  queue : List Token
  /-- No more input is taken. -/
  closed : Bool
deriving Repr, DecidableEq, Inhabited

/-- The answer to a pull. -/
inductive Emit where
  | token (t : Token)
  /-- Nothing is ready; more input or its end may change that. -/
  | incomplete
  /-- The input is finished and everything has been pulled. -/
  | eof
deriving Repr, DecidableEq, Inhabited

/-- What an operation on the input leaves behind. -/
structure Reply where
  tokenizer : Tokenizer
  /-- Why the operation failed, if it did. -/
  error : Option ScanError
  /-- What happened meanwhile, oldest first. -/
  events : List Event
deriving Repr, DecidableEq, Inhabited

namespace Tokenizer

/-- A tokenizer without input. -/
def new : Tokenizer :=
  ⟨.start, .empty, [], false⟩

/-- The position of the next character. -/
def position (t : Tokenizer) : Position :=
  t.scanner.position

/-- The number of contexts, 1 between tokens. -/
def depth (t : Tokenizer) : Nat :=
  t.scanner.contexts.depth

/-- The number of queued tokens. -/
def pending (t : Tokenizer) : Nat :=
  t.queue.length

/-- Hands the scanner's events over and queues the tokens among them. -/
def settle (t : Tokenizer) (error : Option ScanError) : Reply :=
  let (events, scanner) := t.scanner.handOver
  ⟨{ t with scanner, queue := t.queue ++ events.filterMap Event.token? }, error, events⟩

/-- Gives up after an error of the scanner. -/
def fail (t : Tokenizer) (e : ScanError) : Reply :=
  { t with scanner := t.scanner.report (.failed e), closed := true }.settle (some e)

/-- Refuses input after the end. -/
def refuse (t : Tokenizer) : Reply :=
  ⟨t, some .closed, [.refused]⟩

/-- Reports what opens an operation. -/
def announce (t : Tokenizer) (events : List Event) : Tokenizer :=
  { t with scanner := events.foldl Scanner.report t.scanner }

/-- Reads characters and settles. -/
def absorb (t : Tokenizer) (cs : List Char) : Reply :=
  match t.scanner.readAll cs with
  | (scanner, none) => { t with scanner }.settle none
  | (scanner, some e) => { t with scanner }.fail e

/-- Takes a chunk of text.  It cannot complete bytes that the decoder holds back, so a replacement
character stands for those, in front of the chunk. -/
def feed (t : Tokenizer) (chunk : String) : Reply :=
  if t.closed then t.refuse
  else
    let (cut, decoder) := t.decoder.finish
    let t := { t with decoder }.announce [.feeding chunk.utf8ByteSize]
    if cut then
      (t.announce [.truncated t.position]).absorb (Utf8.replacement :: chunk.toList)
    else
      t.absorb chunk.toList

/-- Takes a chunk of raw bytes. -/
def feedBytes (t : Tokenizer) (chunk : List UInt8) : Reply :=
  if t.closed then t.refuse
  else
    let (segments, decoder) := t.decoder.decode chunk
    let t := { t with decoder }.announce [.feedingRaw chunk.length]
    let invalid := Utf8.invalidCount segments
    let t := if 0 < invalid then t.announce [.replaced invalid t.position] else t
    t.absorb (segments.map Utf8.Segment.char)

/-- Ends the input and completes what is still open. -/
def finish (t : Tokenizer) : Reply :=
  if t.closed then t.refuse
  else
    let (cut, decoder) := t.decoder.finish
    let t := { t with decoder }.announce [.finishing t.position]
    let t := if cut then t.announce [.truncated t.position] else t
    match t.scanner.readAll (if cut then [Utf8.replacement] else []) with
    | (scanner, some e) => { t with scanner }.fail e
    | (scanner, none) =>
      match scanner.flush with
      | .error b => { t with scanner := b.scanner }.fail b.error
      | .ok scanner => { t with scanner, closed := true }.settle none

/-- Pulls the next token. -/
def next (t : Tokenizer) : Emit × Tokenizer :=
  match t.queue with
  | token :: rest => (.token token, { t with queue := rest })
  | [] => (if t.closed then .eof else .incomplete, t)

/-- Pulls every queued token. -/
def drain (t : Tokenizer) : List Token × Tokenizer :=
  (t.queue, { t with queue := [] })

/-- The diagnostic form of a tokenizer. -/
def outline (t : Tokenizer) : Outline :=
  .record "Tokenizer"
    [("position", t.position.outline), ("context", t.scanner.contexts.top.outline),
      ("depth", .ofNat t.depth), ("builder", .ofOption Draft.outline t.scanner.draft),
      ("pending", .ofNat t.pending), ("closed", .ofBool t.closed)]

end Tokenizer

end StyleScan
