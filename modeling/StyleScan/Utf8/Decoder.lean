import StyleScan.Utf8.Segment

/-! # Incremental UTF-8 decoding

A chunk of bytes may end in the middle of a sequence.  The decoder holds that tail back and reads
it again in front of the next chunk.  At the end of the input, whatever is held back is dropped,
and whoever drops it writes one replacement character instead. -/

namespace StyleScan.Utf8

/-- Bytes of a sequence that a later chunk may complete. -/
structure Decoder where
  pending : List UInt8 := []
deriving Repr, DecidableEq, Inhabited

/-- The text that segments stand for. -/
def textOf (segments : List Segment) : String :=
  String.ofList (segments.map Segment.char)

/-- The number of replacement characters among the segments. -/
def invalidCount (segments : List Segment) : Nat :=
  segments.countP Segment.isInvalid

/-- The text that bytes encode, if they are well-formed throughout. -/
def text? (bytes : List UInt8) : Option String :=
  let (segments, tail) := split bytes
  if tail.isEmpty ∧ invalidCount segments = 0 then some (textOf segments) else none

namespace Decoder

/-- Nothing is held back. -/
def empty : Decoder :=
  ⟨[]⟩

/-- Whether bytes are held back. -/
def hasPending (d : Decoder) : Bool :=
  !d.pending.isEmpty

/-- Decodes a chunk: the segments that are whole by now, and what is held back. -/
def decode (d : Decoder) (chunk : List UInt8) : List Segment × Decoder :=
  let (segments, tail) := split (d.pending ++ chunk)
  (segments, ⟨tail⟩)

/-- Drops what is held back and tells whether there was anything. -/
def finish (d : Decoder) : Bool × Decoder :=
  (d.hasPending, empty)

end Decoder

end StyleScan.Utf8
