import StyleScan.Proofs.Progress
import StyleScan.Tokenizer

/-! # Operations of the tokenizer

Between two operations a tokenizer holds the progress of its scanner, the bytes that its decoder
holds back, the queue, and whether its input is over.  Each operation on an open tokenizer is
accepted and reads a list of characters; the lemmas here say which one, and what is left of the
four afterwards.  A closed tokenizer refuses every input and stays as it is. -/

namespace StyleScan

/-- What stands for the bytes held back if nothing completes them. -/
def Utf8.Decoder.carry (d : Utf8.Decoder) : List Char :=
  if d.hasPending then [Utf8.replacement] else []

/-- The tokenizer between two operations. -/
def Progress.tokenizer (x : Progress) (decoder : Utf8.Decoder) (queue : List Token)
    (closed : Bool) : Tokenizer :=
  ⟨x.scanner #[], decoder, queue, closed⟩

namespace Tokenizer

variable (x : Progress) (decoder : Utf8.Decoder) (queue : List Token)

theorem new_eq_tokenizer : new = Progress.start.tokenizer .empty [] false := rfl

/-- Reports that a sequence was cut off, if one was. -/
def cutEvents (decoder : Utf8.Decoder) (here : Position) : List Event :=
  if decoder.hasPending then [.truncated here] else []

/-- Reports that sequences were replaced, if some were. -/
def replacedEvents (segments : List Utf8.Segment) (here : Position) : List Event :=
  if 0 < Utf8.invalidCount segments then [.replaced (Utf8.invalidCount segments) here] else []

@[simp] theorem announce_scanner (waiting : Array Event) (closed : Bool) (events : List Event) :
    announce ⟨x.scanner waiting, decoder, queue, closed⟩ events =
      ⟨x.scanner (waiting ++ events), decoder, queue, closed⟩ := by
  induction events generalizing waiting with
  | nil => simp [announce]
  | cons e events ih =>
    have h := ih (waiting.push e)
    simp only [announce, List.foldl_cons, Progress.report_scanner] at h ⊢
    rw [h]
    simp

@[simp] theorem position_scanner (waiting : Array Event) (closed : Bool) :
    position ⟨x.scanner waiting, decoder, queue, closed⟩ = x.tracker.next := rfl

/-- Settling hands over the events that wait. -/
@[simp] theorem settle_scanner (waiting : Array Event) (closed : Bool)
    (error : Option ScanError) :
    settle ⟨x.scanner waiting, decoder, queue, closed⟩ error =
      ⟨x.tokenizer decoder (queue ++ tokensOf waiting.toList) closed, error, waiting.toList⟩ := rfl

/-- Reading characters hands over all events that wait by then. -/
@[simp] theorem absorb_scanner (waiting : Array Event) (closed : Bool) (cs : List Char) :
    absorb ⟨x.scanner waiting, decoder, queue, closed⟩ cs =
      ⟨(x.run cs).2.tokenizer decoder (queue ++ tokensOf (waiting.toList ++ (x.run cs).1)) closed,
        none, waiting.toList ++ (x.run cs).1⟩ := by
  simp [absorb, Progress.readAll_scanner]

/-- A chunk of text is read after what stands for the bytes held back. -/
theorem feed_tokenizer (chunk : String) :
    (x.tokenizer decoder queue false).feed chunk =
      let read := x.run (decoder.carry ++ chunk.toList)
      ⟨read.2.tokenizer .empty (queue ++ tokensOf read.1) false, none,
        .feeding chunk.utf8ByteSize :: (cutEvents decoder x.tracker.next ++ read.1)⟩ := by
  unfold feed Progress.tokenizer Utf8.Decoder.finish Utf8.Decoder.carry cutEvents
  by_cases h : decoder.hasPending
  · simp [h, Event.token?, Progress.tokenizer]
  · simp [h, Event.token?, Progress.tokenizer]

/-- A chunk of bytes is read as far as it is decoded. -/
theorem feedBytes_tokenizer (chunk : List UInt8) :
    (x.tokenizer decoder queue false).feedBytes chunk =
      let segments := (decoder.decode chunk).1
      let read := x.run (segments.map Utf8.Segment.char)
      ⟨read.2.tokenizer (decoder.decode chunk).2 (queue ++ tokensOf read.1) false, none,
        .feedingRaw chunk.length :: (replacedEvents segments x.tracker.next ++ read.1)⟩ := by
  unfold feedBytes Progress.tokenizer replacedEvents
  by_cases h : 0 < Utf8.invalidCount (decoder.decode chunk).1
  · simp [h, Event.token?, Progress.tokenizer]
  · simp [h, Event.token?, Progress.tokenizer]

/-- The end of the input is read after what stands for the bytes held back. -/
theorem finish_tokenizer :
    (x.tokenizer decoder queue false).finish =
      let read := x.run decoder.carry
      ⟨read.2.settled.tokenizer .empty (queue ++ (tokensOf read.1 ++ tokensOf read.2.flush)) true,
        none, .finishing x.tracker.next :: (cutEvents decoder x.tracker.next ++
          (read.1 ++ read.2.flush))⟩ := by
  unfold finish Progress.tokenizer Utf8.Decoder.finish Utf8.Decoder.carry cutEvents
  by_cases h : decoder.hasPending
  · simp [h, Progress.readAll_scanner, Progress.flush_scanner, Event.token?, Progress.tokenizer]
  · simp [h, Progress.readAll_scanner, Progress.flush_scanner, Event.token?, Progress.tokenizer]

theorem feed_of_closed (t : Tokenizer) (h : t.closed) (chunk : String) :
    t.feed chunk = t.refuse := by
  simp [feed, h]

theorem feedBytes_of_closed (t : Tokenizer) (h : t.closed) (chunk : List UInt8) :
    t.feedBytes chunk = t.refuse := by
  simp [feedBytes, h]

theorem finish_of_closed (t : Tokenizer) (h : t.closed) : t.finish = t.refuse := by
  simp [finish, h]

end Tokenizer

end StyleScan
