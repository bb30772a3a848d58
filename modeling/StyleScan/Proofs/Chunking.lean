import StyleScan.Proofs.Session
import StyleScan.Proofs.Utf8.Decoding
import StyleScan.Proofs.Tokenization

/-! # The input in chunks

However the input is cut into chunks of text and of bytes, and whenever tokens are pulled, the
tokenizer does with it what it does with the whole text at once.

## Implementation notes

An `Intake` says what text has come in.  Chunks of bytes with no chunk of text between them form a
block, which is decoded as a whole; pulling tokens does not end a block, but a chunk of text does,
even an empty one. -/

namespace StyleScan

open Utf8 (lossy settled)

/-- What stands for the bytes held back completes the decoding. -/
theorem Utf8.lossy_eq (bytes : List UInt8) :
    lossy bytes = settled bytes ++ Decoder.carry ⟨(split bytes).2⟩ := by
  rw [lossy, segmentsOf, List.map_append, settled, cutOff, Decoder.carry, Decoder.hasPending]
  cases (split bytes).2.isEmpty <;> rfl

@[simp] theorem Utf8.settled_nil : settled [] = [] := by
  simp [settled]

@[simp] theorem Utf8.lossy_nil : lossy [] = [] := by
  simp [lossy_eq, Decoder.carry, Decoder.hasPending]

/-- What a tokenizer has been given. -/
structure Intake where
  /-- The text up to the last block of bytes. -/
  text : List Char := []
  /-- The bytes since then. -/
  block : List UInt8 := []
  /-- The input is over. -/
  ended : Bool := false
deriving Repr, DecidableEq, Inhabited

namespace Intake

/-- Nothing has been given. -/
def start : Intake := {}

/-- What has been given after an operation. -/
def take (r : Intake) (op : Operation) : Intake :=
  if r.ended then r
  else
    match op with
    | .feed chunk => { text := r.text ++ lossy r.block ++ chunk.toList }
    | .feedBytes chunk => { text := r.text, block := r.block ++ chunk }
    | .finish => { text := r.text ++ lossy r.block, ended := true }
    | _ => r

/-- What has been given after operations in order. -/
def takeAll (r : Intake) (ops : List Operation) : Intake :=
  ops.foldl take r

/-- The text as far as it is certain. -/
def decoded (r : Intake) : List Char :=
  r.text ++ settled r.block

/-- The tokenizer that gets the text in one chunk. -/
def reference (r : Intake) : Tokenizer :=
  let t := (Tokenizer.new.feed (String.ofList r.decoded)).tokenizer
  if r.ended then t.finish.tokenizer else t

/-- How far the text brings the scanner. -/
def progress (r : Intake) : Progress :=
  let x := (Progress.start.run r.decoded).2
  if r.ended then x.settled else x

/-- The tokens that are complete. -/
def tokens (r : Intake) : List Token :=
  let read := Progress.start.run r.decoded
  tokensOf read.1 ++ if r.ended then tokensOf read.2.flush else []

/-- The tokenizer that has been given this, with the tokens that are still to be pulled. -/
def tokenizer (r : Intake) (queue : List Token) : Tokenizer :=
  r.progress.tokenizer ⟨(Utf8.split r.block).2⟩ queue r.ended

/-- Given the text in one chunk, nothing waits in the decoder and no token has been pulled. -/
theorem reference_eq (r : Intake) :
    r.reference = r.progress.tokenizer .empty r.tokens r.ended := by
  unfold reference progress tokens
  rw [Tokenizer.new_eq_tokenizer, Tokenizer.feed_tokenizer]
  cases h : r.ended with
  | false => simp [Utf8.Decoder.carry, Utf8.Decoder.hasPending, Utf8.Decoder.empty]
  | true =>
    simp [Utf8.Decoder.carry, Utf8.Decoder.hasPending, Utf8.Decoder.empty,
      Tokenizer.finish_tokenizer]

@[simp] theorem tokens_start : start.tokens = [] := by
  simp [start, tokens, decoded, Utf8.settled]

theorem tokenizer_start : start.tokenizer [] = .new := by
  simp [start, tokenizer, progress, decoded, Utf8.settled, Tokenizer.new_eq_tokenizer,
    Utf8.Decoder.empty]

variable {r : Intake}

theorem take_of_ended (h : r.ended) (op : Operation) : r.take op = r := by
  simp [take, h]

theorem take_of_not_isInput {op : Operation} (hop : op.isInput = false) : r.take op = r := by
  cases op with
  | feed _ | feedBytes _ | finish => simp [Operation.isInput] at hop
  | _ => simp [take]

theorem progress_of_open (h : r.ended = false) : r.progress = (Progress.start.run r.decoded).2 := by
  simp [progress, h]

theorem tokens_of_open (h : r.ended = false) :
    r.tokens = tokensOf (Progress.start.run r.decoded).1 := by
  simp [tokens, h]

section Reading

variable {r' : Intake} {cs : List Char} (h : r.ended = false)
  (hd : r'.decoded = r.decoded ++ cs)

include h hd

/-- More text is read from where the text so far has led. -/
theorem progress_append (h' : r'.ended = false) : r'.progress = (r.progress.run cs).2 := by
  rw [progress_of_open h', hd, Progress.run_append, progress_of_open h]

theorem tokens_append (h' : r'.ended = false) :
    r'.tokens = r.tokens ++ tokensOf (r.progress.run cs).1 := by
  rw [tokens_of_open h', hd, Progress.run_append, tokensOf_append, tokens_of_open h,
    progress_of_open h]

/-- The end of the input completes what is open after the last of the text. -/
theorem progress_finish (h' : r'.ended) : r'.progress = (r.progress.run cs).2.settled := by
  simp [progress, h, h', hd, Progress.run_append]

theorem tokens_finish (h' : r'.ended) :
    r'.tokens = r.tokens ++
      (tokensOf (r.progress.run cs).1 ++ tokensOf (r.progress.run cs).2.flush) := by
  simp [tokens, progress, h, h', hd, Progress.run_append]

end Reading

section Input

variable (h : r.ended = false) (queue : List Token)

include h

theorem decoded_take_feed (chunk : String) :
    (r.take (.feed chunk)).decoded =
      r.decoded ++ (Utf8.Decoder.carry ⟨(Utf8.split r.block).2⟩ ++ chunk.toList) := by
  simp [take, h, decoded, Utf8.lossy_eq, Utf8.settled]

theorem decoded_take_feedBytes (chunk : List UInt8) :
    (r.take (.feedBytes chunk)).decoded = r.decoded ++
      (Utf8.split ((Utf8.split r.block).2 ++ chunk)).1.map Utf8.Segment.char := by
  simp [take, h, decoded, Utf8.settled_append]

theorem decoded_take_finish :
    (r.take .finish).decoded =
      r.decoded ++ Utf8.Decoder.carry ⟨(Utf8.split r.block).2⟩ := by
  simp [take, h, decoded, Utf8.lossy_eq, Utf8.settled]

theorem exists_feed_eq (chunk : String) :
    ∃ more, (r.tokenizer queue).perform (.feed chunk) =
        (r.take (.feed chunk)).tokenizer (queue ++ more) ∧
      (r.take (.feed chunk)).tokens = r.tokens ++ more := by
  have h' : (r.take (.feed chunk)).ended = false := by simp [take, h]
  have hb : (r.take (.feed chunk)).block = [] := by simp [take, h]
  have hd := decoded_take_feed h chunk
  refine ⟨_, ?_, tokens_append h hd h'⟩
  rw [tokenizer, h, Tokenizer.perform, Tokenizer.feed_tokenizer, tokenizer, h', hb,
    progress_append h hd h', Utf8.split_nil]
  rfl

theorem exists_feedBytes_eq (chunk : List UInt8) :
    ∃ more, (r.tokenizer queue).perform (.feedBytes chunk) =
        (r.take (.feedBytes chunk)).tokenizer (queue ++ more) ∧
      (r.take (.feedBytes chunk)).tokens = r.tokens ++ more := by
  have h' : (r.take (.feedBytes chunk)).ended = false := by simp [take, h]
  have hb : (r.take (.feedBytes chunk)).block = r.block ++ chunk := by simp [take, h]
  have hd := decoded_take_feedBytes h chunk
  refine ⟨_, ?_, tokens_append h hd h'⟩
  rw [tokenizer, h, Tokenizer.perform, Tokenizer.feedBytes_tokenizer, tokenizer, h', hb,
    progress_append h hd h', Utf8.split_append r.block chunk]
  rfl

theorem exists_finish_eq :
    ∃ more, (r.tokenizer queue).perform .finish = (r.take .finish).tokenizer (queue ++ more) ∧
      (r.take .finish).tokens = r.tokens ++ more := by
  have h' : (r.take .finish).ended = true := by simp [take, h]
  have hb : (r.take .finish).block = [] := by simp [take, h]
  have hd := decoded_take_finish h
  refine ⟨_, ?_, tokens_finish h hd h'⟩
  rw [tokenizer, h, Tokenizer.perform, Tokenizer.finish_tokenizer, tokenizer, h', hb,
    progress_finish h hd h', Utf8.split_nil]
  rfl

end Input

/-- Input adds tokens to the queue, and they are those that it completes. -/
theorem exists_perform_input_eq (r : Intake) (queue : List Token) {op : Operation}
    (hop : op.isInput) :
    ∃ more, (r.tokenizer queue).perform op = (r.take op).tokenizer (queue ++ more) ∧
      (r.take op).tokens = r.tokens ++ more := by
  cases h : r.ended with
  | true =>
    rw [take_of_ended h, Tokenizer.perform_of_closed (r.tokenizer queue) h hop]
    exact ⟨[], by simp, by simp⟩
  | false =>
    cases op with
    | feed chunk => exact exists_feed_eq h queue chunk
    | feedBytes chunk => exact exists_feedBytes_eq h queue chunk
    | finish => exact exists_finish_eq h queue
    | _ => simp [Operation.isInput] at hop

/-- An operation keeps the tokenizer in step with what it has been given. -/
theorem exists_perform_eq (r : Intake) (queue handed : List Token)
    (hall : handed ++ queue = r.tokens) (op : Operation) :
    ∃ queue', (r.tokenizer queue).perform op = (r.take op).tokenizer queue' ∧
      handed ++ (r.tokenizer queue).handsOut op ++ queue' = (r.take op).tokens := by
  cases hop : op.isInput with
  | false =>
    obtain ⟨queue', hperform, hqueue⟩ := Tokenizer.perform_of_not_isInput r.progress
      ⟨(Utf8.split r.block).2⟩ queue r.ended hop
    rw [take_of_not_isInput hop]
    refine ⟨queue', hperform, ?_⟩
    rw [tokenizer, List.append_assoc, hqueue, hall]
  | true =>
    obtain ⟨more, hperform, htokens⟩ := exists_perform_input_eq r queue hop
    refine ⟨queue ++ more, hperform, ?_⟩
    rw [Tokenizer.handsOut_of_isInput _ hop, List.append_nil, ← List.append_assoc, hall, htokens]

/-- Operations in order keep it in step. -/
theorem exists_performAll_eq (r : Intake) (queue handed : List Token)
    (hall : handed ++ queue = r.tokens) (ops : List Operation) :
    ∃ queue', (r.tokenizer queue).performAll ops = (r.takeAll ops).tokenizer queue' ∧
      handed ++ (r.tokenizer queue).handedOut ops ++ queue' = (r.takeAll ops).tokens := by
  induction ops generalizing r queue handed with
  | nil => exact ⟨queue, rfl, by simpa [Tokenizer.handedOut, takeAll] using hall⟩
  | cons op ops ih =>
    obtain ⟨queue', hop, htokens⟩ := exists_perform_eq r queue handed hall op
    obtain ⟨queue'', hops, hrest⟩ := ih (r.take op) queue' _ htokens
    refine ⟨queue'', ?_, ?_⟩
    · rw [Tokenizer.performAll_cons, hop]
      exact hops
    · rw [Tokenizer.handedOut, hop, ← List.append_assoc]
      exact hrest

/-- So they do from the start. -/
theorem exists_performAll_new_eq (ops : List Operation) :
    ∃ queue, Tokenizer.new.performAll ops = (start.takeAll ops).tokenizer queue ∧
      Tokenizer.new.handedOut ops ++ queue = (start.takeAll ops).tokens := by
  obtain ⟨queue, hall, htokens⟩ := exists_performAll_eq start [] [] (by simp) ops
  rw [tokenizer_start] at hall htokens
  exact ⟨queue, hall, htokens⟩

theorem ended_takeAll (r : Intake) (ops : List Operation) :
    (r.takeAll ops).ended ↔ r.ended ∨ .finish ∈ ops := by
  induction ops generalizing r with
  | nil => simp [takeAll]
  | cons op ops ih =>
    have h : (r.take op).ended ↔ r.ended ∨ .finish = op := by
      cases hr : r.ended with
      | true => simp [take, hr]
      | false => cases op <;> simp [take, hr]
    have htail : (r.takeAll (op :: ops)).ended ↔ (r.take op).ended ∨ .finish ∈ ops :=
      ih (r.take op)
    rw [htail, h, List.mem_cons, or_assoc]

/-- After the end of the input, the tokens are those of the text. -/
theorem tokenize_decoded {r : Intake} (h : r.ended) :
    tokenize (String.ofList r.decoded) = .ok r.tokens := by
  rw [tokenize_eq_lex]
  simp [Progress.lex, tokens, h]

end Intake

end StyleScan
