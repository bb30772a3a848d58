import StyleScan.Proofs.Operations
import StyleScan.Session

/-! # Operations of a session

The observers of a session never touch its tokenizer, so the tokenizer after some operations does
not depend on them.  Once the input is over, an operation that brings input is refused and changes
nothing; until then every one is accepted. -/

namespace StyleScan

/-- The operation brings input or ends it. -/
def Operation.isInput : Operation → Bool
  | .feed _ | .feedBytes _ | .finish => true
  | .next | .drain | .drainTake _ | .hook | .unhook | .setLevel _ => false

namespace Tokenizer

/-- The tokenizer after an operation. -/
def perform (t : Tokenizer) : Operation → Tokenizer
  | .feed chunk => (t.feed chunk).tokenizer
  | .feedBytes chunk => (t.feedBytes chunk).tokenizer
  | .finish => t.finish.tokenizer
  | .next => t.next.2
  | .drain | .drainTake _ => t.drain.2
  | .hook | .unhook | .setLevel _ => t

/-- The tokenizer after operations in order. -/
def performAll (t : Tokenizer) (ops : List Operation) : Tokenizer :=
  ops.foldl perform t

@[simp] theorem performAll_nil (t : Tokenizer) : t.performAll [] = t := rfl

@[simp] theorem performAll_cons (t : Tokenizer) (op : Operation) (ops : List Operation) :
    t.performAll (op :: ops) = (t.perform op).performAll ops := rfl

variable (x : Progress) (decoder : Utf8.Decoder) (queue : List Token) (closed : Bool)

@[simp] theorem next_tokenizer :
    (x.tokenizer decoder queue closed).next.2 = x.tokenizer decoder (queue.drop 1) closed := by
  cases queue <;> rfl

@[simp] theorem drain_tokenizer :
    (x.tokenizer decoder queue closed).drain = (queue, x.tokenizer decoder [] closed) := rfl

/-- The tokens that an operation takes out of the queue, whether the caller looks at all of them
or not. -/
def handsOut (t : Tokenizer) : Operation → List Token
  | .next =>
    match t.next.1 with
    | .token token => [token]
    | .incomplete | .eof => []
  | .drain | .drainTake _ => t.drain.1
  | .feed _ | .feedBytes _ | .finish | .hook | .unhook | .setLevel _ => []

/-- The tokens that operations take out of the queue, in order. -/
def handedOut (t : Tokenizer) : List Operation → List Token
  | [] => []
  | op :: ops => t.handsOut op ++ (t.perform op).handedOut ops

theorem handsOut_of_isInput (t : Tokenizer) {op : Operation} (hop : op.isInput) :
    t.handsOut op = [] := by
  cases op with
  | feed _ | feedBytes _ | finish => rfl
  | _ => simp [Operation.isInput] at hop

/-- An operation that brings no input takes tokens from the front of the queue, if it does
anything. -/
theorem perform_of_not_isInput {op : Operation} (hop : op.isInput = false) :
    ∃ queue', (x.tokenizer decoder queue closed).perform op = x.tokenizer decoder queue' closed ∧
      (x.tokenizer decoder queue closed).handsOut op ++ queue' = queue := by
  cases op with
  | feed _ | feedBytes _ | finish => simp [Operation.isInput] at hop
  | next =>
    refine ⟨queue.drop 1, next_tokenizer x decoder queue closed, ?_⟩
    cases queue with
    | nil => cases closed <;> rfl
    | cons token queue => rfl
  | drain | drainTake _ => exact ⟨[], rfl, by simp [handsOut]⟩
  | hook | unhook | setLevel _ => exact ⟨queue, rfl, rfl⟩

/-- A closed tokenizer stays as it is, whatever comes in. -/
theorem perform_of_closed (t : Tokenizer) (h : t.closed) {op : Operation} (hop : op.isInput) :
    t.perform op = t := by
  cases op with
  | feed chunk => rw [perform, feed_of_closed t h, refuse]
  | feedBytes chunk => rw [perform, feedBytes_of_closed t h, refuse]
  | finish => rw [perform, finish_of_closed t h, refuse]
  | _ => simp [Operation.isInput] at hop

end Tokenizer

namespace Session

variable {σ : Type} (s : Session σ)

theorem new_tokenizer (logger : Log.Logger σ) (traceChars hooked : Bool) :
    (new logger traceChars hooked).1.tokenizer = .new := rfl

/-- The observers do not touch the tokenizer. -/
theorem perform_tokenizer (op : Operation) :
    (s.perform op).1.tokenizer = s.tokenizer.perform op := by
  cases op <;> rfl

theorem performAll_tokenizer (ops : List Operation) :
    (s.performAll ops).1.tokenizer = s.tokenizer.performAll ops := by
  induction ops generalizing s with
  | nil => rfl
  | cons op ops ih =>
    have h := ih (s.perform op).1
    rw [perform_tokenizer] at h
    exact h

/-- An open tokenizer accepts every input. -/
theorem answer_of_open {x : Progress} {decoder : Utf8.Decoder} {queue : List Token}
    (h : s.tokenizer = x.tokenizer decoder queue false) {op : Operation} (hop : op.isInput) :
    (s.perform op).2.answer = .accepted := by
  cases op with
  | feed chunk => simp [perform, observe, h, Tokenizer.feed_tokenizer]
  | feedBytes chunk => simp [perform, observe, h, Tokenizer.feedBytes_tokenizer]
  | finish => simp [perform, observe, h, Tokenizer.finish_tokenizer]
  | _ => simp [Operation.isInput] at hop

/-- A closed tokenizer refuses every input. -/
theorem answer_of_closed (h : s.tokenizer.closed) {op : Operation} (hop : op.isInput) :
    (s.perform op).2.answer = .rejected .closed := by
  cases op with
  | feed chunk => simp [perform, observe, Tokenizer.feed_of_closed _ h, Tokenizer.refuse]
  | feedBytes chunk => simp [perform, observe, Tokenizer.feedBytes_of_closed _ h, Tokenizer.refuse]
  | finish => simp [perform, observe, Tokenizer.finish_of_closed _ h, Tokenizer.refuse]
  | _ => simp [Operation.isInput] at hop

/-- Input is refused without effect if the tokenizer is closed, and accepted if it is open. -/
theorem perform_input {x : Progress} {decoder : Utf8.Decoder} {queue : List Token} {closed : Bool}
    (h : s.tokenizer = x.tokenizer decoder queue closed) {op : Operation} (hop : op.isInput) :
    if closed then
      (s.perform op).2.answer = .rejected .closed ∧ (s.perform op).1.tokenizer = s.tokenizer
    else (s.perform op).2.answer = .accepted := by
  cases closed with
  | true =>
    have hclosed : s.tokenizer.closed := by simp [h, Progress.tokenizer]
    refine ⟨s.answer_of_closed hclosed hop, ?_⟩
    rw [perform_tokenizer, Tokenizer.perform_of_closed _ hclosed hop]
  | false => exact s.answer_of_open h hop

/-- Only input is ever rejected. -/
theorem answer_ne_rejected {op : Operation} (hop : op.isInput = false) (e : ScanError) :
    (s.perform op).2.answer ≠ .rejected e := by
  cases op with
  | feed _ | feedBytes _ | finish => simp [Operation.isInput] at hop
  | _ => simp [perform, quietly]

end Session

end StyleScan
