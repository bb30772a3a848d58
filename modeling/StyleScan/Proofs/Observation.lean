import StyleScan.Proofs.Session

/-! # Looking on

Whoever looks on sees what happens but has no part in it.  Two sessions whose tokenizers are in the
same state answer every operation alike and stay in the same state, whatever hooks, levels and sinks
they have, and an operation on the observers alone leaves the tokenizer as it is.  So a caller sees of
a session what it would see with nobody looking on (`responses_eq_unobserved`). -/

namespace StyleScan

open Log (Logger)

/-- What a tokenizer tells about its state. -/
structure View where
  position : Position
  depth : Nat
  /-- The number of queued tokens. -/
  pending : Nat
  /-- The token that is being read. -/
  draft : Option Draft
  finished : Bool
deriving Repr, DecidableEq, Inhabited

/-- What a caller sees of a tokenizer. -/
def Tokenizer.view (t : Tokenizer) : View :=
  ⟨t.position, t.depth, t.pending, t.scanner.draft, t.closed⟩

/-- What a caller sees of an operation: its answer, and the tokenizer after it. -/
structure Response where
  operation : Operation
  answer : Answer
  view : View
deriving Repr, DecidableEq, Inhabited

namespace Operation

/-- The operation is one on the observers. -/
def isObservation : Operation → Bool
  | .hook | .unhook | .setLevel _ => true
  | .feed _ | .feedBytes _ | .finish | .next | .drain | .drainTake _ => false

/-- The operations on the tokenizer. -/
def calls (ops : List Operation) : List Operation :=
  ops.filter fun op => !op.isObservation

theorem calls_cons (op : Operation) (ops : List Operation) :
    calls (op :: ops) = if op.isObservation then calls ops else op :: calls ops := by
  cases h : op.isObservation <;> simp [calls, h]

end Operation

open Operation (calls calls_cons)

/-- The operations on the observers leave a tokenizer as it is. -/
theorem Tokenizer.performAll_calls (t : Tokenizer) (ops : List Operation) :
    t.performAll (calls ops) = t.performAll ops := by
  induction ops generalizing t with
  | nil => rfl
  | cons op ops ih =>
    cases op with
    | hook | unhook | setLevel _ => exact ih t
    | feed _ | feedBytes _ | finish | next | drain | drainTake _ => exact ih _

namespace Session

variable {σ τ : Type}

/-- What a caller sees of operations in order. -/
def responses (s : Session σ) : List Operation → List Response
  | [] => []
  | op :: ops =>
    let (s, outcome) := s.perform op
    ⟨op, outcome.answer, s.tokenizer.view⟩ :: s.responses ops

theorem responses_cons (s : Session σ) (op : Operation) (ops : List Operation) :
    s.responses (op :: ops) =
      ⟨op, (s.perform op).2.answer, (s.perform op).1.tokenizer.view⟩ ::
        (s.perform op).1.responses ops := rfl

/-- Sessions that differ in their observers only answer alike, and their tokenizers go on alike. -/
theorem perform_alike {s : Session σ} {r : Session τ} (h : s.tokenizer = r.tokenizer)
    (op : Operation) :
    (s.perform op).2.answer = (r.perform op).2.answer ∧
      (s.perform op).1.tokenizer = (r.perform op).1.tokenizer := by
  constructor
  · cases op <;> simp [perform, observe, quietly, h]
  · rw [perform_tokenizer, perform_tokenizer, h]

/-- A caller sees of two such sessions the same, even if the observers of one of them come and go. -/
theorem responses_alike {s : Session σ} {r : Session τ} (h : s.tokenizer = r.tokenizer)
    (ops : List Operation) :
    ((s.responses ops).filter fun response => !response.operation.isObservation) =
      r.responses (calls ops) := by
  induction ops generalizing s r with
  | nil => rfl
  | cons op ops ih =>
    rw [responses_cons, calls_cons, List.filter_cons]
    cases hop : op.isObservation with
    | true =>
      have hs : (s.perform op).1.tokenizer = s.tokenizer := by
        cases op with
        | hook | unhook | setLevel _ => rfl
        | _ => cases hop
      simpa using ih (hs.trans h)
    | false =>
      obtain ⟨hanswer, htokenizer⟩ := perform_alike h op
      simp only [Bool.not_false, if_true, Bool.false_eq_true, if_false]
      rw [responses_cons, hanswer, htokenizer, ih htokenizer]

end Session

end StyleScan
