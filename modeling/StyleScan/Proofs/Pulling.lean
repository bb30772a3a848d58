import StyleScan.Proofs.Boundaries

/-! # Pulling tokens from a stream

A stream hands out the tokens of its chunks one by one, and it takes a chunk only when it has no
token left.  What it has taken after `k` tokens is therefore the least number of chunks that yields
so many, and its tokenizer is the one that has been fed these chunks, less the tokens that are gone
(`next_after_withTokenizer`).  A stream that begins with a new tokenizer hands out what tokenizing
the chunks at once yields (`next_after_new`).

## Implementation notes

Feeding adds tokens behind those in the queue, so that it makes no difference whether tokens are
pulled before or after it (`Resting.perform_without`).  Every state of a stream is thus compared with
the tokenizer that has been fed the same chunks and that nobody has pulled from. -/

namespace StyleScan

namespace Tokenizer

/-- The tokenizer less its first `k` tokens. -/
def without (t : Tokenizer) (k : Nat) : Tokenizer :=
  { t with queue := t.queue.drop k }

/-- The tokenizer after chunks of text. -/
def fed (t : Tokenizer) (chunks : List String) : Tokenizer :=
  t.performAll (chunks.map .feed)

/-- The tokenizer is between two operations. -/
def Resting (t : Tokenizer) : Prop :=
  ∃ (x : Progress) (decoder : Utf8.Decoder) (queue : List Token) (closed : Bool),
    t = x.tokenizer decoder queue closed

section Without

variable (t : Tokenizer) (k : Nat)

theorem without_succ_of_le (h : t.pending ≤ k) : t.without (k + 1) = t.without k := by
  have hk : t.queue.length ≤ k := h
  simp only [without]
  rw [List.drop_eq_nil_of_le hk, List.drop_eq_nil_of_le (Nat.le_succ_of_le hk)]

theorem next_without_of_lt (h : k < t.pending) :
    ∃ token, t.queue[k]? = some token ∧ (t.without k).next = (.token token, t.without (k + 1)) := by
  refine ⟨t.queue[k], List.getElem?_eq_getElem h, ?_⟩
  simp [next, without, List.drop_eq_getElem_cons h]

theorem next_without_of_le (h : t.pending ≤ k) :
    (t.without k).next = (if t.closed then .eof else .incomplete, t.without k) := by
  have hnil : t.queue.drop k = [] := List.drop_eq_nil_of_le h
  simp [next, without, hnil]

end Without

theorem performAll_append (t : Tokenizer) (ops more : List Operation) :
    t.performAll (ops ++ more) = (t.performAll ops).performAll more :=
  List.foldl_append

theorem fed_append (t : Tokenizer) (chunks more : List String) :
    t.fed (chunks ++ more) = (t.fed chunks).fed more := by
  rw [fed, List.map_append, performAll_append]
  rfl

/-- The chunks of a complete text may be fed in two parts. -/
theorem performAll_feeds_append (t : Tokenizer) (chunks more : List String) :
    t.performAll (feeds (chunks ++ more)) = (t.fed chunks).performAll (feeds more) := by
  rw [feeds, List.map_append, List.append_assoc, performAll_append]
  rfl

/-- A closed tokenizer takes no input and completes no token. -/
theorem performAll_of_closed (t : Tokenizer) (h : t.closed) {ops : List Operation}
    (hops : ∀ op ∈ ops, op.isInput) :
    t.performAll ops = t ∧ tokensOf (t.reportedAll ops) = [] := by
  induction ops with
  | nil => exact ⟨rfl, rfl⟩
  | cons op ops ih =>
    obtain ⟨hop, hops⟩ := List.forall_mem_cons.mp hops
    rw [performAll_cons, reportedAll, perform_of_closed t h hop, reported_of_closed t h hop]
    exact ih hops

@[simp] theorem tokensOf_cutEvents (decoder : Utf8.Decoder) (here : Position) :
    tokensOf (cutEvents decoder here) = [] := by
  unfold cutEvents
  split <;> rfl

@[simp] theorem tokensOf_replacedEvents (segments : List Utf8.Segment) (here : Position) :
    tokensOf (replacedEvents segments here) = [] := by
  unfold replacedEvents
  split <;> rfl

namespace Resting

variable {t : Tokenizer}

theorem of_performAll_new (ops : List Operation) : (new.performAll ops).Resting := by
  obtain ⟨queue, hall, -⟩ := Intake.exists_performAll_new_eq ops
  rw [hall]
  exact ⟨_, _, _, _, rfl⟩

/-- Input adds to the queue the tokens that it completes, and leads to the same state whatever is in
the queue. -/
theorem exists_perform_eq (h : t.Resting) {op : Operation} (hop : op.isInput) :
    ∃ u : Tokenizer, u.Resting ∧ ∀ queue : List Token,
      perform { t with queue := queue } op =
        { u with queue := queue ++ tokensOf (t.reported op) } := by
  obtain ⟨x, decoder, queue, closed, rfl⟩ := h
  cases closed with
  | true =>
    refine ⟨x.tokenizer decoder [] true, ⟨_, _, _, _, rfl⟩, fun queue' => ?_⟩
    rw [perform_of_closed _ rfl hop, reported_of_closed _ rfl hop]
    simp [Event.token?, Progress.tokenizer]
  | false =>
    have hwith (queue' : List Token) : { x.tokenizer decoder queue false with queue := queue' } =
        x.tokenizer decoder queue' false := rfl
    cases op with
    | feed chunk =>
      refine ⟨(x.run (decoder.carry ++ chunk.toList)).2.tokenizer .empty [] false,
        ⟨_, _, _, _, rfl⟩, fun queue' => ?_⟩
      rw [hwith, perform, reported, feed_tokenizer, feed_tokenizer]
      simp [Event.token?, Progress.tokenizer]
    | feedBytes chunk =>
      refine ⟨(x.run ((decoder.decode chunk).1.map Utf8.Segment.char)).2.tokenizer
        (decoder.decode chunk).2 [] false, ⟨_, _, _, _, rfl⟩, fun queue' => ?_⟩
      rw [hwith, perform, reported, feedBytes_tokenizer, feedBytes_tokenizer]
      simp [Event.token?, Progress.tokenizer]
    | finish =>
      refine ⟨(x.run decoder.carry).2.settled.tokenizer .empty [] true,
        ⟨_, _, _, _, rfl⟩, fun queue' => ?_⟩
      rw [hwith, perform, reported, finish_tokenizer, finish_tokenizer]
      simp [Event.token?, Progress.tokenizer]
    | _ => simp [Operation.isInput] at hop

theorem with_queue (h : t.Resting) (queue : List Token) :
    Resting { t with queue := queue } := by
  obtain ⟨x, decoder, _, closed, rfl⟩ := h
  exact ⟨x, decoder, queue, closed, rfl⟩

theorem perform (h : t.Resting) {op : Operation} (hop : op.isInput) : (t.perform op).Resting := by
  obtain ⟨u, hu, hperform⟩ := h.exists_perform_eq hop
  rw [hperform t.queue]
  exact hu.with_queue _

theorem queue_perform (h : t.Resting) {op : Operation} (hop : op.isInput) :
    (t.perform op).queue = t.queue ++ tokensOf (t.reported op) := by
  obtain ⟨u, -, hperform⟩ := h.exists_perform_eq hop
  rw [hperform t.queue]

/-- Tokens may be pulled before or after an input. -/
theorem perform_without (h : t.Resting) {op : Operation} (hop : op.isInput) {k : Nat}
    (hk : k ≤ t.pending) : (t.without k).perform op = (t.perform op).without k := by
  obtain ⟨u, -, hperform⟩ := h.exists_perform_eq hop
  rw [hperform t.queue, without, hperform, without, List.drop_append_of_le_length hk]

/-- An open tokenizer takes a chunk and stays open. -/
theorem feed_of_open (h : t.Resting) (hopen : t.closed = false) (chunk : String) :
    (t.feed chunk).error = none ∧ (t.feed chunk).tokenizer.closed = false := by
  obtain ⟨x, decoder, queue, closed, rfl⟩ := h
  obtain rfl : closed = false := hopen
  rw [feed_tokenizer]
  exact ⟨rfl, rfl⟩

/-- An open tokenizer takes the end of the input and is closed then. -/
theorem finish_of_open (h : t.Resting) (hopen : t.closed = false) :
    t.finish.error = none ∧ t.finish.tokenizer.closed = true := by
  obtain ⟨x, decoder, queue, closed, rfl⟩ := h
  obtain rfl : closed = false := hopen
  rw [finish_tokenizer]
  exact ⟨rfl, rfl⟩

theorem performAll (h : t.Resting) {ops : List Operation} (hops : ∀ op ∈ ops, op.isInput) :
    (t.performAll ops).Resting := by
  induction ops generalizing t with
  | nil => exact h
  | cons op ops ih =>
    obtain ⟨hop, hops⟩ := List.forall_mem_cons.mp hops
    exact ih (h.perform hop) hops

/-- Inputs add to the queue the tokens that they complete. -/
theorem queue_performAll (h : t.Resting) {ops : List Operation} (hops : ∀ op ∈ ops, op.isInput) :
    (t.performAll ops).queue = t.queue ++ tokensOf (t.reportedAll ops) := by
  induction ops generalizing t with
  | nil => exact (List.append_nil _).symm
  | cons op ops ih =>
    obtain ⟨hop, hops⟩ := List.forall_mem_cons.mp hops
    rw [performAll_cons, ih (h.perform hop) hops, h.queue_perform hop, reportedAll,
      tokensOf_append, List.append_assoc]

theorem fed (h : t.Resting) (chunks : List String) : (t.fed chunks).Resting :=
  h.performAll (List.forall_mem_map.mpr fun _ _ => rfl)

theorem closed_fed (h : t.Resting) (hopen : t.closed = false) (chunks : List String) :
    (t.fed chunks).closed = false := by
  induction chunks generalizing t with
  | nil => exact hopen
  | cons chunk chunks ih =>
    have hinput : (Operation.feed chunk).isInput := rfl
    have hfeed : (t.feed chunk).tokenizer.Resting := h.perform hinput
    exact ih hfeed (h.feed_of_open hopen chunk).2

theorem queue_isPrefix_fed (h : t.Resting) (chunks : List String) :
    t.queue <+: (t.fed chunks).queue := by
  rw [Tokenizer.fed, h.queue_performAll (List.forall_mem_map.mpr fun _ _ => rfl)]
  exact List.prefix_append _ _

/-- More chunks yield more tokens. -/
theorem pending_fed_mono (h : t.Resting) (chunks : List String) {j m : Nat} (hjm : j ≤ m) :
    (t.fed (chunks.take j)).pending ≤ (t.fed (chunks.take m)).pending := by
  obtain ⟨more, hmore⟩ := List.take_prefix_take_left (l := chunks) hjm
  rw [← hmore, fed_append]
  exact ((h.fed _).queue_isPrefix_fed _).length_le

/-- The tokens that the first chunks complete are the first of all tokens. -/
theorem getElem?_queue_of_lt (h : t.Resting) (chunks : List String) {m k : Nat}
    (hk : k < (t.fed (chunks.take m)).pending) :
    k < (t.performAll (feeds chunks)).pending ∧
      (t.performAll (feeds chunks)).queue[k]? = (t.fed (chunks.take m)).queue[k]? := by
  have hqueue : (t.performAll (feeds chunks)).queue = (t.fed (chunks.take m)).queue ++
      tokensOf ((t.fed (chunks.take m)).reportedAll (feeds (chunks.drop m))) := by
    conv_lhs => rw [← List.take_append_drop m chunks]
    rw [performAll_feeds_append, (h.fed _).queue_performAll (isInput_of_mem_feeds _)]
  rw [pending, hqueue, List.getElem?_append_left hk, List.length_append]
  exact ⟨Nat.lt_add_right _ hk, rfl⟩

end Resting

end Tokenizer

namespace TokenStream

open Tokenizer

/-- The stream after `k` pulls. -/
def after (s : TokenStream) : Nat → TokenStream
  | 0 => s
  | k + 1 => (s.after k).next.2

variable {t : Tokenizer} {k : Nat} (chunks : List String)

/-- A token that is ready is handed out. -/
theorem advance_of_lt (h : k < t.pending) :
    advance chunks (t.without k) =
      (t.queue[k]?.map .ok, ⟨chunks, t.without (k + 1), false⟩) := by
  obtain ⟨token, hget, hnext⟩ := t.next_without_of_lt k h
  rw [advance.eq_def, hnext, hget]
  rfl

/-- After the end of the input there is nothing to wait for. -/
theorem advance_of_closed (h : t.closed) :
    advance chunks (t.without k) =
      (t.queue[k]?.map .ok, ⟨chunks, t.without (k + 1), false⟩) := by
  rcases Nat.lt_or_ge k t.pending with hk | hk
  · exact advance_of_lt chunks hk
  · have hnone : t.queue[k]? = none := List.getElem?_eq_none hk
    rw [advance.eq_def, t.next_without_of_le k hk, hnone, t.without_succ_of_le k hk]
    simp [h]

/-- Without a token, the next chunk is taken. -/
theorem advance_cons (ht : t.Resting) (hopen : t.closed = false) (chunk : String) :
    advance (chunk :: chunks) (t.without t.pending) =
      advance chunks ((t.feed chunk).tokenizer.without t.pending) := by
  have hwithout : (t.without t.pending).Resting := ht.with_queue _
  have hinput : (Operation.feed chunk).isInput := rfl
  have hfeed : ((t.without t.pending).feed chunk).tokenizer =
      (t.feed chunk).tokenizer.without t.pending :=
    ht.perform_without hinput (Nat.le_refl _)
  have herror := (hwithout.feed_of_open hopen chunk).1
  rw [advance, t.next_without_of_le _ (Nat.le_refl _)]
  simp [hopen, herror, hfeed]

/-- Without a token and without a chunk, the input is finished. -/
theorem advance_nil (ht : t.Resting) (hopen : t.closed = false) :
    advance [] (t.without t.pending) =
      (t.finish.tokenizer.queue[t.pending]?.map .ok,
        ⟨[], t.finish.tokenizer.without (t.pending + 1), false⟩) := by
  have hwithout : (t.without t.pending).Resting := ht.with_queue _
  have hinput : Operation.finish.isInput := rfl
  have hfinish : (t.without t.pending).finish.tokenizer =
      t.finish.tokenizer.without t.pending :=
    ht.perform_without hinput (Nat.le_refl _)
  have herror := (hwithout.finish_of_open hopen).1
  rw [advance, t.next_without_of_le _ (Nat.le_refl _)]
  simp only [hopen, Bool.false_eq_true, if_false, afterFinish, herror, hfinish]
  rcases Nat.lt_or_ge t.pending t.finish.tokenizer.pending with hk | hk
  · obtain ⟨token, hget, hnext⟩ := t.finish.tokenizer.next_without_of_lt _ hk
    rw [hnext, hget]
    rfl
  · have hnone : t.finish.tokenizer.queue[t.pending]? = none := List.getElem?_eq_none hk
    rw [t.finish.tokenizer.next_without_of_le _ hk, hnone,
      t.finish.tokenizer.without_succ_of_le _ hk]
    simp [(ht.finish_of_open hopen).2]

/-- The stream from which `k` tokens have been pulled, if it began with the tokenizer `t`: it has
taken as many chunks as it takes for so many tokens, and the end of the input only if all of them
yield fewer. -/
inductive Pulled (chunks : List String) (t : Tokenizer) (k : Nat) : TokenStream → Prop where
  | feeding (m : Nat) (hm : m ≤ chunks.length)
      (hleast : ∀ j < m, (t.fed (chunks.take j)).pending < k)
      (henough : k ≤ (t.fed (chunks.take m)).pending) :
      Pulled chunks t k ⟨chunks.drop m, (t.fed (chunks.take m)).without k, false⟩
  | ended (hfew : (t.fed chunks).pending < k)
      (henough : k ≤ (t.performAll (feeds chunks)).pending) :
      Pulled chunks t k ⟨[], (t.performAll (feeds chunks)).without k, false⟩

/-- The stream has nothing to hand out any more. -/
def Exhausted (s : TokenStream) : Prop :=
  s.next = (none, s)

theorem exhausted_of_closed {t : Tokenizer} (hclosed : t.closed) (hk : t.pending ≤ k) :
    Exhausted ⟨chunks, t.without k, false⟩ := by
  have hnone : t.queue[k]? = none := List.getElem?_eq_none hk
  have hadvance := advance_of_closed (k := k) chunks hclosed
  rw [hnone, t.without_succ_of_le k hk] at hadvance
  exact hadvance

section Open

variable (ht : t.Resting) (hopen : t.closed = false)

include ht hopen

theorem closed_performAll_feeds : (t.performAll (feeds chunks)).closed := by
  have hclosed := (ht.fed chunks).closed_fed (ht.closed_fed hopen chunks) []
  have hsplit := performAll_feeds_append t chunks []
  rw [List.append_nil] at hsplit
  rw [hsplit]
  exact ((ht.fed chunks).finish_of_open hclosed).2

/-- Once all tokens of the chunks taken so far are gone, chunks are taken up to one that yields
another token, or to the end of the input. -/
theorem exists_advance_eq {m : Nat} (hm : m ≤ chunks.length)
    (hk : (t.fed (chunks.take m)).pending = k) :
    ∃ s, advance (chunks.drop m) ((t.fed (chunks.take m)).without k) =
        ((t.performAll (feeds chunks)).queue[k]?.map .ok, s) ∧
      if k < (t.performAll (feeds chunks)).pending then Pulled chunks t (k + 1) s
      else Exhausted s := by
  obtain ⟨d, hd⟩ : ∃ d, m + d = chunks.length := ⟨chunks.length - m, by omega⟩
  induction d generalizing m with
  | zero =>
    obtain rfl : m = chunks.length := hd
    rw [List.take_length] at hk
    have hall : (t.fed chunks).finish.tokenizer = t.performAll (feeds chunks) := by
      have hsplit := performAll_feeds_append t chunks []
      rw [List.append_nil] at hsplit
      exact hsplit.symm
    have hadvance := advance_nil (ht.fed chunks) (ht.closed_fed hopen chunks)
    rw [hk, hall] at hadvance
    rw [List.drop_length, List.take_length]
    refine ⟨_, hadvance, ?_⟩
    split
    next hmore => exact .ended (by omega) hmore
    next hless =>
      have hnone : (t.performAll (feeds chunks)).pending ≤ k := Nat.le_of_not_lt hless
      rw [Tokenizer.without_succ_of_le _ _ hnone]
      exact exhausted_of_closed [] (closed_performAll_feeds chunks ht hopen) hnone
  | succ d ih =>
    have hlt : m < chunks.length := by omega
    have hfed : t.fed (chunks.take (m + 1)) =
        ((t.fed (chunks.take m)).feed chunks[m]).tokenizer := by
      rw [List.take_succ_eq_append_getElem hlt, fed_append]
      rfl
    have hadvance := advance_cons (chunks.drop (m + 1)) (ht.fed (chunks.take m))
      (ht.closed_fed hopen _) chunks[m]
    rw [← hfed, hk] at hadvance
    rw [List.drop_eq_getElem_cons hlt, hadvance]
    have hmono := ht.pending_fed_mono chunks (Nat.le_succ m)
    rw [hk] at hmono
    rcases Nat.lt_or_eq_of_le hmono with hmore | hsame
    · -- the chunk yields a token, which is the next of all tokens
      obtain ⟨hmoreAll, hget⟩ := ht.getElem?_queue_of_lt chunks hmore
      refine ⟨_, by rw [advance_of_lt _ hmore, hget], ?_⟩
      rw [if_pos hmoreAll]
      refine .feeding (m + 1) hlt (fun j hj => ?_) hmore
      have hj := ht.pending_fed_mono chunks (Nat.le_of_lt_succ hj)
      omega
    · exact ih hlt hsame.symm (by omega)

/-- A pull hands out the next of all tokens, if there is one. -/
theorem Pulled.next {s : TokenStream} (h : Pulled chunks t k s) :
    s.next.1 = (t.performAll (feeds chunks)).queue[k]?.map .ok ∧
      if k < (t.performAll (feeds chunks)).pending then Pulled chunks t (k + 1) s.next.2
      else Exhausted s.next.2 := by
  cases h with
  | feeding m hm hleast henough =>
    rcases Nat.lt_or_eq_of_le henough with hready | hempty
    · obtain ⟨hmoreAll, hget⟩ := ht.getElem?_queue_of_lt chunks hready
      have hnext := advance_of_lt (chunks.drop m) hready
      simp only [TokenStream.next, Bool.false_eq_true, if_false, hnext, hget, if_pos hmoreAll,
        true_and]
      refine .feeding m hm (fun j hj => ?_) hready
      exact Nat.lt_succ_of_lt (hleast j hj)
    · obtain ⟨s', hadvance, hs'⟩ := exists_advance_eq chunks ht hopen hm hempty.symm
      simp only [TokenStream.next, Bool.false_eq_true, if_false, hadvance, true_and]
      exact hs'
  | ended hfew henough =>
    have hclosed := closed_performAll_feeds chunks ht hopen
    have hnext := advance_of_closed (k := k) [] hclosed
    simp only [TokenStream.next, Bool.false_eq_true, if_false, hnext, true_and]
    split
    next hmore => exact .ended (Nat.lt_succ_of_lt hfew) hmore
    next hless =>
      have hnone : (t.performAll (feeds chunks)).pending ≤ k := Nat.le_of_not_lt hless
      rw [Tokenizer.without_succ_of_le _ _ hnone]
      exact exhausted_of_closed [] hclosed hnone

/-- Pulls hand out all tokens in order, and nothing after them. -/
theorem pulled_after (k : Nat) :
    if k ≤ (t.performAll (feeds chunks)).pending then
      Pulled chunks t k ((withTokenizer chunks t).after k)
    else Exhausted ((withTokenizer chunks t).after k) := by
  induction k with
  | zero =>
    rw [if_pos (Nat.zero_le _)]
    exact .feeding 0 (Nat.zero_le _) (fun j hj => absurd hj (Nat.not_lt_zero j)) (Nat.zero_le _)
  | succ k ih =>
    split at ih
    next hk => exact ((ih.next chunks ht hopen).2)
    next hk =>
      have hfixed : ((withTokenizer chunks t).after (k + 1)) = (withTokenizer chunks t).after k :=
        congrArg Prod.snd ih
      rw [if_neg (by omega), hfixed]
      exact ih

end Open

/-- A stream whose tokenizer is closed hands out what is in the queue and takes no chunk. -/
theorem after_of_closed (hclosed : t.closed) (k : Nat) :
    (withTokenizer chunks t).after k = ⟨chunks, t.without k, false⟩ ∧
      ((withTokenizer chunks t).after k).next.1 = t.queue[k]?.map .ok := by
  have hnext (k : Nat) : TokenStream.next ⟨chunks, t.without k, false⟩ =
      (t.queue[k]?.map .ok, ⟨chunks, t.without (k + 1), false⟩) :=
    advance_of_closed chunks hclosed
  have hafter : (withTokenizer chunks t).after k = ⟨chunks, t.without k, false⟩ := by
    induction k with
    | zero => rfl
    | succ k ih => rw [after, ih, hnext]
  rw [hafter, hnext]
  exact ⟨rfl, rfl⟩

/-- What a stream hands out, and where it is after each token. -/
theorem next_after (ht : t.Resting) (k : Nat) :
    ((withTokenizer chunks t).after k).next.1 =
        (t.performAll (feeds chunks)).queue[k]?.map .ok ∧
      (k ≤ (t.performAll (feeds chunks)).pending →
        Pulled chunks t k ((withTokenizer chunks t).after k)) := by
  cases hclosed : t.closed with
  | true =>
    obtain ⟨hafter, hnext⟩ := after_of_closed chunks hclosed k
    rw [(t.performAll_of_closed hclosed (isInput_of_mem_feeds chunks)).1, hafter]
    rw [hafter] at hnext
    exact ⟨hnext, .feeding 0 (Nat.zero_le _) fun j hj => absurd hj (Nat.not_lt_zero j)⟩
  | false =>
    have hpulled := pulled_after chunks ht hclosed k
    split at hpulled
    next hk => exact ⟨(hpulled.next chunks ht hclosed).1, fun _ => hpulled⟩
    next hk =>
      have hnone : (t.performAll (feeds chunks)).queue[k]? = none :=
        List.getElem?_eq_none (Nat.le_of_not_le hk)
      refine ⟨?_, fun h => absurd h hk⟩
      rw [hnone]
      exact congrArg Prod.fst hpulled

namespace Pulled

variable {s : TokenStream} {chunks}

/-- The stream has taken the least number of chunks that yields as many tokens as were pulled. -/
theorem eq_of_least (h : Pulled chunks t k s) (ht : t.Resting) {m : Nat}
    (henough : k ≤ (t.fed (chunks.take m)).pending)
    (hleast : ∀ j < m, (t.fed (chunks.take j)).pending < k) :
    s = ⟨chunks.drop m, (t.fed (chunks.take m)).without k, false⟩ := by
  cases h with
  | feeding m' _ hleast' henough' =>
    obtain rfl : m = m' := by
      rcases Nat.lt_trichotomy m m' with hlt | rfl | hgt
      · have hfewer := hleast' m hlt
        omega
      · rfl
      · have hfewer := hleast m' hgt
        omega
    rfl
  | ended hfew _ =>
    have hmono := ht.pending_fed_mono chunks (Nat.le_max_left m chunks.length)
    rw [List.take_of_length_le (Nat.le_max_right m chunks.length)] at hmono
    omega

/-- If no number of chunks yields so many tokens, the stream has taken the end of the input. -/
theorem eq_of_few (h : Pulled chunks t k s)
    (hfew : ∀ m ≤ chunks.length, (t.fed (chunks.take m)).pending < k) :
    s = ⟨[], (t.performAll (feeds chunks)).without k, false⟩ := by
  cases h with
  | feeding m hm _ henough =>
    have hfewer := hfew m hm
    omega
  | ended _ _ => rfl

end Pulled

end TokenStream

/-- A stream that continues with a tokenizer hands out the tokens in its queue and then those that
the chunks and the end of the input complete, and nothing after them.  When `k` tokens have been
pulled, it has taken the least number of chunks that yields so many, and the end of the input only
if all of them yield fewer; its tokenizer is the one that has been fed these chunks, less the `k`
tokens.  If the tokenizer was closed, no chunk is ever taken. -/
theorem next_after_withTokenizer {σ : Type} (logger : Log.Logger σ) (traceChars hooked : Bool)
    (ops : List Operation) (chunks : List String) :
    let t := ((Session.new logger traceChars hooked).1.performAll ops).1.tokenizer
    let tokens := t.queue ++ tokensOf (t.reportedAll (feeds chunks))
    let stream := TokenStream.withTokenizer chunks t
    (∀ k, (stream.after k).next.1 = tokens[k]?.map .ok) ∧
      (∀ k ≤ tokens.length,
        (∀ m ≤ chunks.length, k ≤ (t.fed (chunks.take m)).pending →
          (∀ j < m, (t.fed (chunks.take j)).pending < k) →
          stream.after k = ⟨chunks.drop m, (t.fed (chunks.take m)).without k, false⟩) ∧
        ((∀ m ≤ chunks.length, (t.fed (chunks.take m)).pending < k) →
          stream.after k = ⟨[], (t.performAll (feeds chunks)).without k, false⟩)) ∧
      (t.closed → tokens = t.queue ∧ ∀ k, (stream.after k).chunks = chunks) := by
  intro t tokens stream
  have ht : t.Resting := by
    simp only [t, Session.performAll_tokenizer, Session.new_tokenizer]
    exact .of_performAll_new ops
  have hqueue : (t.performAll (feeds chunks)).queue = tokens :=
    ht.queue_performAll (isInput_of_mem_feeds chunks)
  refine ⟨fun k => ?_, fun k hk => ?_, fun hclosed => ⟨?_, fun k => ?_⟩⟩
  · rw [← hqueue]
    exact (TokenStream.next_after chunks ht k).1
  · rw [← hqueue] at hk
    have hpulled := (TokenStream.next_after chunks ht k).2 hk
    exact ⟨fun m _ => hpulled.eq_of_least ht, hpulled.eq_of_few⟩
  · simp only [tokens, (t.performAll_of_closed hclosed (isInput_of_mem_feeds chunks)).2,
      List.append_nil]
  · exact congrArg TokenStream.chunks (TokenStream.after_of_closed chunks hclosed k).1

/-- Three tokens are ready, and the fourth is a slash that the third chunk completes; the last token
takes the end of the input. -/
theorem next_after_withTokenizer_of_lookahead :
    let t := ((Session.new (Log.Logger.new .error : Log.Logger Unit) false false).1.performAll
      [.feed "a b"]).1.tokenizer
    let stream := TokenStream.withTokenizer ["", "/", "c", " "] t
    stream.after 4 = ⟨[" "], (t.fed ["", "/", "c"]).without 4, false⟩ ∧
      stream.after 6 = ⟨[], (t.performAll (feeds ["", "/", "c", " "])).without 6, false⟩ := by
  intro t stream
  obtain ⟨-, hafter, -⟩ := next_after_withTokenizer (Log.Logger.new .error : Log.Logger Unit) false
    false [.feed "a b"] ["", "/", "c", " "]
  constructor
  · apply (hafter 4 (by decide +kernel)).1 3
    · decide
    · decide +kernel
    · decide +kernel
  · apply (hafter 6 (by decide +kernel)).2
    decide +kernel

/-- An open tokenizer takes all chunks. -/
theorem Tokenizer.Resting.feedAll_eq {t : Tokenizer} (ht : t.Resting) (hopen : t.closed = false)
    (chunks : List String) : t.feedAll chunks = .ok (t.fed chunks) := by
  induction chunks generalizing t with
  | nil => rfl
  | cons chunk chunks ih =>
    have hinput : (Operation.feed chunk).isInput := rfl
    obtain ⟨herror, hstill⟩ := ht.feed_of_open hopen chunk
    have hrest : (t.feed chunk).tokenizer.feedAll chunks = .ok (t.fed (chunk :: chunks)) :=
      ih (ht.perform hinput) hstill
    simp only [Tokenizer.feedAll, herror, hrest]

/-- What a stream of chunks hands out is the list of the tokens that the chunks have together. -/
theorem next_after_new (chunks : List String) :
    ∃ ts, tokenizeChunks chunks = .ok ts ∧
      ∀ k, ((TokenStream.new chunks).after k).next.1 = ts[k]?.map .ok := by
  have hnew : Tokenizer.new.Resting := .of_performAll_new []
  have hfed := hnew.fed chunks
  have hopen := hnew.closed_fed rfl chunks
  refine ⟨(Tokenizer.new.performAll (feeds chunks)).queue, ?_, fun k => ?_⟩
  · have hsplit := Tokenizer.performAll_feeds_append .new chunks []
    rw [List.append_nil] at hsplit
    rw [tokenizeChunks, hnew.feedAll_eq rfl, ok_bind, Tokenizer.close,
      (hfed.finish_of_open hopen).1, hsplit]
    rfl
  · exact (TokenStream.next_after chunks hnew k).1

end StyleScan
