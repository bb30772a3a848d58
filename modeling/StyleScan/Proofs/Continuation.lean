import StyleScan.Proofs.Tokenization

/-! # What more input can change

A token is queued as soon as no continuation of the input can change it, and not before.  Whatever
is open can go on with one more character at least, so that its token is another one if the input
ends here than if that character comes next (`exists_lex_growth`).

## Implementation notes

A list of tokens is certain after a text if it is a prefix of the tokens of every continuation.  The
queue is certain because a run in two parts is a run of the whole, and nothing longer is certain
because two continuations disagree on the next token. -/

namespace StyleScan

namespace Phase

/-- A character that the open piece takes up, or one that begins a token where nothing is open. -/
def growth : Phase → Char
  | .between | .block _ _ | .string _ _ _ => 'x'
  | .blanks _ _ => ' '
  | .slash _ => '*'
  | .line _ _ => '\n'

end Phase

namespace Progress

theorem lex_append (x : Progress) (cs ds : List Char) :
    x.lex (cs ++ ds) = tokensOf (x.run cs).1 ++ (x.run cs).2.lex ds := by
  simp [lex, run_append]

/-- If the input ends here, the next token is what is open. -/
theorem text_of_mem_lex_nil (x : Progress) :
    ∀ t ∈ (x.lex []).head?, t.text.toList = x.phase.text := by
  obtain ⟨tracker, phase⟩ := x
  rw [lex_nil]
  cases phase <;> simp [flush, Event.token?, Phase.text]

/-- If what is open goes on, the next token has one more character. -/
theorem exists_lex_growth (x : Progress) :
    ∃ t ∈ (x.lex [x.phase.growth]).head?, t.text.toList = x.phase.text ++ [x.phase.growth] := by
  obtain ⟨tracker, phase⟩ := x
  cases phase with
  | between =>
    have hq : Quote.ofChar? 'x' = none := rfl
    rw [Phase.growth, lex_identifier tracker rfl (by decide) hq]
    simp [Phase.text]
  | blanks start text =>
    rw [Phase.growth, lex_mk_cons, Phase.read, readGeneral_of_isBlank _ _ rfl, lex_nil]
    simp [Phase.blank, Phase.text, flush, Event.token?]
  | slash start =>
    rw [Phase.growth, lex_mk_cons, lex_nil]
    simp [Phase.read, Phase.readSlash, Phase.text, flush, Event.token?]
  | block start body =>
    rw [Phase.growth, lex_mk_cons, lex_nil]
    simp [Phase.read, Phase.text, flush, Event.token?]
  | line start body =>
    -- After a carriage return only a line feed still belongs to the comment.
    rw [Phase.growth, lex_mk_cons]
    cases h : tracker.afterReturn with
    | true => simp [Phase.read, Phase.text, h, LineBreak.of, LineBreak.isComplete, Event.token?]
    | false => simp [Phase.read, Phase.text, h, LineBreak.of, LineBreak.isComplete, Event.token?]
  | string quote start body =>
    have hq : 'x' ≠ quote.char := by cases quote <;> decide
    rw [Phase.growth, lex_mk_cons, lex_nil]
    simp [Phase.read, Phase.text, breaksLine, hq, flush, Event.token?]

/-- Two continuations disagree on the next token. -/
theorem exists_lex_head?_ne (x : Progress) : ∃ cs, (x.lex cs).head? ≠ (x.lex []).head? := by
  obtain ⟨t, ht, htext⟩ := x.exists_lex_growth
  refine ⟨[x.phase.growth], fun heq => ?_⟩
  rw [heq] at ht
  have hshort := x.text_of_mem_lex_nil t ht
  rw [htext] at hshort
  simp at hshort

end Progress

/-- What is a prefix of two lists that part after `l` is a prefix of `l`. -/
theorem isPrefix_of_head?_ne {α : Type} {k l as bs : List α} (ha : k <+: l ++ as)
    (hb : k <+: l ++ bs) (hne : as.head? ≠ bs.head?) : k <+: l := by
  rcases List.prefix_or_prefix_of_prefix ha (List.prefix_append l as) with h | ⟨ks, rfl⟩
  · exact h
  · rw [List.prefix_append_right_inj] at ha hb
    cases ks with
    | nil => simp
    | cons a ks =>
      obtain ⟨as, rfl⟩ := ha
      obtain ⟨bs, rfl⟩ := hb
      exact absurd rfl hne

theorem Tokenizer.queue_feed_new (text : String) :
    (Tokenizer.new.feed text).tokenizer.queue = tokensOf (Progress.start.run text.toList).1 := by
  rw [new_eq_tokenizer, feed_tokenizer]
  simp [Progress.tokenizer, Utf8.Decoder.carry, Utf8.Decoder.hasPending, Utf8.Decoder.empty]

/-- The tokens of a continuation are those that are queued by then, and what the rest yields. -/
theorem tokenize_append (text rest : String) :
    tokenize (text ++ rest) = .ok ((Tokenizer.new.feed text).tokenizer.queue ++
      (Progress.start.run text.toList).2.lex rest.toList) := by
  rw [tokenize_eq_lex, String.toList_append, Progress.lex_append, Tokenizer.queue_feed_new]

/-- The queue is the longest list of tokens with which the tokens of every continuation begin: the
lists with which they all begin are exactly its prefixes. -/
theorem isPrefix_queue_iff (text : String) (ts : List Token) :
    ts <+: (Tokenizer.new.feed text).tokenizer.queue ↔
      ∀ rest, ∃ all, tokenize (text ++ rest) = .ok all ∧ ts <+: all := by
  constructor
  · intro h rest
    exact ⟨_, tokenize_append text rest, h.trans (List.prefix_append _ _)⟩
  · intro h
    have hall (cs : List Char) : ts <+: (Tokenizer.new.feed text).tokenizer.queue ++
        (Progress.start.run text.toList).2.lex cs := by
      obtain ⟨all, hok, hprefix⟩ := h (String.ofList cs)
      rw [tokenize_append, String.toList_ofList, Except.ok.injEq] at hok
      rwa [hok]
    obtain ⟨cs, hne⟩ := (Progress.start.run text.toList).2.exists_lex_head?_ne
    exact isPrefix_of_head?_ne (hall cs) (hall []) hne

end StyleScan
