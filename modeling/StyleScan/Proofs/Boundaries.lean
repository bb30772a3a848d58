import StyleScan.Proofs.Layout

/-! # The boundaries of tokens in a trace

A trace reports the beginning and the end of each token among the characters that it reads.
Beginnings and ends alternate, token by token, and none is reported more than one character late:
the scanner has to see one more character at most before it knows what a slash begins, where a run
of blanks ends, or whether a line feed still belongs to a carriage return
(`trace_brackets_tokens`).

## Implementation notes

What has been reported of the open piece is carried through a run as a list of marks that are
still to be closed.  A slash is the only open piece of which nothing has been reported, and it is
one character long; that is why its token does not begin too late. -/

namespace StyleScan

/-- The reports of a trace other than those of characters, each with the number of characters read
by then, if `n` have been read before. -/
def marks (n : Nat) : List TraceEvent → List (Nat × TraceEvent)
  | [] => []
  | .charRead _ _ :: es => marks (n + 1) es
  | e :: es => (n, e) :: marks n es

/-- The marks are the beginnings and ends of tokens that cover the input from its character `a`
on.  A token begins once its first or its second character has been read, and ends once its last
one or the one after that has been read. -/
inductive Brackets : Nat → List Token → List (Nat × TraceEvent) → Prop where
  | nil (a : Nat) : Brackets a [] []
  | cons {a n m : Nat} {t : Token} {ts : List Token} {ms : List (Nat × TraceEvent)}
    (hn : n = a + 1 ∨ n = a + 2) (hm : m = a + t.text.length ∨ m = a + t.text.length + 1)
    (h : Brackets (a + t.text.length) ts ms) :
    Brackets a (t :: ts) ((n, .tokenStart t.kind.opening t.start) ::
      (m, .tokenEnd t.kind t.text t.start) :: ms)

/-- The number of characters of tokens. -/
def sizeOfTokens (ts : List Token) : Nat :=
  (ts.map fun t => t.text.length).sum

theorem sizeOfTokens_append (ts us : List Token) :
    sizeOfTokens (ts ++ us) = sizeOfTokens ts + sizeOfTokens us := by
  simp [sizeOfTokens]

theorem length_textOfPieces_map_piece (ts : List Token) :
    (textOfPieces (ts.map Token.piece)).length = sizeOfTokens ts := by
  induction ts with
  | nil => rfl
  | cons t ts ih => simp [ih, sizeOfTokens, Token.piece, String.length_toList]

/-- Tokens may be bracketed in two parts. -/
theorem Brackets.append {a : Nat} {ts us : List Token} {ms ns : List (Nat × TraceEvent)}
    (h : Brackets a ts ms) (h' : Brackets (a + sizeOfTokens ts) us ns) :
    Brackets a (ts ++ us) (ms ++ ns) := by
  induction h with
  | nil a => simpa [sizeOfTokens] using h'
  | cons hn hm _ ih =>
    refine .cons hn hm (ih ?_)
    simpa [sizeOfTokens, Nat.add_assoc] using h'

theorem marks_append (n : Nat) (es fs : List TraceEvent) :
    marks n (es ++ fs) =
      marks n es ++ marks (n + (es.filterMap TraceEvent.read?).length) fs := by
  induction es generalizing n with
  | nil => simp [marks]
  | cons e es ih =>
    cases e <;>
      simp [marks, ih, List.filterMap_cons, TraceEvent.read?, Nat.add_assoc, Nat.add_comm 1]

/-- Reports without characters are all made at the same time. -/
theorem marks_eq_map {es : List TraceEvent} (h : ∀ e ∈ es, e.read? = none) (n : Nat) :
    marks n es = es.map (n, ·) := by
  induction es with
  | nil => rfl
  | cons e es ih =>
    have hrest := ih fun e' he' => h e' (by simp [he'])
    cases e with
    | charRead c p => simpa [TraceEvent.read?] using h _ List.mem_cons_self
    | tokenStart _ _ | tokenEnd _ _ _ => simp [marks, hrest]

/-- Marks that are all of an open piece, which begins with character `a` of the input. -/
structure Pending (a : Nat) (p : Phase) (ms : List (Nat × TraceEvent)) : Prop where
  events : ms.map Prod.snd = p.opened
  count : ∀ m ∈ ms, m.1 = a + 1 ∨ m.1 = a + 2

/-- A beginning that has been reported is the only mark. -/
theorem Pending.eq_singleton {a : Nat} {p : Phase} {ms : List (Nat × TraceEvent)}
    (h : Pending a p ms) {e : TraceEvent} (ho : p.opened = [e]) : ∃ m, ms = [(m, e)] := by
  have hevents := h.events
  rw [ho] at hevents
  obtain ⟨⟨m, e'⟩, rfl, rfl⟩ := List.map_eq_singleton_iff.mp hevents
  exact ⟨m, rfl⟩

namespace Phase

theorem opened_eq_nil {p : Phase} (h : p.piece = none) : p.opened = [] := by
  cases p with
  | between => rfl
  | blanks _ _ | slash _ | block _ _ | line _ _ | string _ _ _ => cases h

/-- At most one beginning is reported of an open piece. -/
theorem opened_eq_nil_of_append {p q : Phase} {T : List TraceEvent} (h : p.opened ++ T = q.opened)
    (hT : T ≠ []) : p.opened = [] := by
  have hq : q.opened.length ≤ 1 := by cases q <;> simp [opened, draft]
  have hpos := List.length_pos_of_ne_nil hT
  rw [← h, List.length_append] at hq
  exact List.length_eq_zero_iff.mp (by omega)

variable {here : Position} {c : Char} {p q : Phase} {T : List TraceEvent} {a : Nat}
  {ms : List (Nat × TraceEvent)}

/-- A character where nothing is open is a token, or begins what is open after it. -/
theorem Begins.exists_brackets (h : Begins here c T q) (a : Nat) :
    ∃ ms ns, T.map (a + 1, ·) = ms ++ ns ∧ Brackets a (T.filterMap TraceEvent.token?) ms ∧
      Pending (a + sizeOfTokens (T.filterMap TraceEvent.token?)) q ns := by
  cases h with
  | opens hq =>
    refine ⟨[], q.opened.map (a + 1, ·), rfl, ?_, ?_, ?_⟩
    · rw [filterMap_token?_opened]
      exact .nil a
    · rw [List.map_map]
      exact List.map_id _
    · intro m hm
      obtain ⟨e, -, rfl⟩ := List.mem_map.mp hm
      simp [filterMap_token?_opened, sizeOfTokens]
  | single =>
    refine ⟨_, [], (List.append_nil _).symm, ?_, rfl, by simp⟩
    exact .cons (.inl rfl) (.inl (by simp)) (.nil _)

/-- What was reported of an open piece and what is reported of its end are the marks of its token.
-/
theorem Ends.brackets (h : Ends p T) (hms : Pending a p ms) {n : Nat}
    (hn : n = a + (textOfPieces p.piece.toList).length ∨
      n = a + (textOfPieces p.piece.toList).length + 1) :
    Brackets a (T.filterMap TraceEvent.token?) (ms ++ T.map (n, ·)) := by
  obtain ⟨kind, hp, hT⟩ := h
  rename_i piece T
  have hend : n = a + (String.ofList piece.text).length ∨
      n = a + (String.ofList piece.text).length + 1 := by
    simpa [hp] using hn
  rcases List.append_eq_singleton_iff.mp hT with ⟨ho, rfl⟩ | ⟨ho, rfl⟩
  · have hsize := length_of_opened_eq_nil hp ho
    have hnone : ms = [] := by simpa [ho] using hms.events
    subst hnone
    refine .cons ?_ hend (.nil _)
    simpa [hsize] using hend
  · obtain ⟨m, rfl⟩ := hms.eq_singleton ho
    exact .cons (hms.count _ List.mem_cons_self) hend (.nil _)

/-- A character closes the marks of the tokens that it completes; those of what is open after it
stay. -/
theorem Reads.exists_brackets (h : Reads here c p T q) (hms : Pending a p ms) {n : Nat}
    (hn : n = a + (textOfPieces p.piece.toList).length + 1) :
    ∃ ms' ns, ms ++ T.map (n, ·) = ms' ++ ns ∧
      Brackets a (T.filterMap TraceEvent.token?) ms' ∧
      Pending (a + sizeOfTokens (T.filterMap TraceEvent.token?)) q ns := by
  cases h with
  | begins hp h =>
    have hnone : ms = [] := by simpa [opened_eq_nil hp] using hms.events
    have hcount : n = a + 1 := by simpa [hp] using hn
    subst hnone hcount
    exact h.exists_brackets a
  | @continues T q piece hp hq hT =>
    have htokens : T.filterMap TraceEvent.token? = [] := by
      have hboth := congrArg (List.filterMap TraceEvent.token?) hT
      simpa [filterMap_token?_opened] using hboth
    rw [htokens]
    refine ⟨[], ms ++ T.map (n, ·), rfl, .nil a, ?_, ?_⟩
    · rw [List.map_append, hms.events, List.map_map, ← hT]
      congr 1
      exact List.map_id _
    · intro m hm
      rcases List.mem_append.mp hm with hm | hm
      · exact hms.count m hm
      · -- Only a slash goes on to something of which a beginning is still to be reported.
        obtain ⟨e, he, rfl⟩ := List.mem_map.mp hm
        have hnone := opened_eq_nil_of_append hT (List.ne_nil_of_mem he)
        have hsize := length_of_opened_eq_nil hp hnone
        right
        simpa [hp, hsize, sizeOfTokens] using hn
  | @completes kind piece hp ho =>
    obtain ⟨m, rfl⟩ := hms.eq_singleton ho
    refine ⟨_, [], (List.append_nil _).symm, ?_, rfl, by simp⟩
    refine .cons (hms.count _ List.mem_cons_self) (.inl ?_) (.nil _)
    simpa [hp, Nat.add_assoc] using hn
  | @precedes E T q hE h =>
    have hsize : a + sizeOfTokens (E.filterMap TraceEvent.token?) + 1 = n := by
      rw [← length_textOfPieces_map_piece, hE.token_eq, hn]
    obtain ⟨ms', ns, hmarks, hbrackets, hpending⟩ :=
      h.exists_brackets (a + sizeOfTokens (E.filterMap TraceEvent.token?))
    rw [hsize] at hmarks
    refine ⟨ms ++ E.map (n, ·) ++ ms', ns, ?_, ?_, ?_⟩
    · rw [List.map_append, hmarks, List.append_assoc, List.append_assoc]
    · rw [List.filterMap_append]
      exact (hE.brackets hms (.inr hn)).append hbrackets
    · rwa [List.filterMap_append, sizeOfTokens_append, ← Nat.add_assoc]

end Phase

namespace Progress

/-- The number of characters of the open piece. -/
def size (x : Progress) : Nat :=
  (textOfPieces x.pieces).length

/-- A step adds one character to the tokens and what is open. -/
theorem size_step (x : Progress) (c : Char) :
    sizeOfTokens (tokensOf (x.step c).1) + (x.step c).2.size = x.size + 1 := by
  have hmade := (Phase.reads_read c x.phase (x.tracker.place c)).made_eq
  rw [← made_step] at hmade
  rw [← length_textOfPieces_map_piece, size, ← List.length_append, ← textOfPieces_append, size]
  rcases hmade with hmade | ⟨piece, hp, hmade⟩
  · rw [hmade, textOfPieces_append, List.length_append]
    rfl
  · rw [hmade]
    simp [pieces, hp]

variable {a : Nat} {x : Progress} {ms : List (Nat × TraceEvent)}

/-- A step closes the marks of the tokens that it completes. -/
theorem exists_brackets_step (x : Progress) (hms : Pending a x.phase ms) (c : Char) :
    ∃ ms' ns, ms ++ marks (a + x.size) (traceOf (x.step c).1) = ms' ++ ns ∧
      Brackets a (tokensOf (x.step c).1) ms' ∧
      Pending (a + sizeOfTokens (tokensOf (x.step c).1)) (x.step c).2.phase ns := by
  have hreads := Phase.reads_read c x.phase (x.tracker.place c)
  have hmarks : marks (a + x.size) (traceOf (x.step c).1) =
      (traceOf (x.phase.read (x.tracker.place c) c).1).map (a + x.size + 1, ·) := by
    rw [traceOf_step, marks, marks_eq_map hreads.read?_eq_none]
  have htokens : tokensOf (x.step c).1 =
      (traceOf (x.phase.read (x.tracker.place c) c).1).filterMap TraceEvent.token? := by
    rw [← filterMap_token?_traceOf, traceOf_step]
    rfl
  rw [hmarks, htokens]
  exact hreads.exists_brackets hms rfl

/-- A run closes the marks of the tokens that it completes. -/
theorem exists_brackets_run (x : Progress) (hms : Pending a x.phase ms) (cs : List Char) :
    ∃ ms' ns, ms ++ marks (a + x.size) (traceOf (x.run cs).1) = ms' ++ ns ∧
      Brackets a (tokensOf (x.run cs).1) ms' ∧
      Pending (a + sizeOfTokens (tokensOf (x.run cs).1)) (x.run cs).2.phase ns := by
  induction cs generalizing a x ms with
  | nil => exact ⟨[], ms, by simp [marks], .nil a, by simpa [sizeOfTokens] using hms⟩
  | cons c cs ih =>
    obtain ⟨ms₁, ns₁, hmarks₁, hbrackets₁, hpending₁⟩ := x.exists_brackets_step hms c
    obtain ⟨ms₂, ns₂, hmarks₂, hbrackets₂, hpending₂⟩ := ih _ hpending₁
    refine ⟨ms₁ ++ ms₂, ns₂, ?_, ?_, ?_⟩
    · have hread : ((traceOf (x.step c).1).filterMap TraceEvent.read?).length = 1 := by
        have hrun := x.reads_run [c]
        rw [run_cons, run_nil, List.append_nil] at hrun
        rw [hrun]
        rfl
      have hcount : a + x.size + 1 =
          a + sizeOfTokens (tokensOf (x.step c).1) + (x.step c).2.size := by
        rw [Nat.add_assoc, ← x.size_step c, Nat.add_assoc]
      rw [run_cons, traceOf_append, marks_append, hread, hcount, ← List.append_assoc, hmarks₁,
        List.append_assoc, hmarks₂, List.append_assoc]
    · rw [run_cons, tokensOf_append]
      exact hbrackets₁.append hbrackets₂
    · rw [run_cons, tokensOf_append, sizeOfTokens_append, ← Nat.add_assoc]
      exact hpending₂

/-- The end of the input ends the open piece. -/
theorem ends_flush (x : Progress) :
    x.phase.piece = none ∧ traceOf x.flush = [] ∨ x.phase.Ends (traceOf x.flush) := by
  obtain ⟨tracker, phase⟩ := x
  cases phase with
  | between => exact .inl ⟨rfl, rfl⟩
  | blanks start text =>
    exact .inr (.intro .whitespace (p := .blanks start text) (T := []) rfl rfl)
  | slash start => exact .inr (.intro .slash (p := .slash start) (T := [_]) rfl rfl)
  | block start body =>
    exact .inr (.intro .multiLineComment (p := .block start body) (T := []) rfl rfl)
  | line start body =>
    exact .inr (.intro .singleLineComment (p := .line start body) (T := []) rfl rfl)
  | string quote start body =>
    exact .inr (.intro (.string quote) (p := .string quote start body) (T := []) rfl rfl)

/-- The end of the input closes all marks. -/
theorem brackets_flush (x : Progress) (hms : Pending a x.phase ms) :
    Brackets a (tokensOf x.flush) (ms ++ marks (a + x.size) (traceOf x.flush)) := by
  rw [← filterMap_token?_traceOf]
  rcases x.ends_flush with ⟨hp, hT⟩ | hends
  · have hnone : ms = [] := by simpa [Phase.opened_eq_nil hp] using hms.events
    rw [hT, hnone]
    exact .nil a
  · rw [marks_eq_map hends.read?_eq_none]
    exact hends.brackets hms (.inl rfl)

/-- The tokens of a text and what it leaves open have as many characters as the text. -/
theorem size_run_start (cs : List Char) :
    sizeOfTokens (tokensOf (start.run cs).1) + (start.run cs).2.size = cs.length := by
  obtain ⟨-, htext⟩ := anchored_start.laid_run cs
  have hlength := congrArg List.length htext
  rw [textOfPieces_append, List.length_append, length_textOfPieces_map_piece] at hlength
  exact hlength

/-- The marks of a complete text are those of its tokens. -/
theorem brackets_lex (cs : List Char) :
    Brackets 0 (start.lex cs) (marks 0 (traceOf ((start.run cs).1 ++ (start.run cs).2.flush))) := by
  have hstart : Pending 0 start.phase [] := ⟨rfl, by simp⟩
  obtain ⟨ms, ns, hmarks, hbrackets, hpending⟩ := start.exists_brackets_run hstart cs
  have hread : ((traceOf (start.run cs).1).filterMap TraceEvent.read?).length = cs.length := by
    rw [reads_run]
    simp
  have hflush := (start.run cs).2.brackets_flush hpending
  rw [Nat.zero_add, size_run_start] at hflush
  have hall : marks 0 (traceOf ((start.run cs).1 ++ (start.run cs).2.flush)) =
      ms ++ (ns ++ marks cs.length (traceOf (start.run cs).2.flush)) := by
    rw [traceOf_append, marks_append, hread, Nat.zero_add, ← List.append_assoc, ← hmarks]
    rfl
  rw [hall, lex]
  refine hbrackets.append ?_
  rw [Nat.zero_add]
  exact hflush

end Progress

/-- The chunks of a text in order, and the end of the input. -/
def feeds (chunks : List String) : List Operation :=
  chunks.map .feed ++ [.finish]

theorem isInput_of_mem_feeds (chunks : List String) : ∀ op ∈ feeds chunks, op.isInput := by
  refine List.forall_mem_append.mpr ?_
  constructor
  · exact List.forall_mem_map.mpr fun _ _ => rfl
  · exact List.forall_mem_singleton.mpr rfl

/-- What has been given is the text that the chunks make up. -/
theorem takeAll_feeds {r : Intake} (hopen : r.ended = false) (hblock : r.block = [])
    (chunks : List String) :
    r.takeAll (feeds chunks) = ⟨r.text ++ (String.join chunks).toList, [], true⟩ := by
  induction chunks generalizing r with
  | nil => simp [feeds, Intake.takeAll, Intake.take, hopen, hblock]
  | cons chunk chunks ih =>
    have hrest : r.takeAll (feeds (chunk :: chunks)) =
        (r.take (.feed chunk)).takeAll (feeds chunks) := rfl
    rw [hrest, Intake.take_feed hopen hblock, ih rfl rfl]
    simp

/-- The events of a complete text. -/
theorem Intake.events_of_complete (text : List Char) :
    Intake.events ⟨text, [], true⟩ =
      (Progress.start.run text).1 ++ (Progress.start.run text).2.flush := by
  simp [Intake.events, Intake.decoded]

/-- Whatever the chunks of a text are, a hook that is set first sees the characters of the text in
order, each at its position, and among them the beginning and the end of each token, one token after
the other and with one character of lookahead at most. -/
theorem trace_brackets_tokens {σ : Type} (logger : Log.Logger σ) (traceChars : Bool)
    (chunks : List String) :
    let s := (Session.new logger traceChars true).1
    let traceOfChunks (chunks : List String) :=
      (s.performAll (feeds chunks)).2.flatMap Outcome.trace
    let text := String.join chunks
    let trace := traceOfChunks chunks
    (∀ others, String.join others = text → traceOfChunks others = trace) ∧
      trace.filterMap TraceEvent.read? =
        text.toList.zip ((Tracker.start.placements text.toList).map Placement.position) ∧
      ∃ ts, tokenize text = .ok ts ∧ Brackets 0 ts (marks 0 trace) := by
  intro s traceOfChunks text trace
  have htrace (chunks : List String) : traceOfChunks chunks =
      traceOf (Intake.events ⟨(String.join chunks).toList, [], true⟩) := by
    obtain ⟨-, hseen, -⟩ := s.performAll_of_isInput (isInput_of_mem_feeds chunks)
    have htake : Intake.start.takeAll (feeds chunks) = ⟨(String.join chunks).toList, [], true⟩ :=
      takeAll_feeds rfl rfl chunks
    rw [← htake, ← traceOf_reportedAll_new]
    exact hseen
  refine ⟨?_, ?_, ?_⟩
  · intro others hothers
    rw [htrace, hothers]
    exact (htrace chunks).symm
  · have hreads := Intake.reads_events ⟨text.toList, [], true⟩
    rw [← htrace chunks] at hreads
    simpa [Intake.decoded] using hreads
  · refine ⟨_, tokenize_eq_lex text, ?_⟩
    have hbrackets := Progress.brackets_lex text.toList
    rw [← Intake.events_of_complete, ← htrace chunks] at hbrackets
    exact hbrackets

end StyleScan
