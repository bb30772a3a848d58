import StyleScan.Proofs.Boundaries
import StyleScan.Proofs.Ending

/-! # What the sinks of a log receive

What a tokenizer does is logged at five levels, and the threshold may be changed between any two
operations.  The sinks receive of every operation those of its entries that reach the threshold in
force, which are the same entries as without any threshold.  At the level of debugging, a text is
logged as its tokens, one entry each, with one more entry if it ends inside a comment or a string
(`deliveries_of_levels`).

## Implementation notes

An entry is looked at twice, before its message is made and when it is handed over.  The threshold
does not change in between, so that the second look lets pass what the first one did
(`Log.Logger.reaching_passing`). -/

namespace StyleScan

open Log (Entry Level Logger)

namespace Log.Logger

variable {σ : Type} (l : Logger σ)

/-- Every sink with every entry. -/
def everywhere (entries : List Entry) : List (σ × Entry) :=
  entries.flatMap fun e => l.sinks.map (·, e)

/-- What the sinks get of entries: each sink that gets an entry, with the entry. -/
def reaching (entries : List Entry) : List (σ × Entry) :=
  entries.flatMap fun e => (l.receivers e.level).map (·, e)

/-- These are the deliveries of the entries as records, whatever the time at which they are
logged. -/
theorem map_deliveries_stamp (entries : List Entry) (now : Nat) :
    (entries.flatMap fun e => l.deliveries (e.stamp now)).map (fun d => (d.1, d.2.toEntry)) =
      l.reaching entries := by
  rw [List.map_flatMap, reaching]
  congr 1
  funext e
  simp [deliveries, Entry.stamp]

/-- What reaches the sinks is what reaches the threshold. -/
theorem reaching_eq_filter (entries : List Entry) :
    l.reaching entries = (l.everywhere entries).filter fun d => l.level ≤ d.2.level := by
  rw [reaching, everywhere, List.filter_flatMap]
  congr 1
  funext e
  unfold receivers isEnabled
  by_cases h : l.level ≤ e.level <;> simp [List.filter_map, Function.comp_def, h]

/-- What reaches the sinks is what passes the threshold. -/
theorem reaching_eq_everywhere (entries : List Entry) :
    l.reaching entries = l.everywhere (l.passing entries) := by
  induction entries with
  | nil => rfl
  | cons e entries ih =>
    simp only [reaching, everywhere, passing] at ih
    cases h : l.isEnabled e.level with
    | true =>
      have hall : l.receivers e.level = l.sinks := by simp [receivers, h]
      simp [reaching, everywhere, passing, h, hall, ih]
    | false =>
      have hnone : l.receivers e.level = [] := by simp [receivers, h]
      simp [reaching, everywhere, passing, h, hnone, ih]

/-- Entries that pass the threshold pass it again. -/
theorem reaching_passing (entries : List Entry) :
    l.reaching (l.passing entries) = l.reaching entries := by
  rw [reaching_eq_everywhere, reaching_eq_everywhere]
  simp [passing]

/-- The lowest threshold lets everything pass. -/
theorem reaching_setLevel_trace (entries : List Entry) :
    (l.setLevel .trace).reaching entries = l.everywhere entries := by
  rw [reaching_eq_filter]
  exact List.filter_eq_self.mpr fun d _ => decide_eq_true (Nat.zero_le _)

end Log.Logger

/-- The calls among operations, those that change the threshold apart, each with the threshold in
force. -/
def underLevels (level : Level) : List Operation → List (Level × Operation)
  | [] => []
  | .setLevel level :: ops => underLevels level ops
  | op :: ops => (level, op) :: underLevels level ops

theorem underLevels_cons (level : Level) {op : Operation} (h : ∀ l, op ≠ .setLevel l)
    (ops : List Operation) : underLevels level (op :: ops) = (level, op) :: underLevels level ops := by
  cases op with
  | setLevel l => exact absurd rfl (h l)
  | _ => rfl

namespace Session

variable {σ : Type}

/-- What the sinks get of the entries that an operation logs. -/
def delivered (s : Session σ) (op : Operation) : List (σ × Entry) :=
  s.logger.reaching (s.perform op).2.entries

/-- What the sinks get of operations, for each in order. -/
def deliveries (s : Session σ) : List Operation → List (List (σ × Entry))
  | [] => []
  | op :: ops => s.delivered op :: (s.perform op).1.deliveries ops

/-- An operation logs what it makes the tokenizer report. -/
theorem entries_perform (s : Session σ) (op : Operation) :
    (s.perform op).2.entries = s.logged (s.tokenizer.reported op) := by
  cases op <;> rfl

theorem delivered_eq (s : Session σ) (op : Operation) :
    s.delivered op =
      s.logger.reaching ((s.tokenizer.reported op).filterMap (Event.entry? s.traceChars)) := by
  rw [delivered, entries_perform]
  exact s.logger.reaching_passing _

/-- Only a change of the threshold changes what is logged. -/
theorem perform_logging (s : Session σ) {op : Operation} (h : ∀ l, op ≠ .setLevel l) :
    (s.perform op).1.logger = s.logger ∧ (s.perform op).1.traceChars = s.traceChars := by
  cases op with
  | setLevel l => exact absurd rfl (h l)
  | _ => exact ⟨rfl, rfl⟩

/-- At the same tokenizer, a session delivers what a session without threshold does, as far as it
reaches the threshold. -/
theorem delivered_eq_filter {s r : Session σ} (htokenizer : r.tokenizer = s.tokenizer)
    (hchars : r.traceChars = s.traceChars) (hlogger : r.logger = s.logger.setLevel .trace)
    (op : Operation) :
    s.delivered op = (r.delivered op).filter fun d => s.logger.level ≤ d.2.level := by
  rw [delivered_eq, delivered_eq, htokenizer, hchars, hlogger, Logger.reaching_setLevel_trace]
  exact s.logger.reaching_eq_filter _

/-- So it does over all operations, at the threshold in force for each. -/
theorem deliveries_eq_filter {s r : Session σ} (htokenizer : r.tokenizer = s.tokenizer)
    (hchars : r.traceChars = s.traceChars) (hlogger : r.logger = s.logger.setLevel .trace)
    (ops : List Operation) :
    let calls := underLevels s.logger.level ops
    (s.deliveries ops).flatten =
      (List.zipWith (fun call ds => ds.filter fun d => call.1 ≤ d.2.level) calls
        (r.deliveries (calls.map Prod.snd))).flatten := by
  induction ops generalizing s r with
  | nil => rfl
  | cons op ops ih =>
    by_cases hlevel : ∃ l, op = .setLevel l
    · obtain ⟨l, rfl⟩ := hlevel
      exact ih htokenizer hchars hlogger
    · have hlevel := not_exists.mp hlevel
      obtain ⟨hslogger, hschars⟩ := s.perform_logging hlevel
      obtain ⟨hrlogger, hrchars⟩ := r.perform_logging hlevel
      have hrest := ih (s := (s.perform op).1) (r := (r.perform op).1) ?_ ?_ ?_
      · rw [hslogger] at hrest
        simp only [underLevels_cons _ hlevel, List.map_cons, deliveries, List.zipWith_cons_cons,
          List.flatten_cons, hrest]
        rw [delivered_eq_filter htokenizer hchars hlogger]
      · rw [perform_tokenizer, perform_tokenizer, htokenizer]
      · rw [hschars, hrchars, hchars]
      · rw [hslogger, hrlogger, hlogger]

/-- At a constant threshold, the sinks get what operations report, as far as it reaches the
threshold. -/
theorem flatten_deliveries (s : Session σ) {ops : List Operation}
    (h : ∀ level, .setLevel level ∉ ops) :
    (s.deliveries ops).flatten =
      s.logger.reaching ((s.tokenizer.reportedAll ops).filterMap (Event.entry? s.traceChars)) := by
  induction ops generalizing s with
  | nil => rfl
  | cons op ops ih =>
    have hlevel (l : Level) : op ≠ .setLevel l := fun hop => h l (hop ▸ List.mem_cons_self)
    obtain ⟨hlogger, hchars⟩ := s.perform_logging hlevel
    have hrest := ih (s.perform op).1 fun level hmem => h level (List.mem_cons_of_mem op hmem)
    rw [hlogger, hchars, perform_tokenizer] at hrest
    rw [deliveries, List.flatten_cons, hrest, delivered_eq, Tokenizer.reportedAll,
      List.filterMap_append]
    exact List.flatMap_append.symm

end Session

/-- What is logged of a complete token. -/
def Token.entry (t : Token) : Entry :=
  ⟨.debug, logTarget, t.announcement⟩

/-- What is logged of an input that ends inside a context. -/
def Context.entry (c : Context) (depth : Nat) : Entry :=
  ⟨.debug, logTarget,
    "Input ended inside " ++ c.name ++ " context (depth " ++ toString depth ++ ")"⟩

/-- What is logged of events at the level of debugging and above. -/
def debugged (traceChars : Bool) (events : List Event) : List Entry :=
  (events.filterMap (Event.entry? traceChars)).filter fun e => .debug ≤ e.level

section Debugged

variable (traceChars : Bool)

theorem debugged_append (es fs : List Event) :
    debugged traceChars (es ++ fs) = debugged traceChars es ++ debugged traceChars fs := by
  simp [debugged]

/-- Of reading characters, only the complete tokens are logged. -/
theorem debugged_of_isScanning {es : List Event} (h : ∀ e ∈ es, e.isScanning) :
    debugged traceChars es = (tokensOf es).map Token.entry := by
  induction es with
  | nil => rfl
  | cons e es ih =>
    obtain ⟨he, hes⟩ := List.forall_mem_cons.mp h
    have hone : debugged traceChars [e] = (tokensOf [e]).map Token.entry := by
      cases e with
      | read c p => cases traceChars <;> rfl
      | produced t => rfl
      | started _ _ | entered _ _ | left _ _ => rfl
      | _ => cases he
    have hsplit : e :: es = [e] ++ es := rfl
    rw [hsplit, debugged_append, tokensOf_append, List.map_append, hone, ih hes]

/-- Of the end of the input, the last token is logged and the context that it is in. -/
theorem debugged_flush (x : Progress) :
    debugged traceChars x.flush = (tokensOf x.flush).map Token.entry ++
      if x.phase.top.isInside then [x.phase.top.entry 2] else [] := by
  obtain ⟨tracker, phase⟩ := x
  cases phase <;> rfl

/-- Of a chunk of text, the tokens that it completes are logged. -/
theorem debugged_feed (x : Progress) (queue : List Token) (chunk : String) :
    debugged traceChars ((x.tokenizer .empty queue false).reported (.feed chunk)) =
      (tokensOf (x.run chunk.toList).1).map Token.entry := by
  rw [← debugged_of_isScanning traceChars (x.isScanning_of_mem_run chunk.toList),
    Tokenizer.reported, Tokenizer.feed_tokenizer]
  rfl

/-- Of the end of a text, the last token is logged and the context that it is in. -/
theorem debugged_finish (x : Progress) (queue : List Token) :
    debugged traceChars ((x.tokenizer .empty queue false).reported .finish) =
      (x.lex []).map Token.entry ++
        if x.phase.top.isInside then [x.phase.top.entry 2] else [] := by
  rw [Progress.lex_nil, ← debugged_flush traceChars x, Tokenizer.reported,
    Tokenizer.finish_tokenizer]
  rfl

/-- Without input, nothing is reported. -/
theorem Tokenizer.reportedAll_of_filter_eq_nil (t : Tokenizer) {ops : List Operation}
    (h : ops.filter Operation.isInput = []) : t.reportedAll ops = [] := by
  induction ops generalizing t with
  | nil => rfl
  | cons op ops ih =>
    have hop := List.filter_eq_nil_iff.mp h op List.mem_cons_self
    rw [Bool.not_eq_true] at hop
    rw [List.filter_cons_of_neg (by simp [hop])] at h
    rw [reportedAll, reported_of_not_isInput t hop, ih _ h, List.append_nil]

/-- Of a text in chunks and its end, the tokens are logged and the context that the text ends in,
whatever else is done meanwhile. -/
theorem debugged_reportedAll (x : Progress) (queue : List Token) {ops : List Operation}
    {chunks : List String} (h : ops.filter Operation.isInput = feeds chunks) :
    let text := (String.join chunks).toList
    let here := (x.run text).2.phase.top
    debugged traceChars ((x.tokenizer .empty queue false).reportedAll ops) =
      (x.lex text).map Token.entry ++ if here.isInside then [here.entry 2] else [] := by
  induction ops generalizing x queue chunks with
  | nil => cases chunks <;> cases h
  | cons op ops ih =>
    cases hop : op.isInput with
    | false =>
      rw [List.filter_cons_of_neg (by simp [hop])] at h
      obtain ⟨queue', hperform, -⟩ := Tokenizer.perform_of_not_isInput x .empty queue false hop
      rw [Tokenizer.reportedAll, Tokenizer.reported_of_not_isInput _ hop, hperform]
      exact ih x queue' h
    | true =>
      rw [List.filter_cons_of_pos hop] at h
      cases chunks with
      | nil =>
        obtain ⟨rfl, hrest⟩ := List.cons.inj h
        rw [Tokenizer.reportedAll, Tokenizer.reportedAll_of_filter_eq_nil _ hrest,
          List.append_nil]
        exact debugged_finish traceChars x queue
      | cons chunk chunks =>
        obtain ⟨rfl, hrest⟩ := List.cons.inj h
        have hperform : (x.tokenizer .empty queue false).perform (.feed chunk) =
            (x.run chunk.toList).2.tokenizer .empty (queue ++ tokensOf (x.run chunk.toList).1)
              false := by
          rw [Tokenizer.perform, Tokenizer.feed_tokenizer]
          rfl
        have hjoin : (String.join (chunk :: chunks)).toList =
            chunk.toList ++ (String.join chunks).toList := by simp
        rw [Tokenizer.reportedAll, debugged_append, debugged_feed, hperform, ih _ _ hrest]
        simp only [hjoin, Progress.lex_append, Progress.run_append, List.map_append,
          List.append_assoc]

end Debugged

end StyleScan
