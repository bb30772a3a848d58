import StyleScan.Proofs.Reports
import StyleScan.Proofs.Utf8.Encoding

/-! # Encoded text

The encoding of a text is decoded without any replacement, and nothing of it is left over.
However it is cut, also inside a character, the tokenizer therefore does with its pieces what it
does with the text, and it has nothing to warn of (`performAll_encoded`). -/

namespace StyleScan

namespace Event

/-- The event is logged as a warning. -/
def isWarning : Event → Bool
  | .replaced _ _ | .truncated _ | .refused => true
  | _ => false

theorem isWarning_of_isReading {e : Event} (h : e.isReading) : e.isWarning = false := by
  cases e with
  | read _ _ | started _ _ | produced _ | entered _ _ | left _ _ | endedInside _ _ => rfl
  | _ => cases h

/-- The other events are not logged as warnings. -/
theorem level_ne_warn {e : Event} (h : e.isWarning = false) (traceChars : Bool) :
    ∀ entry ∈ Event.entry? traceChars e, entry.level ≠ .warn := by
  intro entry hentry
  obtain ⟨m, hm, rfl⟩ := Option.map_eq_some_iff.mp hentry
  cases e with
  | replaced _ _ | truncated _ | refused => cases h
  | started _ _ => cases hm
  | read c p =>
    cases traceChars with
    | true =>
      cases hm
      exact Log.Level.noConfusion
    | false => cases hm
  | _ =>
    cases hm
    exact Log.Level.noConfusion

end Event

namespace Session

variable {σ : Type} (s : Session σ)

theorem seen_eq_of_traceOf_eq {es fs : List Event} (h : traceOf es = traceOf fs) :
    s.seen es = s.seen fs := by
  unfold seen
  exact congrArg (if s.hooked then · else []) h

/-- Without a warning among the events, none passes the logger. -/
theorem level_ne_warn_of_mem_logged {es : List Event} (h : ∀ e ∈ es, e.isWarning = false) :
    ∀ entry ∈ s.logged es, entry.level ≠ .warn := by
  intro entry hentry
  obtain ⟨e, he, hlogged⟩ := List.mem_filterMap.mp (List.mem_of_mem_filter hentry)
  exact Event.level_ne_warn (h e he) s.traceChars entry hlogged

end Session

namespace Intake

/-- The chunks of raw bytes. -/
theorem takeAll_feedBytes {r : Intake} (hopen : r.ended = false) (chunks : List (List UInt8)) :
    r.takeAll (chunks.map .feedBytes) = { r with block := r.block ++ chunks.flatten } := by
  induction chunks generalizing r with
  | nil => simp [takeAll]
  | cons chunk chunks ih =>
    have htake : r.take (.feedBytes chunk) = { text := r.text, block := r.block ++ chunk } := by
      simp [take, hopen]
    have hrest : r.takeAll ((chunk :: chunks).map .feedBytes) =
        (r.take (.feedBytes chunk)).takeAll (chunks.map .feedBytes) := rfl
    rw [hrest, htake, ih rfl]
    simp [hopen]

/-- Encoded characters are as good as the characters. -/
theorem tokenizer_encode (cs : List Char) :
    let bytes : Intake := ⟨[], Utf8.encode cs, false⟩
    let text : Intake := ⟨cs, [], false⟩
    bytes.tokenizer bytes.tokens = text.tokenizer text.tokens ∧ bytes.events = text.events := by
  refine tokenizer_congr ?_ rfl ?_
  · simp [decoded, Utf8.settled_encode]
  · simp [Utf8.split_encode]

/-- There is nothing to warn of in a piece without invalid bytes. -/
theorem isWarning_of_mem_feedBytes {r : Intake} (hopen : r.ended = false) (queue : List Token)
    {chunk : List UInt8}
    (h : Utf8.invalidCount (Utf8.Decoder.decode ⟨(Utf8.split r.block).2⟩ chunk).1 = 0) :
    ∀ e ∈ (r.tokenizer queue).reported (.feedBytes chunk), e.isWarning = false := by
  have hnone (here : Position) : Tokenizer.replacedEvents
      (Utf8.Decoder.decode ⟨(Utf8.split r.block).2⟩ chunk).1 here = [] := by
    simp [Tokenizer.replacedEvents, h]
  intro e he
  rw [Tokenizer.reported, tokenizer, hopen, Tokenizer.feedBytes_tokenizer] at he
  simp only [hnone, List.nil_append] at he
  rcases List.mem_cons.mp he with rfl | he
  · rfl
  · exact Event.isWarning_of_isReading (Progress.isReading_of_mem_run _ _ e he)

/-- Nor at the end of the input if no bytes are held back. -/
theorem isWarning_of_mem_finish {r : Intake} (hopen : r.ended = false) (queue : List Token)
    (h : (Utf8.split r.block).2 = []) :
    ∀ e ∈ (r.tokenizer queue).reported .finish, e.isWarning = false := by
  intro e he
  rw [Tokenizer.reported, tokenizer, hopen, h, Tokenizer.finish_tokenizer] at he
  rcases List.mem_cons.mp he with rfl | he
  · rfl
  · rcases List.mem_append.mp he with he | he
    · cases he
    · rcases List.mem_append.mp he with he | he
      · exact Event.isWarning_of_isReading (Progress.isReading_of_mem_run _ _ e he)
      · exact Event.isWarning_of_isReading (Progress.isReading_of_mem_flush _ e he)

/-- There is nothing to warn of in the pieces of an encoding, up to the end of the input. -/
theorem isWarning_of_mem_reportedAll {r : Intake} (hopen : r.ended = false)
    {chunks : List (List UInt8)} {cs : List Char} (h : r.block ++ chunks.flatten = Utf8.encode cs)
    (queue : List Token) :
    ∀ e ∈ (r.tokenizer queue).reportedAll (chunks.map .feedBytes ++ [.finish]),
      e.isWarning = false := by
  induction chunks generalizing r queue with
  | nil =>
    have htail : (Utf8.split r.block).2 = [] := by
      rw [List.flatten_nil, List.append_nil] at h
      rw [h, Utf8.split_encode]
    intro e he
    rcases List.mem_append.mp he with he | he
    · exact isWarning_of_mem_finish hopen queue htail e he
    · cases he
  | cons chunk chunks ih =>
    rw [List.flatten_cons, ← List.append_assoc] at h
    have hvalid := Utf8.invalidCount_decode ⟨_, h⟩
    obtain ⟨queue', hperform⟩ := exists_queue_perform r queue (.feedBytes chunk)
    intro e he
    rcases List.mem_append.mp he with he | he
    · exact isWarning_of_mem_feedBytes hopen queue hvalid e he
    · rw [hperform] at he
      refine ih ?_ ?_ queue' e he
      · simp [take, hopen]
      · simpa [take, hopen] using h

end Intake

theorem isInput_of_mem_feedBytes (chunks : List (List UInt8)) :
    ∀ op ∈ chunks.map Operation.feedBytes, op.isInput :=
  List.forall_mem_map.mpr fun _ _ => rfl

namespace Session

variable {σ : Type} (s : Session σ)

/-- Fed to a new tokenizer, only the bytes that the chunks make up matter. -/
theorem performAll_feedBytes_tokenizer (hnew : s.tokenizer = .new) (chunks : List (List UInt8)) :
    let r : Intake := ⟨[], chunks.flatten, false⟩
    (s.performAll (chunks.map .feedBytes)).1.tokenizer = r.tokenizer r.tokens := by
  intro r
  have htake : Intake.start.takeAll (chunks.map .feedBytes) = r :=
    Intake.takeAll_feedBytes rfl chunks
  rw [performAll_tokenizer, hnew, ← htake]
  exact Tokenizer.performAll_new_of_isInput (isInput_of_mem_feedBytes chunks)

/-- A new tokenizer makes of the pieces of encoded characters what it makes of the characters. -/
theorem performAll_feedBytes_eq_feed (hnew : s.tokenizer = .new) {chunks : List (List UInt8)}
    {text : String} (h : chunks.flatten = Utf8.encode text.toList) :
    (s.performAll (chunks.map .feedBytes)).1.tokenizer =
        (s.perform (.feed text)).1.tokenizer ∧
      (s.performAll (chunks.map .feedBytes)).2.flatMap Outcome.trace =
        (s.perform (.feed text)).2.trace := by
  have hfeed : ∀ op ∈ [Operation.feed text], op.isInput := List.forall_mem_singleton.mpr rfl
  have hbytes : Intake.start.takeAll (chunks.map .feedBytes) = ⟨[], chunks.flatten, false⟩ :=
    Intake.takeAll_feedBytes rfl chunks
  have htext : Intake.start.takeAll [.feed text] = ⟨text.toList, [], false⟩ :=
    Intake.take_feed (r := .start) rfl rfl text
  obtain ⟨htokenizer, hevents⟩ := Intake.tokenizer_encode text.toList
  constructor
  · rw [s.performAll_feedBytes_tokenizer hnew, h, htokenizer, ← htext,
      ← Tokenizer.performAll_new_of_isInput hfeed, ← hnew]
    exact (s.perform_tokenizer (.feed text)).symm
  · have htrace : traceOf (Tokenizer.new.reportedAll (chunks.map .feedBytes)) =
        traceOf (Tokenizer.new.reportedAll [.feed text]) := by
      rw [traceOf_reportedAll_new, traceOf_reportedAll_new, hbytes, htext, h, hevents]
    have hwhole := (s.perform_of_isInput (hfeed _ List.mem_cons_self)).2.1
    rw [(s.performAll_of_isInput (isInput_of_mem_feedBytes chunks)).2.1, hwhole, hnew]
    refine s.seen_eq_of_traceOf_eq ?_
    simpa [Tokenizer.reportedAll] using htrace

/-- Nothing is logged as a warning of the pieces of encoded characters and the end of the input. -/
theorem level_ne_warn_of_feedBytes (hnew : s.tokenizer = .new) {chunks : List (List UInt8)}
    {cs : List Char} (h : chunks.flatten = Utf8.encode cs) :
    ∀ entry ∈ (s.performAll (chunks.map .feedBytes ++ [.finish])).2.flatMap Outcome.entries,
      entry.level ≠ .warn := by
  have hinput : ∀ op ∈ chunks.map Operation.feedBytes ++ [.finish], op.isInput :=
    List.forall_mem_append.mpr ⟨isInput_of_mem_feedBytes chunks, List.forall_mem_singleton.mpr rfl⟩
  have hblock : Intake.start.block ++ chunks.flatten = Utf8.encode cs := h
  rw [(s.performAll_of_isInput hinput).2.2, hnew, ← Intake.tokenizer_start]
  exact s.level_ne_warn_of_mem_logged (Intake.isWarning_of_mem_reportedAll rfl hblock [])

end Session

/-- The pieces of an encoded text leave the tokenizer where the text itself leaves it, and a hook
sees the same.  No bytes are held back in the end, no piece has anything to replace, and with the
end of the input nothing is logged as a warning. -/
theorem performAll_encoded {σ : Type} (logger : Log.Logger σ) (traceChars hooked : Bool)
    (text : String) (chunks : List (List UInt8)) (h : chunks.flatten = text.toUTF8.data.toList) :
    let s := (Session.new logger traceChars hooked).1
    let bytewise := s.performAll (chunks.map .feedBytes)
    let whole := s.perform (.feed text)
    bytewise.1.tokenizer = whole.1.tokenizer ∧
      bytewise.2.flatMap Outcome.trace = whole.2.trace ∧
      bytewise.1.tokenizer.decoder.hasPending = false ∧
      (∀ before chunk after, chunks = before ++ chunk :: after →
        let decoder := (s.performAll (before.map .feedBytes)).1.tokenizer.decoder
        Utf8.invalidCount (decoder.decode chunk).1 = 0) ∧
      ∀ entry ∈ (s.performAll (chunks.map .feedBytes ++ [.finish])).2.flatMap Outcome.entries,
        entry.level ≠ .warn := by
  intro s bytewise whole
  have hnew : s.tokenizer = .new := rfl
  rw [Utf8.toList_toUTF8] at h
  obtain ⟨htokenizer, htrace⟩ := s.performAll_feedBytes_eq_feed hnew h
  refine ⟨htokenizer, htrace, ?_, ?_, s.level_ne_warn_of_feedBytes hnew h⟩
  · simp only [bytewise, s.performAll_feedBytes_tokenizer hnew, h]
    simp [Intake.tokenizer, Progress.tokenizer, Utf8.split_encode, Utf8.Decoder.hasPending]
  · intro before chunk after hsplit decoder
    have hdecoder : decoder = ⟨(Utf8.split before.flatten).2⟩ := by
      simp only [decoder, s.performAll_feedBytes_tokenizer hnew]
      rfl
    rw [hdecoder]
    apply Utf8.invalidCount_decode
    rw [hsplit, List.flatten_append, List.flatten_cons, ← List.append_assoc] at h
    exact ⟨_, h⟩

/-- Cuts behind the first byte of a character of two bytes, and behind the first and the third of
one of four. -/
theorem performAll_encoded_of_cut_characters :
    let text := "/é😀"
    let chunks : List (List UInt8) := [[0x2f, 0xc3], [0xa9, 0xf0], [], [0x9f, 0x98], [0x80]]
    let s := (Session.new (.new .trace : Log.Logger Unit) true true).1
    chunks.flatten = text.toUTF8.data.toList ∧
      (s.performAll (chunks.map .feedBytes)).1.tokenizer = (s.perform (.feed text)).1.tokenizer ∧
      (s.performAll (chunks.map .feedBytes)).2.flatMap Outcome.trace =
        (s.perform (.feed text)).2.trace ∧
      (s.performAll (chunks.map .feedBytes)).1.tokenizer.decoder.hasPending = false ∧
      ∀ entry ∈ (s.performAll (chunks.map .feedBytes ++ [.finish])).2.flatMap Outcome.entries,
        entry.level ≠ .warn := by
  intro text chunks s
  have h : chunks.flatten = text.toUTF8.data.toList := by decide +kernel
  obtain ⟨htokenizer, htrace, hpending, -, hwarn⟩ :=
    performAll_encoded (.new .trace : Log.Logger Unit) true true text chunks h
  exact ⟨h, htokenizer, htrace, hpending, hwarn⟩

end StyleScan
