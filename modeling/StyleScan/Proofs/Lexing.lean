import StyleScan.Proofs.Lexeme
import StyleScan.Proofs.Progress

/-! # Reading lexemes

Between tokens, a text that begins with a lexeme yields that lexeme as its first token, and then
the tokens of the rest read between tokens again (`lex_closed`, `lex_cut`).  For each phase there is
one lemma about reading on within the open piece and one about its end. -/

namespace StyleScan

namespace Tracker

/-- The tracker once a text has been read. -/
def advanceAll (t : Tracker) (cs : List Char) : Tracker :=
  cs.foldl advance t

@[simp] theorem advanceAll_nil (t : Tracker) : t.advanceAll [] = t := rfl

@[simp] theorem advanceAll_cons (t : Tracker) (c : Char) (cs : List Char) :
    t.advanceAll (c :: cs) = (t.advance c).advanceAll cs := rfl

theorem advanceAll_append (t : Tracker) (cs ds : List Char) :
    t.advanceAll (cs ++ ds) = (t.advanceAll cs).advanceAll ds := by
  simp [advanceAll]

@[simp] theorem afterReturn_advance (t : Tracker) (c : Char) :
    (t.advance c).afterReturn = decide (c = '\r') := rfl

@[simp] theorem position_place (t : Tracker) (c : Char) : (t.place c).position = t.next := rfl

@[simp] theorem afterReturn_place (t : Tracker) (c : Char) :
    (t.place c).afterReturn = t.afterReturn := rfl

@[simp] theorem lineBreak_place (t : Tracker) (c : Char) :
    (t.place c).lineBreak = .of t.afterReturn c := rfl

end Tracker

theorem ofChar?_of_isBlank {c : Char} (h : isBlank c) : Quote.ofChar? c = none := by
  simp only [isBlank, Bool.or_eq_true, decide_eq_true_eq] at h
  rcases h with (((rfl | rfl) | rfl) | rfl) | rfl <;> rfl

theorem ne_slash_of_isBlank {c : Char} (h : isBlank c) : c ≠ '/' := by
  rintro rfl
  simp [isBlank] at h

namespace Progress

variable (t : Tracker) (start : Position)

theorem lex_mk_cons (p : Phase) (c : Char) (cs : List Char) :
    lex ⟨t, p⟩ (c :: cs) = tokensOf (p.read (t.place c) c).1 ++
      lex ⟨t.advance c, (p.read (t.place c) c).2⟩ cs := by
  simp [lex_cons, step, Event.token?]

/-! ## Runs of blanks -/

theorem readGeneral_of_isBlank (p : Phase) (here : Position) {c : Char} (h : isBlank c) :
    p.readGeneral here c = p.blank here c := by
  simp [Phase.readGeneral, ofChar?_of_isBlank h, ne_slash_of_isBlank h, h]

/-- A character that is no blank is read after the run as it is read between tokens. -/
theorem readGeneral_blanks (text : List Char) (here : Position) {c : Char}
    (h : isBlank c = false) :
    (Phase.blanks start text).readGeneral here c =
      (.produced (.ofList .whitespace start text) :: (Phase.between.readGeneral here c).1,
        (Phase.between.readGeneral here c).2) := by
  simp only [Phase.readGeneral, h]
  cases Quote.ofChar? c with
  | some quote => rfl
  | none =>
    by_cases hs : c = '/'
    · simp [hs, Phase.closing]
    · simp [hs, Phase.closing]

theorem lex_blanks (w : List Char) (hw : ∀ c ∈ w, isBlank c) (text rest : List Char) :
    lex ⟨t, .blanks start text⟩ (w ++ rest) =
      lex ⟨t.advanceAll w, .blanks start (text ++ w)⟩ rest := by
  induction w generalizing t text with
  | nil => simp
  | cons c w ih =>
    have hc : isBlank c := hw c (by simp)
    rw [List.cons_append, lex_mk_cons, Phase.read, readGeneral_of_isBlank _ _ hc]
    simp only [Phase.blank, tokensOf_nil, List.nil_append]
    rw [ih _ (fun d hd => hw d (by simp [hd]))]
    simp

theorem lex_blanks_end (text rest : List Char) (h : ∀ c ∈ rest.head?, isBlank c = false) :
    lex ⟨t, .blanks start text⟩ rest =
      .ofList .whitespace start text :: lex ⟨t, .between⟩ rest := by
  cases rest with
  | nil => rfl
  | cons c rest =>
    rw [lex_mk_cons, lex_mk_cons]
    simp only [Phase.read, readGeneral_blanks _ _ _ (h c rfl)]
    simp [Event.token?]

theorem lex_whitespace {w : List Char} (hw : w ≠ []) (h : ∀ c ∈ w, isBlank c) (rest : List Char)
    (hr : ∀ c ∈ rest.head?, isBlank c = false) :
    lex ⟨t, .between⟩ (w ++ rest) =
      .ofList .whitespace t.next w :: lex ⟨t.advanceAll w, .between⟩ rest := by
  obtain ⟨c, w, rfl⟩ := List.exists_cons_of_ne_nil hw
  have hc : isBlank c := h c (by simp)
  rw [List.cons_append, lex_mk_cons, Phase.read, readGeneral_of_isBlank _ _ hc]
  simp only [Phase.blank, tokensOf_cons, Event.token?]
  rw [lex_blanks _ _ w (fun d hd => h d (by simp [hd])), lex_blanks_end _ _ _ _ hr]
  simp

/-! ## Single characters -/

theorem lex_identifier {c : Char} (hb : isBlank c = false) (hs : c ≠ '/')
    (hq : Quote.ofChar? c = none) (rest : List Char) :
    lex ⟨t, .between⟩ (c :: rest) =
      .ofList .identifier t.next [c] :: lex ⟨t.advance c, .between⟩ rest := by
  rw [lex_mk_cons]
  simp [Phase.read, Phase.readGeneral, hq, hs, hb, Phase.closing, Event.token?]

/-- A slash between tokens waits for the next character. -/
theorem lex_slash_cons (rest : List Char) :
    lex ⟨t, .between⟩ ('/' :: rest) = lex ⟨t.advance '/', .slash t.next⟩ rest := by
  have hq : Quote.ofChar? '/' = none := rfl
  rw [lex_mk_cons]
  simp [Phase.read, Phase.readGeneral, hq, Phase.closing, Event.token?]

theorem lex_slash (rest : List Char) (h : ∀ c ∈ rest.head?, c ≠ '/' ∧ c ≠ '*') :
    lex ⟨t, .between⟩ ('/' :: rest) =
      .ofList .slash t.next ['/'] :: lex ⟨t.advance '/', .between⟩ rest := by
  rw [lex_slash_cons]
  cases rest with
  | nil => rfl
  | cons c rest =>
    obtain ⟨hs, hd⟩ := h c rfl
    rw [lex_mk_cons, lex_mk_cons]
    simp [Phase.read, Phase.readSlash, hs, hd, Event.token?]

/-! ## Comments that are closed -/

theorem not_closing_of_noClose {body w : List Char} {c : Char} (h : NoClose (body ++ c :: w)) :
    (starred body && decide (c = '/')) = false := by
  rw [← Bool.not_eq_true]
  intro hc
  simp only [starred, Bool.and_eq_true, decide_eq_true_eq] at hc
  obtain ⟨hb, rfl⟩ := hc
  obtain ⟨pre, rfl⟩ := List.getLast?_eq_some_iff.mp hb
  exact h ⟨pre, w, by simp⟩

theorem lex_block (w : List Char) (body rest : List Char) (h : NoClose (body ++ w)) :
    lex ⟨t, .block start body⟩ (w ++ rest) =
      lex ⟨t.advanceAll w, .block start (body ++ w)⟩ rest := by
  induction w generalizing t body with
  | nil => simp
  | cons c w ih =>
    rw [List.cons_append, lex_mk_cons, Phase.read, not_closing_of_noClose h]
    rw [List.append_cons] at h
    simp only [Bool.false_eq_true, if_false, tokensOf_nil, List.nil_append]
    rw [ih _ _ h]
    simp

/-- The opening of a comment between tokens. -/
theorem lex_block_opening (rest : List Char) :
    lex ⟨t, .between⟩ ('/' :: '*' :: rest) =
      lex ⟨t.advanceAll ['/', '*'], .block t.next []⟩ rest := by
  rw [lex_slash_cons, lex_mk_cons]
  simp [Phase.read, Phase.readSlash, Event.token?]

theorem lex_block_closed {body : List Char} (h : NoClose (body ++ ['*'])) (rest : List Char) :
    lex ⟨t, .between⟩ ('/' :: '*' :: (body ++ ['*', '/']) ++ rest) =
      .ofList .multiLineComment t.next ('/' :: '*' :: (body ++ ['*', '/'])) ::
        lex ⟨t.advanceAll ('/' :: '*' :: (body ++ ['*', '/'])), .between⟩ rest := by
  have hb : body ++ ['*', '/'] ++ rest = (body ++ ['*']) ++ '/' :: rest := by simp
  rw [List.cons_append, List.cons_append, hb, lex_block_opening,
    lex_block _ _ (body ++ ['*']) [] _ h, lex_mk_cons]
  simp [Phase.read, Event.token?, Tracker.advanceAll_append]

theorem lex_block_cut {body : List Char} (h : NoClose body) :
    lex ⟨t, .between⟩ ('/' :: '*' :: body) =
      [.ofList .multiLineComment t.next ('/' :: '*' :: body)] := by
  have hl := lex_block (t.advanceAll ['/', '*']) t.next body [] [] h
  rw [List.append_nil] at hl
  rw [lex_block_opening, hl]
  rfl

/-! ## Comments to the end of the line -/

theorem of_eq_none_of_breaksLine {c : Char} (h : breaksLine c = false) (afterReturn : Bool) :
    LineBreak.of afterReturn c = .none := by
  simp only [breaksLine, Bool.or_eq_false_iff, decide_eq_false_iff_not] at h
  simp [LineBreak.of, h]

/-- A comment goes on over characters that break no line. -/
theorem lex_line (w : List Char) (hw : ∀ c ∈ w, breaksLine c = false) (body rest : List Char)
    (ht : t.afterReturn = false) :
    lex ⟨t, .line start body⟩ (w ++ rest) =
        lex ⟨t.advanceAll w, .line start (body ++ w)⟩ rest ∧
      (t.advanceAll w).afterReturn = false := by
  induction w generalizing t body with
  | nil => simp [ht]
  | cons c w ih =>
    have hc : breaksLine c = false := hw c (by simp)
    have hr : (t.advance c).afterReturn = false := by
      simp only [breaksLine, Bool.or_eq_false_iff] at hc
      exact hc.1.1
    obtain ⟨hl, ha⟩ := ih (t.advance c) (fun d hd => hw d (by simp [hd])) (body ++ [c]) hr
    rw [List.append_assoc] at hl
    refine ⟨?_, ha⟩
    rw [List.cons_append, lex_mk_cons]
    simp [Phase.read, ht, of_eq_none_of_breaksLine hc, LineBreak.isComplete, hl]

/-- After a carriage return the comment is over, unless a line feed comes next. -/
theorem lex_line_returned (body rest : List Char) (ht : t.afterReturn)
    (h : rest.head? ≠ some '\n') :
    lex ⟨t, .line start body⟩ rest =
      .ofList .singleLineComment start ('/' :: '/' :: body) :: lex ⟨t, .between⟩ rest := by
  cases rest with
  | nil => rfl
  | cons c rest =>
    have hc : c ≠ '\n' := by simpa using h
    have hb : LineBreak.of true c ≠ .pairedLineFeed := by
      unfold LineBreak.of
      rw [if_neg hc]
      split
      · nofun
      · split <;> nofun
    rw [lex_mk_cons, lex_mk_cons]
    simp [Phase.read, ht, hb, Event.token?]

theorem lex_line_end {stop : List Char} (hs : stop ∈ lineEnds) (body rest : List Char)
    (ht : t.afterReturn = false)
    (hr : stop.getLast? = some '\r' → rest.head? ≠ some '\n') :
    lex ⟨t, .line start body⟩ (stop ++ rest) =
      .ofList .singleLineComment start ('/' :: '/' :: (body ++ stop)) ::
        lex ⟨t.advanceAll stop, .between⟩ rest := by
  simp only [lineEnds, List.mem_cons, List.not_mem_nil, or_false] at hs
  rcases hs with rfl | rfl | rfl | rfl
  · rw [List.singleton_append, lex_mk_cons]
    simp [Phase.read, ht, LineBreak.of, LineBreak.isComplete, Event.token?]
  · rw [List.singleton_append, lex_mk_cons]
    simp [Phase.read, ht, LineBreak.of, LineBreak.isComplete, Event.token?]
  · rw [List.cons_append, List.singleton_append, lex_mk_cons]
    simp only [Phase.read, Tracker.afterReturn_place, Tracker.lineBreak_place, ht]
    simp only [LineBreak.of, LineBreak.isComplete]
    rw [lex_mk_cons]
    simp [Phase.read, LineBreak.of, LineBreak.isComplete, Event.token?]
  · rw [List.singleton_append, lex_mk_cons]
    simp only [Phase.read, Tracker.afterReturn_place, Tracker.lineBreak_place, ht]
    have hl := lex_line_returned (t.advance '\r') start (body ++ ['\r']) rest rfl (hr rfl)
    simp [LineBreak.of, LineBreak.isComplete, hl]

/-- The opening of a comment between tokens. -/
theorem lex_line_opening (rest : List Char) :
    lex ⟨t, .between⟩ ('/' :: '/' :: rest) =
      lex ⟨t.advanceAll ['/', '/'], .line t.next []⟩ rest := by
  rw [lex_slash_cons, lex_mk_cons]
  simp [Phase.read, Phase.readSlash, Event.token?]

theorem lex_line_closed {body stop : List Char} (h : ∀ c ∈ body, breaksLine c = false)
    (hs : stop ∈ lineEnds) (rest : List Char)
    (hr : stop.getLast? = some '\r' → rest.head? ≠ some '\n') :
    lex ⟨t, .between⟩ ('/' :: '/' :: (body ++ stop) ++ rest) =
      .ofList .singleLineComment t.next ('/' :: '/' :: (body ++ stop)) ::
        lex ⟨t.advanceAll ('/' :: '/' :: (body ++ stop)), .between⟩ rest := by
  obtain ⟨hl, ha⟩ :=
    lex_line (t.advanceAll ['/', '/']) t.next body h [] (stop ++ rest) rfl
  rw [List.cons_append, List.cons_append, List.append_assoc, lex_line_opening, hl,
    lex_line_end _ _ hs _ _ ha hr]
  simp [Tracker.advanceAll_append]

theorem lex_line_cut {body : List Char} (h : ∀ c ∈ body, breaksLine c = false) :
    lex ⟨t, .between⟩ ('/' :: '/' :: body) =
      [.ofList .singleLineComment t.next ('/' :: '/' :: body)] := by
  obtain ⟨hl, _⟩ := lex_line (t.advanceAll ['/', '/']) t.next body h [] [] rfl
  rw [List.append_nil] at hl
  rw [lex_line_opening, hl]
  rfl

/-! ## Strings -/

theorem char_ne_backslash (quote : Quote) : quote.char ≠ '\\' := by
  cases quote <;> decide

theorem breaksLine_char (quote : Quote) : breaksLine quote.char = false := by
  cases quote <;> rfl

theorem ne_backslash_of_breaksLine {c : Char} (h : breaksLine c) : c ≠ '\\' := by
  rintro rfl
  cases h

/-- A string goes on over items, after which nothing waits to be escaped. -/
theorem lex_items {quote : Quote} {items : List Char} (hi : Items quote items)
    (body rest : List Char) (hb : escaping body = false) :
    lex ⟨t, .string quote start body⟩ (items ++ rest) =
        lex ⟨t.advanceAll items, .string quote start (body ++ items)⟩ rest ∧
      escaping (body ++ items) = false := by
  induction hi generalizing t body with
  | nil => simp [hb]
  | @escape c items _ ih =>
    have hp : escaping (body ++ ['\\', c]) = false := by
      rw [List.append_cons, escaping_append, escaping_append, hb]
      simp
    obtain ⟨hl, he⟩ := ih ((t.advance '\\').advance c) (body ++ ['\\', c]) hp
    rw [List.append_assoc] at hl he
    refine ⟨?_, he⟩
    rw [List.cons_append, List.cons_append, lex_mk_cons, Phase.read, hb]
    simp only [Bool.false_or, decide_true, if_true, tokensOf_nil, List.nil_append]
    rw [lex_mk_cons, Phase.read, escaping_append, hb]
    simp [hl]
  | @plain c items hq hs hl _ ih =>
    obtain ⟨hl', he⟩ := ih (t.advance c) (body ++ [c]) (by simp [hs])
    rw [List.append_assoc] at hl' he
    refine ⟨?_, he⟩
    rw [List.cons_append, lex_mk_cons]
    simp [Phase.read, hb, hs, hl, hq, hl']

/-- The opening of a string between tokens. -/
theorem lex_string_opening (quote : Quote) (rest : List Char) :
    lex ⟨t, .between⟩ (quote.char :: rest) =
      lex ⟨t.advance quote.char, .string quote t.next []⟩ rest := by
  have hq : Quote.ofChar? quote.char = some quote := Quote.ofChar?_eq_some_iff.mpr rfl
  rw [lex_mk_cons]
  simp [Phase.read, Phase.readGeneral, hq, Phase.closing, Event.token?]

/-- A string goes on to the end of its items. -/
theorem lex_string_items (quote : Quote) {items : List Char} (hi : Items quote items)
    (rest : List Char) :
    lex ⟨t, .between⟩ (quote.char :: (items ++ rest)) =
        lex ⟨t.advanceAll (quote.char :: items), .string quote t.next items⟩ rest ∧
      escaping items = false := by
  obtain ⟨hl, he⟩ := lex_items (t.advance quote.char) t.next hi [] rest rfl
  rw [List.nil_append] at he hl
  rw [lex_string_opening, hl]
  exact ⟨rfl, he⟩

theorem lex_string_closed (quote : Quote) {items : List Char} (hi : Items quote items)
    (rest : List Char) :
    lex ⟨t, .between⟩ (quote.char :: (items ++ [quote.char]) ++ rest) =
      .ofList (.string quote) t.next (quote.char :: (items ++ [quote.char])) ::
        lex ⟨t.advanceAll (quote.char :: (items ++ [quote.char])), .between⟩ rest := by
  obtain ⟨hl, he⟩ := lex_string_items t quote hi (quote.char :: rest)
  rw [List.cons_append, List.append_assoc, List.singleton_append, hl, lex_mk_cons]
  simp [Phase.read, he, char_ne_backslash, breaksLine_char, Event.token?,
    Tracker.advanceAll_append]

theorem lex_unterminated (quote : Quote) {items : List Char} (hi : Items quote items) {c : Char}
    (hc : breaksLine c) (rest : List Char) :
    lex ⟨t, .between⟩ (quote.char :: (items ++ [c]) ++ rest) =
      .ofList (.unterminated quote) t.next (quote.char :: (items ++ [c])) ::
        lex ⟨t.advanceAll (quote.char :: (items ++ [c])), .between⟩ rest := by
  obtain ⟨hl, he⟩ := lex_string_items t quote hi (c :: rest)
  rw [List.cons_append, List.append_assoc, List.singleton_append, hl, lex_mk_cons]
  simp [Phase.read, he, hc, ne_backslash_of_breaksLine hc, Event.token?,
    Tracker.advanceAll_append]

theorem lex_string_cut (quote : Quote) {items : List Char} (hi : Items quote items) :
    lex ⟨t, .between⟩ (quote.char :: items) =
      [.ofList (.string quote) t.next (quote.char :: items)] := by
  obtain ⟨hl, _⟩ := lex_string_items t quote hi []
  rw [List.append_nil] at hl
  rw [hl]
  rfl

theorem lex_escape_cut (quote : Quote) {items : List Char} (hi : Items quote items) :
    lex ⟨t, .between⟩ (quote.char :: (items ++ ['\\'])) =
      [.ofList (.string quote) t.next (quote.char :: (items ++ ['\\']))] := by
  obtain ⟨hl, he⟩ := lex_string_items t quote hi ['\\']
  rw [hl, lex_mk_cons, Phase.read, he]
  rfl

/-! ## All lexemes -/

/-- A closed lexeme that does not go on is the first token. -/
theorem lex_closed {kind : Kind} {w : List Char} (h : Closed kind w) (rest : List Char)
    (hr : Bounded kind w rest) :
    lex ⟨t, .between⟩ (w ++ rest) =
      .ofList kind t.next w :: lex ⟨t.advanceAll w, .between⟩ rest := by
  cases h with
  | whitespace hw h => exact lex_whitespace t hw h rest hr
  | identifier hb hs hq => exact lex_identifier t hb hs hq rest
  | slash => exact lex_slash t rest hr
  | block h => exact lex_block_closed t h rest
  | @line body stop h hs =>
    refine lex_line_closed t h hs rest fun he => hr ?_
    simp [List.getLast?_cons, he]
  | string quote h => exact lex_string_closed t quote h rest
  | unterminated quote h hc => exact lex_unterminated t quote h hc rest

/-- A lexeme that the end of the input cuts off is the only token. -/
theorem lex_cut {kind : Kind} {w : List Char} (h : Cut kind w) :
    lex ⟨t, .between⟩ w = [.ofList kind t.next w] := by
  cases h with
  | block h => exact lex_block_cut t h
  | line h => exact lex_line_cut t h
  | string quote h => exact lex_string_cut t quote h
  | escape quote h => exact lex_escape_cut t quote h

end Progress

end StyleScan
