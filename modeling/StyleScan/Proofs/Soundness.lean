import StyleScan.Proofs.Session

/-! # The state of the scanner

The stack, the draft, the flags of the contexts and the tracker are kept apart, but they depend on
one another.  `Scanner.Sound` says how; every character and the end of the input preserve it.

## Implementation notes

What a phase holds by its form alone, such as one context at most above the general one, needs no
proof for a step.  `Progress.Sound` is the rest, and only this is carried through a run. -/

namespace StyleScan

/-- How the parts of a scanner depend on one another between two characters. -/
structure Scanner.Sound (s : Scanner) : Prop where
  stack : s.contexts.toList = [.general] ∨
    ∃ c, c ≠ .general ∧ s.contexts.toList = [.general, c]
  general : s.contexts.top = .general →
    ∀ d, s.draft = some d → d.kind = .whitespace ∧ d.text ≠ ""
  slash : ∀ start, s.contexts.top = .slashLookahead start →
    s.draft = none ∧ s.tracker.next = ⟨start.line, start.column + 1, start.offset + 1⟩
  block : ∀ endPending, s.contexts.top = .multiLineComment endPending →
    ∃ d, s.draft = some d ∧ d.kind = .multiLineComment ∧
      (endPending ↔ 2 < d.text.length ∧ d.text.toList.getLast? = some '*')
  line : s.contexts.top = .singleLineComment →
    ∃ d, s.draft = some d ∧ d.kind = .singleLineComment ∧
      (∀ c ∈ d.text.toList, c ≠ '\n' ∧ c ≠ '\x0c') ∧
      (∀ c ∈ d.text.toList.dropLast, c ≠ '\r') ∧
      (d.text.toList.getLast? = some '\r' ↔ s.tracker.afterReturn)
  string : ∀ quote escapePending, s.contexts.top = .string quote escapePending →
    ∃ d body, s.draft = some d ∧ d.kind = quote.kind ∧ d.text.toList = quote.char :: body ∧
      (escapePending ↔ (body.reverse.takeWhile (· = '\\')).length % 2 = 1)

/-- A star waits exactly if it is the last character and not the one of the opening. -/
theorem starred_iff (body : List Char) :
    starred body ↔ 2 < ('/' :: '*' :: body).length ∧ ('/' :: '*' :: body).getLast? = some '*' := by
  cases body with
  | nil => simp
  | cons c body => simp [starred]

/-- An escape waits exactly after an odd run of backslashes. -/
theorem escaping_iff (body : List Char) :
    escaping body ↔ (body.reverse.takeWhile (· = '\\')).length % 2 = 1 := by
  generalize hr : body.reverse = r
  obtain rfl : body = r.reverse := by simp [← hr]
  clear hr
  induction r with
  | nil => simp
  | cons c r ih =>
    rw [List.reverse_cons, escaping_append]
    by_cases hc : c = '\\'
    · simp only [hc, List.takeWhile_cons, decide_true, if_true, List.length_cons]
      have hih : escaping r.reverse = true ↔ (r.takeWhile (· = '\\')).length % 2 = 1 := ih
      cases he : escaping r.reverse <;> simp [he] at hih ⊢ <;> omega
    · simp [hc]

namespace Progress

/-- What a phase has read fits the position that the tracker has reached. -/
def Sound (x : Progress) : Prop :=
  match x.phase with
  | .between | .block _ _ | .string _ _ _ => True
  | .blanks _ text => text ≠ []
  | .slash start => x.tracker.next = ⟨start.line, start.column + 1, start.offset + 1⟩
  | .line _ body => (∀ c ∈ body, c ≠ '\n' ∧ c ≠ '\x0c') ∧ (∀ c ∈ body.dropLast, c ≠ '\r') ∧
    (body.getLast? = some '\r' ↔ x.tracker.afterReturn)

theorem sound_start : start.Sound := trivial

theorem sound_settled (x : Progress) : x.settled.Sound := trivial

/-- What a character begins between tokens or in a run of blanks fits the tracker. -/
theorem sound_readGeneral (p : Phase) (tracker : Tracker) (c : Char) :
    Sound ⟨tracker.advance c, (p.readGeneral tracker.next c).2⟩ := by
  unfold Phase.readGeneral
  cases hq : Quote.ofChar? c with
  | some quote => trivial
  | none =>
    by_cases hs : c = '/'
    · subst hs
      rfl
    by_cases hb : isBlank c
    · cases p <;> simp [hs, hb, Phase.blank, Sound]
    · simp [hs, hb, Sound]

/-- A character that neither ends the line nor follows its end continues a line comment. -/
theorem sound_line {tracker : Tracker} {start : Position} {body : List Char} {c : Char}
    (h : Sound ⟨tracker, .line start body⟩) (hr : tracker.afterReturn = false)
    (hc : (LineBreak.of false c).isComplete = false) :
    Sound ⟨tracker.advance c, .line start (body ++ [c])⟩ := by
  obtain ⟨hfeeds, hreturns, hlast⟩ := h
  have hfeed : c ≠ '\n' ∧ c ≠ '\x0c' := by
    constructor
    · rintro rfl
      simp [LineBreak.of, LineBreak.isComplete] at hc
    · rintro rfl
      simp [LineBreak.of, LineBreak.isComplete] at hc
  have hbody : ∀ d ∈ body, d ≠ '\r' := by
    intro d hd
    have hne : body.getLast? ≠ some '\r' := by
      rw [ne_eq, hlast]
      simp [hr]
    rcases List.eq_nil_or_concat body with rfl | ⟨init, last, rfl⟩
    · simp at hd
    · rw [List.concat_eq_append] at hd hreturns hne
      rw [List.dropLast_concat] at hreturns
      rcases List.mem_append.1 hd with hinit | hone
      · exact hreturns d hinit
      · rw [List.mem_singleton.1 hone]
        simpa using hne
  refine ⟨fun d hd => ?_, ?_, ?_⟩
  · rcases List.mem_append.1 hd with hold | hnew
    · exact hfeeds d hold
    · rw [List.mem_singleton.1 hnew]
      exact hfeed
  · rwa [List.dropLast_concat]
  · simp [Tracker.advance]

/-- A character preserves soundness. -/
theorem sound_step {x : Progress} (h : x.Sound) (c : Char) : (x.step c).2.Sound := by
  obtain ⟨tracker, phase⟩ := x
  cases phase with
  | between => exact sound_readGeneral .between tracker c
  | blanks start text => exact sound_readGeneral (.blanks start text) tracker c
  | slash start =>
    simp only [step, Tracker.place, Phase.read, Phase.readSlash]
    by_cases hs : c = '*'
    · simp [hs, Sound]
    by_cases hd : c = '/'
    · simp [hd, Sound, Tracker.advance]
    · simpa [hs, hd] using sound_readGeneral .between tracker c
  | block start body =>
    simp only [step, Phase.read]
    split <;> trivial
  | line start body =>
    simp only [step, Phase.read]
    split
    · exact sound_readGeneral .between tracker c
    · rename_i hr
      split
      · trivial
      · rename_i hl
        cases ha : tracker.afterReturn with
        | true => simp_all [Tracker.place, LineBreak.isComplete]
        | false => exact sound_line h ha (by simpa [Tracker.place, ha] using hl)
  | string quote start body =>
    simp only [step, Phase.read]
    (repeat' split) <;> trivial

/-- A text preserves soundness. -/
theorem sound_run {x : Progress} (h : x.Sound) (cs : List Char) : (x.run cs).2.Sound := by
  induction cs generalizing x with
  | nil => exact h
  | cons c cs ih => exact ih (sound_step h c)

section Scanner

attribute [local simp] scanner Phase.scanner Phase.contexts Phase.draft ContextStack.toList
  ContextStack.top

/-- The scanner of sound progress is sound. -/
theorem sound_scanner {x : Progress} (h : x.Sound) (events : Array Event) :
    (x.scanner events).Sound := by
  obtain ⟨tracker, phase⟩ := x
  cases phase with
  | between => constructor <;> simp
  | blanks start text =>
    have hne : text ≠ [] := h
    constructor <;> simp [Draft.ofList, hne]
  | slash start =>
    have hnext : tracker.next = ⟨start.line, start.column + 1, start.offset + 1⟩ := h
    constructor <;> simp [hnext]
  | block start body =>
    constructor
    case block =>
      rintro endPending ⟨⟩
      refine ⟨_, rfl, rfl, ?_⟩
      rw [← String.length_toList, Draft.toList_ofList_text]
      exact starred_iff body
    all_goals simp
  | line start body =>
    obtain ⟨hfeeds, hreturns, hlast⟩ := h
    constructor
    case line =>
      intro _
      refine ⟨_, rfl, rfl, ?_⟩
      rw [Draft.toList_ofList_text]
      refine ⟨by simpa using hfeeds, ?_⟩
      rcases List.eq_nil_or_concat body with rfl | ⟨init, last, rfl⟩
      · simpa using hlast
      · rw [List.concat_eq_append] at hreturns hlast ⊢
        rw [List.dropLast_concat] at hreturns
        rw [List.getLast?_concat] at hlast
        rw [← List.cons_append, ← List.cons_append, List.dropLast_concat, List.getLast?_concat]
        exact ⟨by simpa using hreturns, hlast⟩
    all_goals simp
  | string quote start body =>
    constructor
    case string =>
      rintro quote' escapePending ⟨⟩
      exact ⟨_, body, rfl, rfl, by simp, escaping_iff body⟩
    all_goals simp

end Scanner

end Progress

namespace Tokenizer

/-- An operation preserves soundness, and only the end of the input closes a tokenizer. -/
theorem exists_sound_perform {x : Progress} (h : x.Sound) (decoder : Utf8.Decoder)
    (queue : List Token) (closed : Bool) (op : Operation) :
    ∃ y decoder' queue', y.Sound ∧ (x.tokenizer decoder queue closed).perform op =
      Progress.tokenizer y decoder' queue' (closed || op = .finish) := by
  cases hop : op.isInput with
  | false =>
    obtain ⟨queue', hperform, -⟩ := perform_of_not_isInput x decoder queue closed hop
    have hne : op ≠ .finish := by
      rintro rfl
      simp [Operation.isInput] at hop
    exact ⟨x, decoder, queue', h, by simp [hperform, hne]⟩
  | true =>
    cases closed with
    | true => exact ⟨x, decoder, queue, h, perform_of_closed _ rfl hop⟩
    | false =>
      cases op with
      | feed chunk =>
        rw [perform, feed_tokenizer]
        exact ⟨_, _, _, Progress.sound_run h _, rfl⟩
      | feedBytes chunk =>
        rw [perform, feedBytes_tokenizer]
        exact ⟨_, _, _, Progress.sound_run h _, rfl⟩
      | finish =>
        rw [perform, finish_tokenizer]
        exact ⟨_, _, _, Progress.sound_settled _, rfl⟩
      | _ => simp [Operation.isInput] at hop

/-- Operations in order preserve soundness. -/
theorem exists_sound_performAll {x : Progress} (h : x.Sound) (decoder : Utf8.Decoder)
    (queue : List Token) (closed : Bool) (ops : List Operation) :
    ∃ y decoder' queue', y.Sound ∧ (x.tokenizer decoder queue closed).performAll ops =
      Progress.tokenizer y decoder' queue' (closed || .finish ∈ ops) := by
  induction ops generalizing x decoder queue closed with
  | nil => exact ⟨x, decoder, queue, h, by simp⟩
  | cons op ops ih =>
    obtain ⟨y, decoder', queue', hy, hop⟩ := exists_sound_perform h decoder queue closed op
    obtain ⟨z, decoder'', queue'', hz, hops⟩ := ih hy decoder' queue' (closed || op = .finish)
    refine ⟨z, decoder'', queue'', hz, ?_⟩
    rw [performAll_cons, hop, hops]
    simp [Bool.or_assoc, eq_comm]

end Tokenizer

/-- After any operations the scanner is sound; whatever comes next does not violate an invariant,
and input is accepted until the input is finished, refused without effect from then on. -/
theorem performAll_sound {σ : Type} (logger : Log.Logger σ) (traceChars hooked : Bool)
    (ops : List Operation) :
    let s := ((Session.new logger traceChars hooked).1.performAll ops).1
    s.tokenizer.scanner.Sound ∧ (s.tokenizer.closed ↔ .finish ∈ ops) ∧
      ∀ op,
        (∀ context position detail,
          (s.perform op).2.answer ≠ .rejected (.invariant context position detail)) ∧
        (op.isInput → if .finish ∈ ops then
            (s.perform op).2.answer = .rejected .closed ∧
              (s.perform op).1.tokenizer = s.tokenizer
          else (s.perform op).2.answer = .accepted) := by
  intro s
  obtain ⟨x, decoder, queue, hx, hall⟩ := Tokenizer.exists_sound_performAll Progress.sound_start
    .empty [] false ops
  have ht : s.tokenizer = x.tokenizer decoder queue (.finish ∈ ops) := by
    rw [Session.performAll_tokenizer, Session.new_tokenizer, Tokenizer.new_eq_tokenizer, hall,
      Bool.false_or]
  refine ⟨?_, ?_, ?_⟩
  · rw [ht]
    exact Progress.sound_scanner hx #[]
  · simp [ht, Progress.tokenizer]
  · intro op
    cases hop : op.isInput with
    | false =>
      constructor
      · intro context position detail
        exact s.answer_ne_rejected hop _
      · intro hin
        cases hin
    | true =>
      have hinput := s.perform_input ht hop
      simp only [decide_eq_true_eq] at hinput
      refine ⟨?_, fun _ => hinput⟩
      intro context position detail
      split at hinput
      · simp [hinput.1]
      · simp [hinput]

end StyleScan
