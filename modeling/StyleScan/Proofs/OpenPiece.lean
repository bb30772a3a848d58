import StyleScan.Proofs.Tracking

/-! # The open piece of the input

Between two characters at most one piece of the input is open: it has been read, but its token is
not complete.  Whatever a character means in the phase that it meets, it does one of four things
to that piece (`Phase.Reads`): it begins a piece, goes on with it, completes it, or stands after
it.  In each case the relation also says what a trace reports.

## Implementation notes

What lies where in the input and what is reported when both follow from the four cases, so that
neither needs the rules of the phases again. -/

namespace StyleScan

/-- A piece of the input and the position of its first character. -/
structure Piece where
  start : Position
  text : List Char
deriving Repr, DecidableEq, Inhabited

/-- The piece of the input that a token stands for. -/
def Token.piece (t : Token) : Piece :=
  ⟨t.start, t.text.toList⟩

/-- What has been read of a token. -/
def Draft.piece (d : Draft) : Piece :=
  ⟨d.start, d.text.toList⟩

/-- The piece that is open: the token that is being read, or the slash that waits for what it
opens. -/
def Scanner.openPiece (s : Scanner) : Option Piece :=
  match s.contexts.top with
  | .slashLookahead start => some ⟨start, ['/']⟩
  | _ => s.draft.map Draft.piece

/-- The character that an event of a trace reads, and its position. -/
def TraceEvent.read? : TraceEvent → Option (Char × Position)
  | .charRead c position => some (c, position)
  | _ => none

/-- The token that an event of a trace hands over. -/
def TraceEvent.token? : TraceEvent → Option Token
  | .tokenEnd kind text position => some ⟨kind, text, position⟩
  | _ => none

/-- A trace reports every token that is handed over. -/
theorem filterMap_token?_traceOf (es : List Event) :
    (traceOf es).filterMap TraceEvent.token? = tokensOf es := by
  rw [traceOf, tokensOf, List.filterMap_filterMap]
  congr 1
  funext e
  cases e <;> rfl

/-- The kind that a token is begun with.  Whether its line ends inside a string shows only later. -/
def Kind.opening : Kind → Kind
  | .unterminated quote => .string quote
  | kind => kind

namespace Phase

/-- The open piece of a phase. -/
def piece : Phase → Option Piece
  | .between => none
  | .slash start => some ⟨start, ['/']⟩
  | .blanks start text => some ⟨start, text⟩
  | .block start body => some ⟨start, '/' :: '*' :: body⟩
  | .line start body => some ⟨start, '/' :: '/' :: body⟩
  | .string quote start body => some ⟨start, quote.char :: body⟩

/-- What a trace has reported of the open piece: its beginning, unless it is a slash. -/
def opened (p : Phase) : List TraceEvent :=
  (p.draft.map fun d => TraceEvent.tokenStart d.kind d.start).toList

theorem openPiece_scanner (p : Phase) (tracker : Tracker) (events : Array Event) :
    (p.scanner tracker events).openPiece = p.piece := by
  cases p <;>
    simp [scanner, Scanner.openPiece, contexts, draft, piece, ContextStack.top, Draft.piece]

/-- A piece of which nothing has been reported is one character long. -/
theorem length_of_opened_eq_nil {p : Phase} {piece : Piece} (hp : p.piece = some piece)
    (h : p.opened = []) : piece.text.length = 1 := by
  cases p with
  | slash start =>
    cases hp
    rfl
  | between => cases hp
  | blanks _ _ | block _ _ | line _ _ | string _ _ _ => cases h

/-- What `c`, which stands at `here`, does where nothing is open. -/
inductive Begins (here : Position) (c : Char) : List TraceEvent → Phase → Prop where
  /-- It begins a piece. -/
  | opens {q : Phase} (hq : q.piece = some ⟨here, [c]⟩) : Begins here c q.opened q
  /-- It is a token. -/
  | single : Begins here c
      [.tokenStart .identifier here, .tokenEnd .identifier (String.ofList [c]) here] .between

/-- What a trace reports when the open piece of `p` ends before the next character or at the end
of the input. -/
inductive Ends (p : Phase) : List TraceEvent → Prop where
  | intro (kind : Kind) {piece : Piece} {T : List TraceEvent} (hp : p.piece = some piece)
    (hT : p.opened ++ T = [.tokenStart kind.opening piece.start]) :
    Ends p (T ++ [.tokenEnd kind (String.ofList piece.text) piece.start])

/-- What `c`, which stands at `here`, does in the phase `p`. -/
inductive Reads (here : Position) (c : Char) (p : Phase) : List TraceEvent → Phase → Prop where
  /-- Nothing is open. -/
  | begins {T : List TraceEvent} {q : Phase} (hp : p.piece = none) (h : Begins here c T q) :
    Reads here c p T q
  /-- The piece goes on. -/
  | continues {T : List TraceEvent} {q : Phase} {piece : Piece} (hp : p.piece = some piece)
    (hq : q.piece = some ⟨piece.start, piece.text ++ [c]⟩) (hT : p.opened ++ T = q.opened) :
    Reads here c p T q
  /-- The piece ends with `c`. -/
  | completes (kind : Kind) {piece : Piece} (hp : p.piece = some piece)
    (ho : p.opened = [.tokenStart kind.opening piece.start]) :
    Reads here c p [.tokenEnd kind (String.ofList (piece.text ++ [c])) piece.start] .between
  /-- The piece ends before `c`. -/
  | precedes {E T : List TraceEvent} {q : Phase} (hE : Ends p E) (h : Begins here c T q) :
    Reads here c p (E ++ T) q

theorem read?_eq_none_of_mem_opened (p : Phase) : ∀ e ∈ p.opened, e.read? = none := by
  cases p <;> simp [opened, draft, TraceEvent.read?]

section Reading

variable (here : Position) (c : Char)

theorem begins_readGeneral :
    Begins here c (traceOf (between.readGeneral here c).1) (between.readGeneral here c).2 := by
  unfold readGeneral
  cases hq : Quote.ofChar? c with
  | some quote =>
    obtain rfl := Quote.ofChar?_eq_some_iff.mp hq
    exact .opens (q := .string quote here []) rfl
  | none =>
    by_cases hs : c = '/'
    · subst hs
      exact .opens (q := .slash here) rfl
    by_cases hb : isBlank c
    · simp only [hs, hb, if_true, if_false]
      exact .opens (q := .blanks here [c]) rfl
    · simp only [hs, hb, if_false]
      exact .single

/-- A character does one of the four. -/
theorem reads_read (p : Phase) (spot : Placement) :
    Reads spot.position c p (traceOf (p.read spot c).1) (p.read spot c).2 := by
  cases p with
  | between => exact .begins rfl (begins_readGeneral _ c)
  | blanks start text =>
    simp only [read]
    cases hb : isBlank c with
    | true =>
      rw [Progress.readGeneral_of_isBlank _ _ hb]
      exact .continues rfl rfl rfl
    | false =>
      rw [Progress.readGeneral_blanks _ _ _ hb]
      exact .precedes (.intro .whitespace (p := .blanks start text) (T := []) rfl rfl)
        (begins_readGeneral _ c)
  | slash start =>
    simp only [read, readSlash]
    by_cases hs : c = '*'
    · subst hs
      exact .continues rfl rfl rfl
    by_cases hd : c = '/'
    · subst hd
      exact .continues rfl rfl rfl
    · simp only [hs, hd, if_false]
      exact .precedes (.intro .slash (p := .slash start) (T := [_]) rfl rfl)
        (begins_readGeneral _ c)
  | block start body =>
    simp only [read]
    split
    · exact .completes .multiLineComment (p := .block start body) rfl rfl
    · exact .continues rfl rfl rfl
  | line start body =>
    simp only [read]
    split
    · exact .precedes (.intro .singleLineComment (p := .line start body) (T := []) rfl rfl)
        (begins_readGeneral _ c)
    · split
      · exact .completes .singleLineComment (p := .line start body) rfl rfl
      · exact .continues rfl rfl rfl
  | string quote start body =>
    simp only [read]
    split
    · exact .continues rfl rfl rfl
    split
    · exact .completes (.unterminated quote) (p := .string quote start body) rfl rfl
    split
    · exact .completes (.string quote) (p := .string quote start body) rfl rfl
    · exact .continues rfl rfl rfl

end Reading

variable {here : Position} {c : Char} {p q : Phase} {T : List TraceEvent}

theorem Begins.read?_eq_none (h : Begins here c T q) : ∀ e ∈ T, e.read? = none := by
  cases h with
  | opens hq => exact read?_eq_none_of_mem_opened q
  | single => simp [TraceEvent.read?]

theorem Ends.read?_eq_none (h : Ends p T) : ∀ e ∈ T, e.read? = none := by
  obtain ⟨kind, hp, hT⟩ := h
  intro e he
  rcases List.mem_append.mp he with he | he
  · have hopening := List.mem_append_right p.opened he
    rw [hT, List.mem_singleton] at hopening
    rw [hopening]
    rfl
  · rw [List.mem_singleton.mp he]
    rfl

/-- A phase reports no further character. -/
theorem Reads.read?_eq_none (h : Reads here c p T q) : ∀ e ∈ T, e.read? = none := by
  cases h with
  | begins hp h => exact h.read?_eq_none
  | continues hp hq hT =>
    intro e he
    exact read?_eq_none_of_mem_opened q e (hT ▸ List.mem_append_right _ he)
  | completes kind hp ho => simp [TraceEvent.read?]
  | precedes hE h =>
    intro e he
    rcases List.mem_append.mp he with he | he
    · exact hE.read?_eq_none e he
    · exact h.read?_eq_none e he

end Phase

namespace Progress

/-- A step reports the character that it reads, and then what its phase does with it. -/
theorem traceOf_step (x : Progress) (c : Char) :
    traceOf (x.step c).1 = .charRead c x.tracker.next ::
      traceOf (x.phase.read (x.tracker.place c) c).1 := by
  simp [step, Event.trace?]

/-- A run reads the characters of its text, each at its position. -/
theorem reads_run (x : Progress) (cs : List Char) :
    (traceOf (x.run cs).1).filterMap TraceEvent.read? =
      cs.zip ((x.tracker.placements cs).map Placement.position) := by
  induction cs generalizing x with
  | nil => rfl
  | cons c cs ih =>
    have hphase := (Phase.reads_read c x.phase (x.tracker.place c)).read?_eq_none
    rw [run_cons, traceOf_append, traceOf_step, List.cons_append, List.filterMap_cons,
      List.filterMap_append, List.filterMap_eq_nil_iff.mpr hphase, ih]
    rfl

/-- The end of the input reads no character. -/
theorem reads_flush (x : Progress) : (traceOf x.flush).filterMap TraceEvent.read? = [] := by
  obtain ⟨tracker, phase⟩ := x
  cases phase <;> rfl

end Progress

end StyleScan
