import StyleScan.Proofs.Actions

/-! # Phases of the scanner

Between two characters the scanner holds either nothing or one open piece of the input: a run of
blanks, a slash, a comment or a string.  A phase names that piece, its first position and what has
been read of it.  The stack of contexts, the draft and their flags are all functions of the phase,
and a phase reads a character without any failure.  `read_scanner` and `flush_scanner` say that the
scanner does exactly what its phase does, so that no character ever breaks it.

## Implementation notes

The two flags of the contexts are computed from the text here: a star waits for the end of a
comment if it is the last character of the body, and an escape waits in a string if the backslashes
at the end of the body do not escape one another.  That the scanner keeps its flags up to date is
part of `read_scanner`. -/

namespace StyleScan

/-- What the scanner holds between two characters. -/
inductive Phase where
  /-- Nothing is open. -/
  | between
  /-- A run of blanks. -/
  | blanks (start : Position) (text : List Char)
  /-- A slash, of which the next character decides what it opens. -/
  | slash (start : Position)
  /-- A comment that `*/` ends, and what follows its opening. -/
  | block (start : Position) (body : List Char)
  /-- A comment that the end of its line ends, and what follows its opening. -/
  | line (start : Position) (body : List Char)
  /-- A string, and what follows its opening mark. -/
  | string (quote : Quote) (start : Position) (body : List Char)
deriving Repr, DecidableEq, Inhabited

/-- Carriage return, line feed and form feed. -/
def breaksLine (c : Char) : Bool :=
  c = '\r' || c = '\n' || c = '\x0c'

/-- A star may begin the end of the comment. -/
def starred (body : List Char) : Bool :=
  body.getLast? = some '*'

/-- A backslash that is not escaped itself waits for the character that it escapes. -/
def escaping (body : List Char) : Bool :=
  body.foldl (fun waits c => c = '\\' && !waits) false

@[simp] theorem starred_nil : starred [] = false := rfl

@[simp] theorem starred_append (body : List Char) (c : Char) :
    starred (body ++ [c]) = decide (c = '*') := by
  simp [starred]

@[simp] theorem escaping_nil : escaping [] = false := rfl

@[simp] theorem escaping_append (body : List Char) (c : Char) :
    escaping (body ++ [c]) = (c = '\\' && !escaping body) := by
  simp [escaping]

namespace Phase

/-- What has been read of the open piece, delimiters included. -/
def text : Phase → List Char
  | .between => []
  | .blanks _ text => text
  | .slash _ => ['/']
  | .block _ body => '/' :: '*' :: body
  | .line _ body => '/' :: '/' :: body
  | .string quote _ body => quote.char :: body

/-- The contexts above the general one. -/
def contexts : Phase → List Context
  | .between => []
  | .blanks _ _ => []
  | .slash start => [.slashLookahead start]
  | .block _ body => [.multiLineComment (starred body)]
  | .line _ _ => [.singleLineComment]
  | .string quote _ body => [.string quote (escaping body)]

/-- The token that is being read. -/
def draft : Phase → Option Draft
  | .between => none
  | .blanks start text => some (.ofList .whitespace start text)
  | .slash _ => none
  | .block start body => some (.ofList .multiLineComment start ('/' :: '*' :: body))
  | .line start body => some (.ofList .singleLineComment start ('/' :: '/' :: body))
  | .string quote start body => some (.ofList (.string quote) start (quote.char :: body))

/-- The scanner in a phase. -/
def scanner (p : Phase) (tracker : Tracker) (events : Array Event) : Scanner :=
  ⟨tracker, ⟨p.contexts⟩, p.draft, events⟩

/-- The end of a run of blanks, if one is open. -/
def closing : Phase → List Event
  | .blanks start text => [.produced (.ofList .whitespace start text)]
  | _ => []

/-- The run of blanks, open already or not, with one more blank, which stands at `here`. -/
def blank (p : Phase) (here : Position) (c : Char) : List Event × Phase :=
  match p with
  | .blanks start text => ([], .blanks start (text ++ [c]))
  | _ => ([.started .whitespace here], .blanks here [c])

/-- What `c`, which stands at `here`, begins or continues between tokens or in a run of blanks. -/
def readGeneral (p : Phase) (here : Position) (c : Char) : List Event × Phase :=
  match Quote.ofChar? c with
  | some quote =>
    (p.closing ++ [.started quote.kind here, .entered (.string quote false) here],
      .string quote here [])
  | none =>
    if c = '/' then (p.closing ++ [.entered (.slashLookahead here) here], .slash here)
    else if isBlank c then p.blank here c
    else
      (p.closing ++ [.started .identifier here, .produced (.ofList .identifier here [c])],
        .between)

/-- What `c`, which stands at `here`, makes of the slash at `start`. -/
def readSlash (start here : Position) (c : Char) : List Event × Phase :=
  if c = '*' then
    ([.started .multiLineComment start, .entered (.multiLineComment false) here], .block start [])
  else if c = '/' then
    ([.started .singleLineComment start, .entered .singleLineComment here], .line start [])
  else
    let (events, p) := between.readGeneral here c
    (.started .slash start :: .produced (.ofList .slash start ['/']) :: events, p)

/-- The events of one placed character, and the phase after it. -/
def read (spot : Placement) (c : Char) : Phase → List Event × Phase
  | .between => between.readGeneral spot.position c
  | .blanks start text => (blanks start text).readGeneral spot.position c
  | .slash start =>
    let (events, p) := readSlash start spot.position c
    (.left (.slashLookahead start) spot.position :: events, p)
  | .block start body =>
    if starred body && c = '/' then
      ([.left (.multiLineComment (starred body)) spot.position,
        .produced (.ofList .multiLineComment start ('/' :: '*' :: (body ++ [c])))], .between)
    else ([], .block start (body ++ [c]))
  | .line start body =>
    let left : Event := .left .singleLineComment spot.position
    if spot.afterReturn && spot.lineBreak ≠ .pairedLineFeed then
      let (events, p) := between.readGeneral spot.position c
      (left :: .produced (.ofList .singleLineComment start ('/' :: '/' :: body)) :: events, p)
    else if spot.lineBreak.isComplete then
      ([left, .produced (.ofList .singleLineComment start ('/' :: '/' :: (body ++ [c])))],
        .between)
    else ([], .line start (body ++ [c]))
  | .string quote start body =>
    let left : Event := .left (.string quote (escaping body)) spot.position
    if escaping body || c = '\\' then ([], .string quote start (body ++ [c]))
    else if breaksLine c then
      ([left, .produced (.ofList (.unterminated quote) start (quote.char :: (body ++ [c])))],
        .between)
    else if c = quote.char then
      ([left, .produced (.ofList (.string quote) start (quote.char :: (body ++ [c])))], .between)
    else ([], .string quote start (body ++ [c]))

variable (tracker : Tracker) (events : Array Event)

attribute [local simp] scanner contexts draft closing

theorem readGeneral_scanner (p : Phase) (h : p.contexts = []) (here : Position) (c : Char) :
    (p.scanner tracker events).readGeneral here c =
      .ok ((p.readGeneral here c).2.scanner tracker (events ++ (p.readGeneral here c).1)) := by
  unfold Scanner.readGeneral Phase.readGeneral
  cases hq : Quote.ofChar? c with
  | some quote =>
    obtain rfl := Quote.ofChar?_eq_some_iff.mp hq
    cases p <;> cases h
    all_goals simp
  | none =>
    by_cases hs : c = '/'
    · cases p <;> cases h
      all_goals simp [hs]
    by_cases hb : isBlank c
    · cases p <;> cases h
      all_goals simp [hs, hb, blank]
    · cases p <;> cases h
      all_goals simp [hs, hb]

theorem readSlash_scanner (spot : Placement) (start : Position) (c : Char) :
    Scanner.readIn spot c [.slashLookahead start] ((slash start).scanner tracker events) =
      .ok (((slash start).read spot c).2.scanner tracker
        (events ++ ((slash start).read spot c).1)) := by
  simp only [Scanner.readIn, read, readSlash]
  by_cases hs : c = '*'
  · simp [hs, Draft.blockOpening_eq_ofList]
  by_cases hd : c = '/'
  · simp [hd, Draft.lineOpening_eq_ofList]
  · have h := fun more => readGeneral_scanner tracker more .between rfl spot.position c
    simp only [scanner, contexts, draft] at h
    simp [hs, hd, h]

theorem readBlock_scanner (spot : Placement) (start : Position) (body : List Char) (c : Char) :
    Scanner.readMultiLineComment ((block start body).scanner tracker events) spot.position c
        (starred body) =
      .ok (((block start body).read spot c).2.scanner tracker
        (events ++ ((block start body).read spot c).1)) := by
  simp only [Scanner.readMultiLineComment, read]
  by_cases he : starred body && c = '/'
  · simp [he]
  · simp [he]

theorem readLine_scanner (spot : Placement) (start : Position) (body : List Char) (c : Char) :
    Scanner.readIn spot c [.singleLineComment] ((line start body).scanner tracker events) =
      .ok (((line start body).read spot c).2.scanner tracker
        (events ++ ((line start body).read spot c).1)) := by
  simp only [Scanner.readIn, read, Scanner.readSingleLineComment]
  cases hr : spot.afterReturn && spot.lineBreak ≠ .pairedLineFeed with
  | true =>
    have h := fun more => readGeneral_scanner tracker more .between rfl spot.position c
    simp only [scanner, contexts, draft] at h
    simp [h]
  | false =>
    by_cases hl : spot.lineBreak.isComplete
    · simp [hl]
    · simp [hl]

theorem readString_scanner (spot : Placement) (quote : Quote) (start : Position)
    (body : List Char) (c : Char) :
    Scanner.readString ((string quote start body).scanner tracker events) spot.position c quote
        (escaping body) =
      .ok (((string quote start body).read spot c).2.scanner tracker
        (events ++ ((string quote start body).read spot c).1)) := by
  simp only [Scanner.readString, read, breaksLine]
  cases he : escaping body with
  | true => simp [he]
  | false =>
    by_cases hb : c = '\\'
    · simp [he, hb]
    by_cases hl : c = '\r' || c = '\n' || c = '\x0c'
    · simp [he, hb, hl]
    by_cases hq : c = quote.char
    · subst hq
      simp [he, hb, hl]
    · simp [he, hb, hl, hq]

/-- The scanner reads a placed character as its phase does. -/
theorem readIn_scanner (p : Phase) (spot : Placement) (c : Char) :
    Scanner.readIn spot c p.contexts (p.scanner tracker events) =
      .ok ((p.read spot c).2.scanner tracker (events ++ (p.read spot c).1)) := by
  cases p with
  | between => exact readGeneral_scanner tracker events _ rfl _ _
  | blanks start text => exact readGeneral_scanner tracker events _ rfl _ _
  | slash start => exact readSlash_scanner tracker events spot start c
  | block start body => exact readBlock_scanner tracker events spot start body c
  | line start body => exact readLine_scanner tracker events spot start body c
  | string quote start body => exact readString_scanner tracker events spot quote start body c

end Phase

end StyleScan
