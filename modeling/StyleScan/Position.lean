import StyleScan.Text.Outline

/-! # Positions in a style sheet

Lines and columns count from zero.  A column counts characters since the line began, an offset
counts the bytes of the UTF-8 encoding since the input began.

A line feed and a form feed each end a line.  A carriage return ends the line at once, and a line
feed directly after it belongs to the same line break: it starts the column over without ending
another line.  The tracker therefore remembers, besides the next position, whether the last
character was a carriage return. -/

namespace StyleScan

/-- A place in the input. -/
structure Position where
  line : Nat
  column : Nat
  /-- Bytes of UTF-8 before this place. -/
  offset : Nat
deriving Repr, DecidableEq, Inhabited

namespace Position

/-- The start of the input. -/
def start : Position :=
  ⟨0, 0, 0⟩

/-- A position as a reader of the input names it. -/
def text (p : Position) : String :=
  toString p.line ++ ":" ++ toString p.column

instance : ToString Position :=
  ⟨text⟩

/-- The diagnostic form of a position. -/
def outline (p : Position) : Text.Outline :=
  .record "Position"
    [("line", .ofNat p.line), ("column", .ofNat p.column), ("offset", .ofNat p.offset)]

end Position

/-- Space, tab, carriage return, line feed and form feed. -/
def isBlank (c : Char) : Bool :=
  c = ' ' || c = '\t' || c = '\r' || c = '\n' || c = '\x0c'

/-- The part that a character has in breaking lines. -/
inductive LineBreak where
  /-- The character breaks no line. -/
  | none
  /-- A carriage return: the line is over, but a line feed may still belong to the break. -/
  | carriageReturn
  /-- A line feed or form feed that ends a line on its own. -/
  | lineFeed
  /-- A line feed that belongs to the carriage return before it. -/
  | pairedLineFeed
deriving Repr, DecidableEq, Inhabited

namespace LineBreak

/-- The part of `c`, given whether the character before it is a carriage return. -/
def of (afterReturn : Bool) (c : Char) : LineBreak :=
  if c = '\n' then if afterReturn then .pairedLineFeed else .lineFeed
  else if c = '\x0c' then .lineFeed
  else if c = '\r' then .carriageReturn
  else .none

/-- Whether the break cannot grow any more.  A carriage return still waits for a line feed. -/
def isComplete : LineBreak → Bool
  | .lineFeed | .pairedLineFeed => true
  | .none | .carriageReturn => false

/-- The name of a line break in diagnostics. -/
def name : LineBreak → String
  | .none => "None"
  | .carriageReturn => "CarriageReturn"
  | .lineFeed => "LineFeed"
  | .pairedLineFeed => "PairedLineFeed"

end LineBreak

/-- The position after the character `c`, which stands at `p` and has the part `b`. -/
def Position.after (p : Position) (b : LineBreak) (c : Char) : Position :=
  match b with
  | .none => ⟨p.line, p.column + 1, p.offset + c.utf8Size⟩
  | .pairedLineFeed => ⟨p.line, 0, p.offset + c.utf8Size⟩
  | .carriageReturn | .lineFeed => ⟨p.line + 1, 0, p.offset + c.utf8Size⟩

/-- Where a character stands and how it takes part in line breaking. -/
structure Placement where
  position : Position
  lineBreak : LineBreak
  /-- The character before is a carriage return. -/
  afterReturn : Bool
deriving Repr, DecidableEq, Inhabited

/-- Knows the position of the next character. -/
structure Tracker where
  next : Position
  /-- The last character was a carriage return. -/
  afterReturn : Bool
deriving Repr, DecidableEq, Inhabited

namespace Tracker

/-- The tracker at the start of the input. -/
def start : Tracker :=
  ⟨.start, false⟩

/-- The placement of the next character, if it is `c`. -/
def place (t : Tracker) (c : Char) : Placement :=
  ⟨t.next, .of t.afterReturn c, t.afterReturn⟩

/-- The tracker once `c` has been read. -/
def advance (t : Tracker) (c : Char) : Tracker :=
  ⟨t.next.after (.of t.afterReturn c) c, c = '\r'⟩

/-- The diagnostic form of a tracker. -/
def outline (t : Tracker) : Text.Outline :=
  .record "PositionTracker" [("next", t.next.outline), ("cr_pending", .ofBool t.afterReturn)]

end Tracker

end StyleScan
