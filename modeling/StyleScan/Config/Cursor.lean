import StyleScan.Config.Issue

/-! # Reading positions

A cursor is what is left of a configuration text, with the mark of its first character.  Issues
are noticed either at the cursor or one byte further, after the byte that is wrong. -/

namespace StyleScan.Config

namespace Mark

/-- The mark after a character. -/
def after (m : Mark) (c : Char) : Mark :=
  if c = '\n' then ⟨m.line + 1, 0⟩ else ⟨m.line, m.column + c.utf8Size⟩

/-- The mark after the first bytes of a text, which may lie inside a character, or after the whole
text if it is shorter. -/
def afterBytes (m : Mark) : Nat → List Char → Mark
  | _, [] => m
  | n, c :: cs =>
    if n = 0 then m
    else if c.utf8Size ≤ n then afterBytes (m.after c) (n - c.utf8Size) cs
    else ⟨m.line, m.column + n⟩

end Mark

/-- What is left of a text, and where it begins. -/
structure Cursor where
  rest : List Char
  mark : Mark
deriving Repr, DecidableEq, Inhabited

namespace Cursor

/-- The cursor at the beginning of a text. -/
def ofString (text : String) : Cursor :=
  ⟨text.toList, ⟨1, 0⟩⟩

/-- Moves over one character. -/
def advance (c : Cursor) : Cursor :=
  match c.rest with
  | [] => c
  | x :: rest => ⟨rest, c.mark.after x⟩

/-- Moves over `n` characters. -/
def skip (c : Cursor) : Nat → Cursor
  | 0 => c
  | n + 1 => c.advance.skip n

/-- Space, tab, line feed and carriage return. -/
def isBlank (c : Char) : Bool :=
  c = ' ' || c = '\t' || c = '\n' || c = '\r'

/-- The cursor after the blanks that `rest` begins with. -/
def afterBlanks (m : Mark) : List Char → Cursor
  | [] => ⟨[], m⟩
  | x :: rest => if isBlank x then afterBlanks (m.after x) rest else ⟨x :: rest, m⟩

/-- Moves over blanks. -/
def skipBlanks (c : Cursor) : Cursor :=
  afterBlanks c.mark c.rest

/-- The mark after the next byte, or at the end of the text. -/
def ahead (c : Cursor) : Mark :=
  c.mark.afterBytes 1 c.rest

/-- The mark at the end of the text. -/
def ending (c : Cursor) : Mark :=
  c.rest.foldl Mark.after c.mark

/-- An issue at the cursor. -/
def fail {α : Type} (c : Cursor) (issue : Issue) : Except ConfigError α :=
  .error ⟨issue, c.mark⟩

/-- An issue with the next byte. -/
def failAhead {α : Type} (c : Cursor) (issue : Issue) : Except ConfigError α :=
  .error ⟨issue, c.ahead⟩

/-- The decimal digits at the cursor, and the cursor after them. -/
def digits (c : Cursor) : List Char × Cursor :=
  let ds := c.rest.takeWhile Char.isDigit
  (ds, c.skip ds.length)

/-- Reads a word. -/
def word (c : Cursor) : List Char → Except ConfigError Cursor
  | [] => .ok c
  | expected :: others =>
    match c.rest with
    | [] => c.fail (.unexpectedEnd .value)
    | x :: _ => if x = expected then c.advance.word others else c.failAhead .expectedIdent

theorem length_advance_le (c : Cursor) : c.advance.rest.length ≤ c.rest.length := by
  unfold advance
  split
  · exact Nat.le_refl _
  next h => simp [h]

theorem length_skip_le (c : Cursor) (n : Nat) : (c.skip n).rest.length ≤ c.rest.length := by
  induction n generalizing c with
  | zero => exact Nat.le_refl _
  | succ n ih => exact Nat.le_trans (ih c.advance) c.length_advance_le

end Cursor

end StyleScan.Config
