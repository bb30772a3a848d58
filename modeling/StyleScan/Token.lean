import StyleScan.Position
import StyleScan.Text.Json

/-! # Tokens

A token is a classified piece of the input with the position of its first character.  Its text is
exactly what was read, delimiters and escapes included, so that the texts of all tokens make up the
input. -/

namespace StyleScan

open Text (Outline)

/-- The quotation mark of a string token. -/
inductive Quote where
  | single
  | double
deriving Repr, DecidableEq, Inhabited

/-- The class of a token. -/
inductive Kind where
  /-- A run of blanks. -/
  | whitespace
  /-- A character with no meaning of its own to the scanner. -/
  | identifier
  /-- A comment between `/*` and `*/`. -/
  | multiLineComment
  /-- A comment from `//` to the end of its line. -/
  | singleLineComment
  /-- A slash that opens no comment. -/
  | slash
  /-- A string that ends with its quotation mark or with the input. -/
  | string (quote : Quote)
  /-- A string cut off by the end of its line. -/
  | unterminated (quote : Quote)
deriving Repr, DecidableEq, Inhabited

namespace Kind

/-- The short name of a kind. -/
def name : Kind → String
  | .whitespace => "S"
  | .identifier => "IDENT"
  | .multiLineComment => "COMMENT_ML"
  | .singleLineComment => "COMMENT_SL"
  | .slash => "SLASH"
  | .string .single => "STRING_SQ"
  | .unterminated .single => "UNTERMINATED_SQ"
  | .string .double => "STRING_DQ"
  | .unterminated .double => "UNTERMINATED_DQ"

instance : ToString Kind :=
  ⟨name⟩

/-- The long name of a kind, for diagnostics. -/
def longName : Kind → String
  | .whitespace => "Whitespace"
  | .identifier => "Identifier"
  | .multiLineComment => "MultiLineComment"
  | .singleLineComment => "SingleLineComment"
  | .slash => "Slash"
  | .string .single => "SingleQuotedString"
  | .unterminated .single => "UnterminatedSingleQuotedString"
  | .string .double => "DoubleQuotedString"
  | .unterminated .double => "UnterminatedDoubleQuotedString"

/-- The kinds, each once. -/
def all : List Kind :=
  [.whitespace, .identifier, .multiLineComment, .singleLineComment, .slash, .string .single,
    .unterminated .single, .string .double, .unterminated .double]

/-- The kind with the given short name. -/
def ofName? (s : String) : Option Kind :=
  all.find? (·.name == s)

/-- Comments of either form. -/
def isComment : Kind → Bool
  | .multiLineComment | .singleLineComment => true
  | _ => false

/-- Strings, cut off or not. -/
def isString : Kind → Bool
  | .string _ | .unterminated _ => true
  | _ => false

/-- Strings cut off by the end of their line. -/
def isUnterminated : Kind → Bool
  | .unterminated _ => true
  | _ => false

/-- The diagnostic form of a kind. -/
def outline (k : Kind) : Outline :=
  .scalar k.longName

end Kind

namespace Quote

/-- The quotation mark that `c` is, if it is one. -/
def ofChar? (c : Char) : Option Quote :=
  if c = Text.charMark then some .single
  else if c = Text.stringMark then some .double
  else none

/-- The character that opens and closes a string. -/
def char : Quote → Char
  | .single => Text.charMark
  | .double => Text.stringMark

/-- The kind of a string with this mark. -/
def kind (q : Quote) : Kind :=
  .string q

/-- The kind of a string with this mark that the end of its line cut off. -/
def unterminatedKind (q : Quote) : Kind :=
  .unterminated q

/-- The name of a quotation mark in diagnostics. -/
def name : Quote → String
  | .single => "Single"
  | .double => "Double"

theorem ofChar?_eq_some_iff {c : Char} {q : Quote} : ofChar? c = some q ↔ c = q.char := by
  by_cases hs : c = Text.charMark
  · cases q <;> simp [ofChar?, char, hs, Text.charMark, Text.stringMark]
  · by_cases hd : c = Text.stringMark <;> cases q <;> simp [ofChar?, char, hs, hd]
    simp [Text.charMark, Text.stringMark]

end Quote

/-- A classified piece of the input. -/
structure Token where
  kind : Kind
  /-- Exactly what was read. -/
  text : String
  /-- The position of the first character. -/
  start : Position
deriving Repr, DecidableEq, Inhabited

namespace Token

/-- The line of a token's first character. -/
def line (t : Token) : Nat :=
  t.start.line

/-- The column of a token's first character. -/
def column (t : Token) : Nat :=
  t.start.column

/-- A token on one line: its position, its kind and its quoted text. -/
def display (shown : Char → Bool) (t : Token) : String :=
  t.start.text ++ " " ++ t.kind.name ++ " " ++ Text.quoted shown t.text

/-- A token as a compact JSON object. -/
def json (t : Token) : String :=
  "\x7b\"kind\":" ++ Text.Json.quoted t.kind.name ++ ",\"text\":" ++ Text.Json.quoted t.text ++
    ",\"line\":" ++ toString t.start.line ++ ",\"column\":" ++ toString t.start.column ++
    ",\"offset\":" ++ toString t.start.offset ++ "\x7d"

/-- The diagnostic form of a token. -/
def outline (t : Token) : Outline :=
  .record "Token"
    [("kind", t.kind.outline), ("text", .ofString t.text), ("start", t.start.outline)]

end Token

/-- A token that is still being read. -/
structure Draft where
  kind : Kind
  /-- The position of the first character. -/
  start : Position
  /-- What has been read so far. -/
  text : String
deriving Repr, DecidableEq, Inhabited

namespace Draft

/-- A draft of one character. -/
def ofChar (kind : Kind) (start : Position) (c : Char) : Draft :=
  ⟨kind, start, String.singleton c⟩

/-- Appends a character. -/
def push (d : Draft) (c : Char) : Draft :=
  { d with text := d.text.push c }

/-- Changes the kind. -/
def reclassify (d : Draft) (kind : Kind) : Draft :=
  { d with kind := kind }

/-- The finished token. -/
def finish (d : Draft) : Token :=
  ⟨d.kind, d.text, d.start⟩

/-- The diagnostic form of a draft. -/
def outline (d : Draft) : Outline :=
  .record "TokenBuilder"
    [("kind", d.kind.outline), ("start", d.start.outline), ("text", .ofString d.text)]

end Draft

end StyleScan
