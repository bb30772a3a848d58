import StyleScan.Decimal.Layout
import StyleScan.Text.Outline

/-! # What can be wrong with a configuration file

Every issue has a wording and belongs to one of three categories: the text is not JSON, it does
not describe a configuration, or it ends too early. -/

namespace StyleScan.Config

/-- What the text ends in the middle of. -/
inductive Unfinished where
  | value
  | string
  | object
  | list
deriving Repr, DecidableEq, Inhabited

/-- The noun for what is unfinished. -/
def Unfinished.name : Unfinished → String
  | .value => "a value"
  | .string => "a string"
  | .object => "an object"
  | .list => "a list"

/-- A value that stands where another one is wanted. -/
inductive Found where
  | null
  | bool (b : Bool)
  | integer (n : Int)
  | float (f : Float)
  | string (s : String)
  | sequence
  | map
deriving Repr, Inhabited

/-- Numbers that are no integers are written with the fewest digits that identify them,
positionally from `0.00001` to below `10^16`, otherwise with a signed exponent. -/
def numberLayout : Decimal.Layout :=
  ⟨-5, 15⟩

namespace Found

/-- Text between grave accents. -/
def marked (s : String) : String :=
  "\x60" ++ s ++ "\x60"

/-- The value as a message describes it. -/
def describe : Found → String
  | .null => "null"
  | .bool b => "boolean " ++ marked (if b then "true" else "false")
  | .integer n => "integer " ++ marked (toString n)
  | .float f => "floating point " ++ marked (numberLayout.float f)
  | .string s => "string " ++ Text.quoted Text.isShown s
  | .sequence => "sequence"
  | .map => "map"

end Found

/-- The names to choose from, as a message lists them. -/
def choices : List String → String
  | [] => "there are no fields"
  | [a] => Found.marked a
  | [a, b] => Found.marked a ++ " or " ++ Found.marked b
  | names => "one of " ++ ", ".intercalate (names.map Found.marked)

/-- What is wrong. -/
inductive Issue where
  | unexpectedEnd (inside : Unfinished)
  | expectedValue
  | expectedIdent
  | expectedColon
  | expectedCommaOrBrace
  | expectedCommaOrBracket
  | keyNotString
  | trailingComma
  | trailingCharacters
  | invalidNumber
  | numberOutOfRange
  | controlCharacter
  | invalidEscape
  | loneSurrogate
  | unexpectedEndOfEscape
  | unknownField (name : String) (known : List String)
  | duplicateField (name : String)
  | unknownVariant (name : String) (known : List String)
  | invalidType (found : Found) (expected : String)
  | invalidValue (found : Found) (expected : String)
deriving Repr, Inhabited

/-- The kinds of issues. -/
inductive Category where
  /-- The text is not JSON. -/
  | malformed
  /-- The text describes no configuration. -/
  | unsuitable
  /-- The text ends too early. -/
  | incomplete
deriving Repr, DecidableEq, Inhabited

namespace Issue

/-- The category of an issue. -/
def category : Issue → Category
  | .unexpectedEnd _ => .incomplete
  | .unknownField _ _ | .duplicateField _ | .unknownVariant _ _ | .invalidType _ _
  | .invalidValue _ _ => .unsuitable
  | _ => .malformed

/-- The wording of an issue. -/
def wording : Issue → String
  | .unexpectedEnd inside => "EOF while parsing " ++ inside.name
  | .expectedValue => "expected value"
  | .expectedIdent => "expected ident"
  | .expectedColon => "expected " ++ Found.marked ":"
  | .expectedCommaOrBrace => "expected " ++ Found.marked "," ++ " or " ++ Found.marked "\x7d"
  | .expectedCommaOrBracket => "expected " ++ Found.marked "," ++ " or " ++ Found.marked "]"
  | .keyNotString => "key must be a string"
  | .trailingComma => "trailing comma"
  | .trailingCharacters => "trailing characters"
  | .invalidNumber => "invalid number"
  | .numberOutOfRange => "number out of range"
  | .controlCharacter => "control character (\\u0000-\\u001F) found while parsing a string"
  | .invalidEscape => "invalid escape"
  | .loneSurrogate => "lone leading surrogate in hex escape"
  | .unexpectedEndOfEscape => "unexpected end of hex escape"
  | .unknownField name known =>
    "unknown field " ++ Found.marked name ++ ", expected " ++ choices known
  | .duplicateField name => "duplicate field " ++ Found.marked name
  | .unknownVariant name known =>
    "unknown variant " ++ Found.marked name ++ ", expected " ++ choices known
  | .invalidType found expected =>
    "invalid type: " ++ found.describe ++ ", expected " ++ expected
  | .invalidValue found expected =>
    "invalid value: " ++ found.describe ++ ", expected " ++ expected

end Issue

/-- A place in a configuration text: lines count from 1, columns are bytes since the line began. -/
structure Mark where
  line : Nat
  column : Nat
deriving Repr, DecidableEq, Inhabited

/-- An issue and where it was noticed. -/
structure ConfigError where
  issue : Issue
  mark : Mark
deriving Repr, Inhabited

namespace ConfigError

/-- The category of an error. -/
def category (e : ConfigError) : Category :=
  e.issue.category

/-- The error as a message. -/
def message (e : ConfigError) : String :=
  e.issue.wording ++ " at line " ++ toString e.mark.line ++ " column " ++ toString e.mark.column

end ConfigError

end StyleScan.Config
