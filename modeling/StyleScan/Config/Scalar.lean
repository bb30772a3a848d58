import StyleScan.Config.Basic
import StyleScan.Config.Number
import StyleScan.Config.Text

/-! # Settings in configuration files

How the value of a single setting is read, and what is said when it has the wrong type. -/

namespace StyleScan.Config

namespace Cursor

/-- The issue of a value of the wrong type at the cursor, unless the value itself is malformed. -/
def wrongType (c : Cursor) (expected : String) : ConfigError :=
  let said (found : Found) : Except ConfigError Cursor → ConfigError
    | .ok after => ⟨.invalidType found expected, after.mark⟩
    | .error e => e
  let numeral (c : Cursor) (negative : Bool) : ConfigError :=
    match c.number negative with
    | .ok (n, after) => ⟨.invalidType n.found expected, after.mark⟩
    | .error e => e
  match c.rest with
  | 'n' :: _ => said .null (c.advance.word ['u', 'l', 'l'])
  | 't' :: _ => said (.bool true) (c.advance.word ['r', 'u', 'e'])
  | 'f' :: _ => said (.bool false) (c.advance.word ['a', 'l', 's', 'e'])
  | '-' :: _ => numeral c.advance true
  | '\x22' :: _ =>
    match c.advance.string with
    | .ok (s, after) => ⟨.invalidType (.string s) expected, after.mark⟩
    | .error e => e
  | '[' :: _ => ⟨.invalidType .sequence expected, c.mark⟩
  | '\x7b' :: _ => ⟨.invalidType .map expected, c.mark⟩
  | x :: _ => if x.isDigit then numeral c false else ⟨.expectedValue, c.ahead⟩
  | [] => ⟨.expectedValue, c.ahead⟩

/-- Reads a truth value. -/
def bool (c : Cursor) : Except ConfigError (Bool × Cursor) :=
  let c := c.skipBlanks
  match c.rest with
  | [] => c.fail (.unexpectedEnd .value)
  | 't' :: _ => return (true, ← c.advance.word ['r', 'u', 'e'])
  | 'f' :: _ => return (false, ← c.advance.word ['a', 'l', 's', 'e'])
  | _ => .error (c.wrongType "a boolean")

/-- Reads nothing. -/
def unit (c : Cursor) : Except ConfigError Cursor :=
  let c := c.skipBlanks
  match c.rest with
  | [] => c.fail (.unexpectedEnd .value)
  | 'n' :: _ => c.advance.word ['u', 'l', 'l']
  | _ => .error (c.wrongType "unit")

/-- Reads a string or nothing. -/
def optionalText (c : Cursor) : Except ConfigError (Option String × Cursor) :=
  let c := c.skipBlanks
  match c.rest with
  | [] => c.fail (.unexpectedEnd .value)
  | 'n' :: _ => return (none, ← c.advance.word ['u', 'l', 'l'])
  | '\x22' :: _ => do
    let (s, after) ← c.advance.string
    return (some s, after)
  | _ => .error (c.wrongType "a string")

/-- An unsigned 64-bit number, if the number read is one. -/
def asCount (c : Cursor) : Number → Except ConfigError (UInt64 × Cursor)
  | .natural n => .ok (UInt64.ofNat n, c)
  | .negative n => c.fail (.invalidValue (.integer n) "usize")
  | .float f => c.fail (.invalidType (.float f) "usize")

/-- Reads an unsigned 64-bit number. -/
def count (c : Cursor) : Except ConfigError (UInt64 × Cursor) :=
  let c := c.skipBlanks
  match c.rest with
  | [] => c.fail (.unexpectedEnd .value)
  | '-' :: _ => do
    let (n, after) ← c.advance.number true
    after.asCount n
  | x :: _ =>
    if x.isDigit then do
      let (n, after) ← c.number false
      after.asCount n
    else .error (c.wrongType "usize")

/-- Reads one of the given names, from its opening quotation mark on. -/
def variantName {α : Type} (c : Cursor) (variants : List (String × α)) :
    Except ConfigError (α × Cursor) := do
  let (name, after) ← c.advance.string
  match variants.find? (·.1 = name) with
  | some (_, a) => return (a, after)
  | none => after.fail (.unknownVariant name (variants.map (·.1)))

/-- Reads one of the given names as the first key of an object, from after its opening brace. -/
def variantKey {α : Type} (c : Cursor) (variants : List (String × α)) :
    Except ConfigError (α × Cursor) :=
  let c := c.skipBlanks
  match c.rest with
  | [] => c.fail (.unexpectedEnd .object)
  | '\x22' :: _ => c.variantName variants
  | '\x7d' :: _ => c.failAhead .expectedValue
  | _ => c.failAhead .keyNotString

/-- Reads a colon. -/
def colon (c : Cursor) : Except ConfigError Cursor :=
  let c := c.skipBlanks
  match c.rest with
  | [] => c.fail (.unexpectedEnd .object)
  | ':' :: _ => .ok c.advance
  | _ => c.failAhead .expectedColon

/-- Reads one of the given variants: its name, or an object with its name as the only key. -/
def variant {α : Type} (c : Cursor) (variants : List (String × α)) :
    Except ConfigError (α × Cursor) :=
  let c := c.skipBlanks
  match c.rest with
  | [] => c.fail (.unexpectedEnd .value)
  | '\x22' :: _ => c.variantName variants
  | '\x7b' :: _ => do
    let (a, c) ← c.advance.variantKey variants
    let c ← c.colon
    let c ← c.unit
    let c := c.skipBlanks
    match c.rest with
    | [] => c.fail (.unexpectedEnd .object)
    | '\x7d' :: _ => return (a, c.advance)
    | _ => c.fail .expectedValue
  | _ => c.failAhead .expectedValue

end Cursor

end StyleScan.Config
