import StyleScan.Text.Quoted
import StyleScan.Text.Shown

/-! # Outlines

An outline is the diagnostic form of a value: a scalar, a record with named fields, a constructor
with arguments, or a list.  It has two layouts.  The inline one puts everything on one line; the
spread one gives every field, argument and element a line of its own, four spaces deeper than the
value that it belongs to and followed by a comma. -/

namespace StyleScan.Text

/-- The diagnostic form of a value. -/
inductive Outline where
  /-- A scalar, or a constructor without arguments. -/
  | scalar (text : String)
  /-- A record with its fields in order. -/
  | record (name : String) (fields : List (String × Outline))
  /-- A constructor applied to arguments. -/
  | applied (name : String) (arguments : List Outline)
  /-- A list. -/
  | items (elements : List Outline)

namespace Outline

/-- The outline of a natural number. -/
def ofNat (n : Nat) : Outline :=
  .scalar (toString n)

/-- The outline of a truth value. -/
def ofBool (b : Bool) : Outline :=
  .scalar (if b then "true" else "false")

/-- The outline of a string. -/
def ofString (s : String) : Outline :=
  .scalar (quoted isShown s)

/-- The outline of an optional value. -/
def ofOption (f : α → Outline) : Option α → Outline
  | none => .scalar "None"
  | some a => .applied "Some" [f a]

/-- The opening of a record. -/
private def openRecord (name : String) : String :=
  name ++ " \x7b"

mutual

/-- The layout on one line. -/
def inline : Outline → String
  | .scalar text => text
  | .record name fields =>
    if fields.isEmpty then name
    else openRecord name ++ " " ++ ", ".intercalate (inlineFields fields) ++ " \x7d"
  | .applied name arguments => name ++ "(" ++ ", ".intercalate (inlineAll arguments) ++ ")"
  | .items elements => "[" ++ ", ".intercalate (inlineAll elements) ++ "]"

/-- The fields of a record, each with its name. -/
def inlineFields : List (String × Outline) → List String
  | [] => []
  | (name, value) :: rest => (name ++ ": " ++ inline value) :: inlineFields rest

/-- The elements of a list, one text each. -/
def inlineAll : List Outline → List String
  | [] => []
  | value :: rest => inline value :: inlineAll rest

end

/-- The indentation of a line at the given depth. -/
private def indent (depth : Nat) : String :=
  String.ofList (List.replicate (4 * depth) ' ')

mutual

/-- The layout over lines, for a value whose first line stands at the given depth. -/
def spreadAt (depth : Nat) : Outline → String
  | .scalar text => text
  | .record name fields =>
    if fields.isEmpty then name
    else openRecord name ++ "\n" ++ spreadFields (depth + 1) fields ++ indent depth ++ "\x7d"
  | .applied name arguments =>
    name ++ "(\n" ++ spreadAll (depth + 1) arguments ++ indent depth ++ ")"
  | .items elements =>
    if elements.isEmpty then "[]"
    else "[\n" ++ spreadAll (depth + 1) elements ++ indent depth ++ "]"

/-- The fields of a record, one after the other. -/
def spreadFields (depth : Nat) : List (String × Outline) → String
  | [] => ""
  | (name, value) :: rest =>
    indent depth ++ name ++ ": " ++ spreadAt depth value ++ ",\n" ++ spreadFields depth rest

/-- The elements of a list, one after the other. -/
def spreadAll (depth : Nat) : List Outline → String
  | [] => ""
  | value :: rest =>
    indent depth ++ spreadAt depth value ++ ",\n" ++ spreadAll depth rest

end

/-- The layout over lines. -/
def spread (o : Outline) : String :=
  o.spreadAt 0

end Outline

end StyleScan.Text
