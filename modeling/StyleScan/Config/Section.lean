import StyleScan.Config.Scalar

/-! # Sections of configuration files

A section is written as an object, its fields in any order, or as a list of its fields in their
own order.  Fields that are left out keep their defaults.  A key that is no field of the section,
or that comes a second time, is refused as soon as it has been read. -/

namespace StyleScan.Config

/-- A field of a section: its name, and how its value is read and put in its place. -/
structure Field (β : Type) where
  name : String
  read : Cursor → Except ConfigError ((β → β) × Cursor)

/-- The field that reads a part of the section by `read` and puts it in its place by `set`. -/
def Field.of {α β : Type} (name : String) (read : Cursor → Except ConfigError (α × Cursor))
    (set : α → β → β) : Field β :=
  ⟨name, fun c => do
    let (a, c) ← read c
    return (set a, c)⟩

/-- The fields but those with the given name. -/
def Field.without {β : Type} (fields : List (Field β)) (name : String) : List (Field β) :=
  fields.filter (·.name ≠ name)

theorem Field.length_without_lt {β : Type} {fields : List (Field β)} {name : String}
    {field : Field β} (h : fields.find? (·.name = name) = some field) :
    (Field.without fields name).length < fields.length := by
  have hmem := List.mem_of_find?_eq_some h
  have hname := List.find?_some h
  exact List.length_filter_lt_length_iff_exists.2 ⟨field, hmem, by simpa using hname⟩

namespace Cursor

variable {β : Type}

/-- Reads the key of an object's next entry, or finds the object's closing brace. -/
def nextKey (c : Cursor) (first : Bool) : Except ConfigError (Option String × Cursor) :=
  let key (c : Cursor) : Except ConfigError (Option String × Cursor) := do
    let (name, after) ← c.advance.string
    return (some name, after)
  let c := c.skipBlanks
  match c.rest with
  | [] => c.fail (.unexpectedEnd .object)
  | '\x7d' :: _ => .ok (none, c)
  | x :: _ =>
    if first then
      if x = '\x22' then key c else c.failAhead .keyNotString
    else if x = ',' then
      let c := c.advance.skipBlanks
      match c.rest with
      | [] => c.fail (.unexpectedEnd .value)
      | '\x22' :: _ => key c
      | '\x7d' :: _ => c.failAhead .trailingComma
      | _ => c.failAhead .keyNotString
    else c.failAhead .expectedCommaOrBrace

/-- Where a key is found to be wrong: after the blanks that follow it, and after a closing brace
there. -/
def keyMark (c : Cursor) : Mark :=
  let c := c.skipBlanks
  match c.rest with
  | '\x7d' :: _ => c.advance.mark
  | _ => c.mark

/-- Reads the entries of an object from after its opening brace.  The fields of `left` have not
been read yet. -/
def entries (fields left : List (Field β)) (value : β) (first : Bool) (c : Cursor) :
    Except ConfigError (β × Cursor) :=
  match c.nextKey first with
  | .error e => .error e
  | .ok (none, c) => .ok (value, c.advance)
  | .ok (some key, c) =>
    match _ : left.find? (·.name = key) with
    | some field => do
      let c ← c.colon
      let (set, c) ← field.read c
      entries fields (Field.without left key) (set value) false c
    | none =>
      if fields.any (·.name = key) then .error ⟨.duplicateField key, c.keyMark⟩
      else .error ⟨.unknownField key (fields.map (·.name)), c.keyMark⟩
termination_by left.length
decreasing_by exact Field.length_without_lt (by assumption)

/-- Finds the next element of a list, or its closing bracket. -/
def nextElement (c : Cursor) (first : Bool) : Except ConfigError (Bool × Cursor) :=
  let c := c.skipBlanks
  match c.rest with
  | [] => c.fail (.unexpectedEnd .list)
  | ']' :: _ => .ok (false, c)
  | x :: _ =>
    if first then .ok (true, c)
    else if x = ',' then
      let c := c.advance.skipBlanks
      match c.rest with
      | [] => c.fail (.unexpectedEnd .value)
      | ']' :: _ => c.failAhead .trailingComma
      | _ => .ok (true, c)
    else c.failAhead .expectedCommaOrBracket

/-- Reads the end of a list that holds all fields. -/
def endOfList (c : Cursor) : Except ConfigError Cursor :=
  let c := c.skipBlanks
  match c.rest with
  | [] => c.fail (.unexpectedEnd .list)
  | ']' :: _ => .ok c.advance
  | ',' :: _ =>
    let c := c.advance.skipBlanks
    match c.rest with
    | ']' :: _ => c.failAhead .trailingComma
    | _ => c.failAhead .trailingCharacters
  | _ => c.failAhead .trailingCharacters

/-- Reads the elements of a list from after its opening bracket. -/
def elements (value : β) (first : Bool) (c : Cursor) :
    List (Field β) → Except ConfigError (β × Cursor)
  | [] => return (value, ← c.endOfList)
  | field :: fields => do
    let (more, c) ← c.nextElement first
    if more then
      let (set, c) ← field.read c
      elements (set value) false c fields
    else return (value, c.advance)

/-- Reads a section. -/
def readSection (c : Cursor) (title : String) (fields : List (Field β)) (default : β) :
    Except ConfigError (β × Cursor) :=
  let c := c.skipBlanks
  match c.rest with
  | [] => c.fail (.unexpectedEnd .value)
  | '\x7b' :: _ => c.advance.entries fields fields default true
  | '[' :: _ => c.advance.elements default true fields
  | _ => .error (c.wrongType ("struct " ++ title))

end Cursor

end StyleScan.Config
