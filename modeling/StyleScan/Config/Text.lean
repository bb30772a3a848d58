import StyleScan.Config.Cursor

/-! # Strings in configuration files

A JSON string as it is read, from after its opening quote.  A character beyond the first 65536 may
be written as two escapes, the first from the upper and the second from the lower half of the
surrogates; a surrogate that is not part of such a pair stands for nothing. -/

namespace StyleScan.Config

/-- The value of a hexadecimal digit. -/
def hexValue? (c : Char) : Option Nat :=
  if '0' ≤ c ∧ c ≤ '9' then some (c.toNat - '0'.toNat)
  else if 'a' ≤ c ∧ c ≤ 'f' then some (c.toNat - 'a'.toNat + 10)
  else if 'A' ≤ c ∧ c ≤ 'F' then some (c.toNat - 'A'.toNat + 10)
  else none

/-- The value of four hexadecimal digits at the beginning of a text. -/
def fourDigits? : List Char → Option Nat
  | a :: b :: c :: d :: _ => do
    return (((← hexValue? a) * 16 + (← hexValue? b)) * 16 + (← hexValue? c)) * 16 + (← hexValue? d)
  | _ => none

/-- The first half of a surrogate pair. -/
def isLeading (n : Nat) : Bool :=
  0xd800 ≤ n ∧ n ≤ 0xdbff

/-- The second half of a surrogate pair. -/
def isTrailing (n : Nat) : Bool :=
  0xdc00 ≤ n ∧ n ≤ 0xdfff

/-- The character of a surrogate pair. -/
def ofPair (n m : Nat) : Char :=
  Char.ofNat ((n - 0xd800) * 0x400 + (m - 0xdc00) + 0x10000)

/-- What a one-letter escape stands for. -/
def shortEscape? (c : Char) : Option Char :=
  if c = '\x22' ∨ c = '\\' ∨ c = '/' then some c
  else if c = 'b' then some '\x08'
  else if c = 'f' then some '\x0c'
  else if c = 'n' then some '\n'
  else if c = 'r' then some '\r'
  else if c = 't' then some '\t'
  else none

namespace Cursor

/-- Reads the four digits of a numeric escape. -/
def fourDigits (c : Cursor) : Except ConfigError (Nat × Cursor) :=
  match fourDigits? c.rest with
  | some n => .ok (n, c.skip 4)
  | none =>
    if (String.ofList (c.rest.take 4)).utf8ByteSize < 4 then
      .error ⟨.unexpectedEnd .string, c.ending⟩
    else .error ⟨.invalidEscape, c.mark.afterBytes 4 c.rest⟩

/-- Reads one character that the text must go on with. -/
def joint (c : Cursor) (expected : Char) : Except ConfigError Cursor :=
  match c.rest with
  | [] => c.fail (.unexpectedEnd .string)
  | x :: _ => if x = expected then .ok c.advance else c.failAhead .unexpectedEndOfEscape

/-- Reads a numeric escape, from after its letter. -/
def numericEscape (c : Cursor) : Except ConfigError (Char × Cursor) := do
  let (n, c) ← c.fourDigits
  if isTrailing n then c.fail .loneSurrogate
  else if isLeading n then
    let c ← c.joint '\\'
    let c ← c.joint 'u'
    let (m, c) ← c.fourDigits
    if isTrailing m then return (ofPair n m, c) else c.fail .loneSurrogate
  else return (Char.ofNat n, c)

/-- Reads an escape, from after its backslash. -/
def escape (c : Cursor) : Except ConfigError (Char × Cursor) :=
  match c.rest with
  | [] => c.fail (.unexpectedEnd .string)
  | x :: _ =>
    match shortEscape? x with
    | some y => .ok (y, c.advance)
    | none => if x = 'u' then c.advance.numericEscape else c.failAhead .invalidEscape

theorem length_fourDigits_le {c d : Cursor} {n : Nat} (h : c.fourDigits = .ok (n, d)) :
    d.rest.length ≤ c.rest.length := by
  unfold fourDigits at h
  split at h
  · obtain ⟨-, rfl⟩ : _ ∧ c.skip 4 = d := by simpa using h
    exact c.length_skip_le 4
  · split at h <;> simp at h

theorem length_joint_le {c d : Cursor} {x : Char} (h : c.joint x = .ok d) :
    d.rest.length ≤ c.rest.length := by
  unfold joint at h
  split at h
  · simp [fail] at h
  · split at h
    · obtain rfl : c.advance = d := by simpa using h
      exact c.length_advance_le
    · simp [failAhead] at h

theorem length_numericEscape_le {c d : Cursor} {x : Char} (h : c.numericEscape = .ok (x, d)) :
    d.rest.length ≤ c.rest.length := by
  simp only [numericEscape, bind, Except.bind] at h
  split at h
  · simp at h
  next p hp =>
    have first := length_fourDigits_le (n := p.1) (d := p.2) hp
    split at h
    · simp [fail] at h
    · split at h
      · split at h
        · simp at h
        next c₁ h₁ =>
          have second := length_joint_le h₁
          split at h
          · simp at h
          next c₂ h₂ =>
            have third := length_joint_le h₂
            split at h
            · simp at h
            next q hq =>
              have fourth := length_fourDigits_le (n := q.1) (d := q.2) hq
              split at h
              · obtain ⟨-, rfl⟩ : _ ∧ q.2 = d := by simpa [pure, Except.pure] using h
                omega
              · simp [fail] at h
      · obtain ⟨-, rfl⟩ : _ ∧ p.2 = d := by simpa [pure, Except.pure] using h
        exact first

theorem length_escape_le {c d : Cursor} {x : Char} (h : c.escape = .ok (x, d)) :
    d.rest.length ≤ c.rest.length := by
  unfold escape at h
  split at h
  · simp [fail] at h
  · split at h
    · obtain ⟨-, rfl⟩ : _ ∧ c.advance = d := by simpa using h
      exact c.length_advance_le
    · split at h
      · exact Nat.le_trans (length_numericEscape_le h) c.length_advance_le
      · simp [failAhead] at h

/-- Reads a string from after its opening quote, behind what has been read of it already. -/
def stringFrom (read : String) (c : Cursor) : Except ConfigError (String × Cursor) :=
  match h : c.rest with
  | [] => c.fail (.unexpectedEnd .string)
  | x :: rest =>
    have shorter : c.advance.rest.length < c.rest.length := by simp [advance, h]
    if x = '\x22' then .ok (read, c.advance)
    else if x = '\\' then
      match escaped : c.advance.escape with
      | .error e => .error e
      | .ok (y, d) =>
        have : d.rest.length < c.rest.length :=
          Nat.lt_of_le_of_lt (length_escape_le escaped) shorter
        stringFrom (read.push y) d
    else if x.toNat < 0x20 then c.failAhead .controlCharacter
    else stringFrom (read.push x) c.advance
termination_by c.rest.length

/-- Reads a string from after its opening quote. -/
def string (c : Cursor) : Except ConfigError (String × Cursor) :=
  c.stringFrom ""

end Cursor

end StyleScan.Config
