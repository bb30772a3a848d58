/-! # Segments of a UTF-8 byte sequence

Reading bytes from left to right splits them into segments that stand for one character each: a
well-formed sequence stands for its scalar value, and bytes that cannot be part of one stand for
the replacement character.  An invalid segment is as long as it can be while still being the
beginning of a well-formed sequence, and one byte long if its first byte begins none.

Bytes at the very end that could still be completed form no segment.  They are the tail. -/

namespace StyleScan.Utf8

/-- The character that stands for bytes that decode to nothing. -/
def replacement : Char :=
  '\ufffd'

/-- The ranges in which the bytes after `lead` must lie, one range a byte, if `lead` begins a
well-formed sequence.  The narrower ranges exclude overlong forms, surrogates and values beyond
the last code point. -/
def continuations (lead : UInt8) : Option (List (UInt8 × UInt8)) :=
  if lead ≤ 0x7f then some []
  else if lead < 0xc2 then none
  else if lead ≤ 0xdf then some [(0x80, 0xbf)]
  else if lead = 0xe0 then some [(0xa0, 0xbf), (0x80, 0xbf)]
  else if lead = 0xed then some [(0x80, 0x9f), (0x80, 0xbf)]
  else if lead ≤ 0xef then some [(0x80, 0xbf), (0x80, 0xbf)]
  else if lead = 0xf0 then some [(0x90, 0xbf), (0x80, 0xbf), (0x80, 0xbf)]
  else if lead ≤ 0xf3 then some [(0x80, 0xbf), (0x80, 0xbf), (0x80, 0xbf)]
  else if lead = 0xf4 then some [(0x80, 0x8f), (0x80, 0xbf), (0x80, 0xbf)]
  else none

/-- The length of the sequences that `lead` begins, if it begins any. -/
def sequenceLength (lead : UInt8) : Option Nat :=
  (continuations lead).map fun ranges => ranges.length + 1

/-- The scalar value that a well-formed sequence encodes: the payload bits of its bytes, the first
byte's uppermost. -/
def scalarValue : List UInt8 → Nat
  | [a] => a.toNat
  | [a, b] => a.toNat % 32 * 64 + b.toNat % 64
  | [a, b, c] => (a.toNat % 16 * 64 + b.toNat % 64) * 64 + c.toNat % 64
  | [a, b, c, d] => ((a.toNat % 8 * 64 + b.toNat % 64) * 64 + c.toNat % 64) * 64 + d.toNat % 64
  | _ => 0

/-- Bytes that stand for one character. -/
structure Segment where
  bytes : List UInt8
  /-- The scalar value of a well-formed sequence, none for an invalid segment. -/
  scalar : Option Char
deriving Repr, DecidableEq, Inhabited

namespace Segment

/-- The character that a segment stands for. -/
def char (s : Segment) : Char :=
  s.scalar.getD replacement

/-- Whether the replacement character stands for the segment. -/
def isInvalid (s : Segment) : Bool :=
  s.scalar.isNone

end Segment

/-- Extends `taken` by bytes in the given ranges.  It becomes a well-formed segment once no range
is left and an invalid one at the first byte outside its range; without more bytes it stays
open. -/
def extend (taken : List UInt8) :
    List (UInt8 × UInt8) → List UInt8 → Option (Segment × List UInt8)
  | [], rest => some (⟨taken, some (Char.ofNat (scalarValue taken))⟩, rest)
  | _ :: _, [] => none
  | (low, high) :: ranges, b :: rest =>
    if low ≤ b ∧ b ≤ high then extend (taken ++ [b]) ranges rest
    else some (⟨taken, none⟩, b :: rest)

/-- The first segment and the bytes after it, unless the bytes are empty or still open. -/
def next? : List UInt8 → Option (Segment × List UInt8)
  | [] => none
  | lead :: rest =>
    match continuations lead with
    | none => some (⟨[lead], none⟩, rest)
    | some ranges => extend [lead] ranges rest

theorem length_le_of_extend {taken : List UInt8} {ranges : List (UInt8 × UInt8)}
    {bytes rest : List UInt8} {s : Segment} (h : extend taken ranges bytes = some (s, rest)) :
    rest.length ≤ bytes.length := by
  fun_induction extend taken ranges bytes with
  | case1 => simp_all
  | case2 => simp at h
  | case3 _ _ _ _ _ _ _ ih =>
    have := ih h
    simp only [List.length_cons]
    omega
  | case4 => simp_all

/-- A segment is never empty: the bytes after it are fewer. -/
theorem length_lt_of_next? {bytes rest : List UInt8} {s : Segment}
    (h : next? bytes = some (s, rest)) : rest.length < bytes.length := by
  match bytes with
  | [] => simp [next?] at h
  | lead :: tail =>
    simp only [next?] at h
    split at h
    · simp_all
    · have := length_le_of_extend h
      simp only [List.length_cons]
      omega

theorem ne_nil_of_extend {taken : List UInt8} {ranges : List (UInt8 × UInt8)}
    {bytes rest : List UInt8} {s : Segment} (hne : taken ≠ [])
    (h : extend taken ranges bytes = some (s, rest)) : s.bytes ≠ [] := by
  fun_induction extend taken ranges bytes with
  | case1 =>
    cases h
    exact hne
  | case2 => cases h
  | case3 _ _ _ _ _ _ _ ih => exact ih (by simp) h
  | case4 =>
    cases h
    exact hne

theorem ne_nil_of_next? {bytes rest : List UInt8} {s : Segment}
    (h : next? bytes = some (s, rest)) : s.bytes ≠ [] := by
  match bytes with
  | [] => simp [next?] at h
  | lead :: tail =>
    simp only [next?] at h
    split at h
    · cases h
      exact List.cons_ne_nil lead []
    · exact ne_nil_of_extend (List.cons_ne_nil lead []) h

/-- Appends the segments of `bytes` to those found so far and returns the tail beside them. -/
def splitOnto (found : Array Segment) (bytes : List UInt8) : Array Segment × List UInt8 :=
  match _ : next? bytes with
  | none => (found, bytes)
  | some (s, rest) => splitOnto (found.push s) rest
termination_by bytes.length
decreasing_by exact length_lt_of_next? (by assumption)

/-- The segments of a byte sequence, and its tail. -/
def split (bytes : List UInt8) : List Segment × List UInt8 :=
  let (found, tail) := splitOnto #[] bytes
  (found.toList, tail)

end StyleScan.Utf8
