import StyleScan.Text.Quoted

/-! # JSON strings

The compact written form of a JSON string: the characters that the format reserves have their
short escapes, the other control characters below the space are written as four hexadecimal
digits, and everything else stands as it is. -/

namespace StyleScan.Text.Json

/-- A hexadecimal number below 256 as four digits. -/
def fourDigits (n : Nat) : List Char :=
  let digits := hexDigits n
  List.replicate (4 - digits.length) '0' ++ digits

/-- What is written for one character of a JSON string. -/
def escape (c : Char) : List Char :=
  if c = stringMark ∨ c = '\\' then ['\\', c]
  else if c = '\x08' then ['\\', 'b']
  else if c = '\x0c' then ['\\', 'f']
  else if c = '\n' then ['\\', 'n']
  else if c = '\r' then ['\\', 'r']
  else if c = '\t' then ['\\', 't']
  else if c.toNat < 0x20 then '\\' :: 'u' :: fourDigits c.toNat
  else [c]

/-- The characters of a JSON string, its quotes included. -/
def quotedChars (cs : List Char) : List Char :=
  stringMark :: cs.flatMap escape ++ [stringMark]

/-- A JSON string. -/
def quoted (s : String) : String :=
  String.ofList (quotedChars s.toList)

@[simp] theorem toList_quoted (s : String) : (quoted s).toList = quotedChars s.toList := by
  simp [quoted]

end StyleScan.Text.Json
