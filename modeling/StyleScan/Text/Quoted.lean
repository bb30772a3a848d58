/-! # Quoted text

A text is quoted by putting it between two marks and escaping what could not stand there as it is:
the mark, the backslash, the usual control characters, and every character that a terminal would
not show on its own.  Which characters count as shown is a parameter, since nothing else here
depends on that choice. -/

namespace StyleScan.Text

/-- The mark around quoted strings. -/
def stringMark : Char := '\x22'

/-- The mark around quoted characters. -/
def charMark : Char := '\x27'

/-- The lower-case hexadecimal digits of a number, without padding. -/
def hexDigits (n : Nat) : List Char :=
  Nat.toDigits 16 n

/-- A numeric escape: the scalar value in hexadecimal between braces. -/
def numericEscape (c : Char) : List Char :=
  '\\' :: 'u' :: '\x7b' :: hexDigits c.toNat ++ ['\x7d']

/-- What is written for `c` between two `mark`s. -/
def escape (shown : Char → Bool) (mark c : Char) : List Char :=
  if c = '\x00' then ['\\', '0']
  else if c = '\t' then ['\\', 't']
  else if c = '\r' then ['\\', 'r']
  else if c = '\n' then ['\\', 'n']
  else if c = mark ∨ c = '\\' then ['\\', c]
  else if shown c then [c]
  else numericEscape c

/-- The characters of a quoted string. -/
def quotedChars (shown : Char → Bool) (cs : List Char) : List Char :=
  stringMark :: cs.flatMap (escape shown stringMark) ++ [stringMark]

/-- A string between double quotes. -/
def quoted (shown : Char → Bool) (s : String) : String :=
  String.ofList (quotedChars shown s.toList)

/-- A character between single quotes. -/
def quotedChar (shown : Char → Bool) (c : Char) : String :=
  String.ofList (charMark :: escape shown charMark c ++ [charMark])

@[simp] theorem toList_quoted (shown : Char → Bool) (s : String) :
    (quoted shown s).toList = quotedChars shown s.toList := by
  simp [quoted]

end StyleScan.Text
