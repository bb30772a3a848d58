import StyleScan.Config.Basic
import StyleScan.SystemError
import StyleScan.Token

/-! # Printing tokens

Tokens are written one after the other in the chosen format.  A destination may take a limited
number of bytes; a token that does not fit is an error, and writing nothing always fits. -/

namespace StyleScan

/-- What a token is written as. -/
def Format.render : Format → Token → String
  | .text, t => t.display Text.isShown ++ "\n"
  | .json, t => t.json ++ "\n"
  | .strip, t => if t.kind.isComment then "" else t.text

/-- A destination with what it has taken. -/
structure Printer where
  format : Format
  output : String
  /-- How many more bytes the destination takes, if that is limited. -/
  room : Option Nat
  /-- The number of tokens written, comments that left no text included. -/
  written : Nat
deriving Repr, DecidableEq, Inhabited

namespace Printer

/-- A destination that takes everything. -/
def new (format : Format) : Printer :=
  ⟨format, "", none, 0⟩

/-- A destination that takes so many bytes. -/
def limited (format : Format) (room : Nat) : Printer :=
  ⟨format, "", some room, 0⟩

/-- Writes a token, unless the destination has no room for it. -/
def write (p : Printer) (t : Token) : Except SystemError Printer :=
  let text := p.format.render t
  match p.room with
  | none => .ok { p with output := p.output ++ text, written := p.written + 1 }
  | some room =>
    if text.utf8ByteSize ≤ room then
      .ok
        { p with
          output := p.output ++ text
          room := some (room - text.utf8ByteSize)
          written := p.written + 1 }
    else .error .full

/-- Writes tokens in order, up to the first that fails, and tells how that one failed. -/
def writeAll (p : Printer) : List Token → Printer × Option SystemError
  | [] => (p, none)
  | t :: ts =>
    match p.write t with
    | .ok p => writeAll p ts
    | .error e => (p, some e)

end Printer

end StyleScan
