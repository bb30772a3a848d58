import StyleScan.Position

/-! # Errors of the scanner

No style sheet is malformed to the scanner: a string cut off by the end of its line has a kind of
its own.  An error means that input came after the end, or that the scanner reached a state that it
should never be in. -/

namespace StyleScan

open Text (Outline)

/-- Why an operation of the scanner fails. -/
inductive ScanError where
  /-- Input after the end of the input or after an earlier error. -/
  | closed
  /-- A state that no input should lead to. -/
  | invariant (context : String) (position : Position) (detail : String)
deriving Repr, DecidableEq, Inhabited

namespace ScanError

/-- The error as a message. -/
def message : ScanError → String
  | .closed => "tokenizer input is closed"
  | .invariant context position detail =>
    "[" ++ position.text ++ "] tokenizer invariant violated in " ++ context ++ " context: " ++
      detail

/-- Where the error happened, if it is about a character. -/
def position? : ScanError → Option Position
  | .closed => none
  | .invariant _ position _ => some position

/-- The diagnostic form of an error. -/
def outline : ScanError → Outline
  | .closed => .scalar "Closed"
  | .invariant context position detail =>
    .record "Invariant"
      [("context", .ofString context), ("detail", .ofString detail),
        ("position", position.outline)]

end ScanError

end StyleScan
