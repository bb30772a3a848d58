import StyleScan.Token

/-! # Lexical contexts

The innermost context decides how the next character is read.  The general context lies below all
others and cannot be left; the stack holds only what lies above it, innermost first. -/

namespace StyleScan

open Text (Outline)

/-- What the scanner is in the middle of. -/
inductive Context where
  /-- Between tokens, or in a run of blanks. -/
  | general
  /-- After a slash, which stands at `start`: the next character decides what it opens. -/
  | slashLookahead (start : Position)
  /-- In a comment that `*/` ends; `endPending` after a star of its body. -/
  | multiLineComment (endPending : Bool)
  /-- In a comment that the end of its line ends. -/
  | singleLineComment
  /-- In a string; `escapePending` after a backslash that escapes the next character. -/
  | string (quote : Quote) (escapePending : Bool)
deriving Repr, DecidableEq, Inhabited

namespace Context

/-- A context as a message names it. -/
def name : Context → String
  | .general => "general"
  | .slashLookahead _ => "slash-lookahead"
  | .multiLineComment _ => "multi-line comment"
  | .singleLineComment => "single-line comment"
  | .string .single _ => "single-quoted string"
  | .string .double _ => "double-quoted string"

/-- The diagnostic form of a context. -/
def outline : Context → Outline
  | .general => .scalar "General"
  | .slashLookahead start => .record "SlashLookahead" [("start", start.outline)]
  | .multiLineComment endPending =>
    .record "MultiLineComment" [("end_pending", .ofBool endPending)]
  | .singleLineComment => .scalar "SingleLineComment"
  | .string quote escapePending =>
    .record "String"
      [("quote", .scalar quote.name), ("escape_pending", .ofBool escapePending)]

end Context

/-- The contexts that the scanner is in. -/
structure ContextStack where
  /-- The contexts above the general one, innermost first. -/
  above : List Context := []
deriving Repr, DecidableEq, Inhabited

namespace ContextStack

/-- The stack with the general context only. -/
def base : ContextStack :=
  ⟨[]⟩

/-- The innermost context. -/
def top (s : ContextStack) : Context :=
  s.above.headD .general

/-- Enters a context. -/
def push (s : ContextStack) (c : Context) : ContextStack :=
  ⟨c :: s.above⟩

/-- Replaces the innermost context, unless it is the general one at the bottom. -/
def setTop (s : ContextStack) (c : Context) : ContextStack :=
  match s.above with
  | [] => s
  | _ :: below => ⟨c :: below⟩

/-- Leaves the innermost context, unless it is the general one at the bottom. -/
def pop? (s : ContextStack) : Option (Context × ContextStack) :=
  match s.above with
  | [] => none
  | c :: below => some (c, ⟨below⟩)

/-- Leaves everything above the general context. -/
def reset (_ : ContextStack) : ContextStack :=
  base

/-- The number of contexts, the general one included. -/
def depth (s : ContextStack) : Nat :=
  s.above.length + 1

/-- The contexts from the outermost to the innermost. -/
def toList (s : ContextStack) : List Context :=
  .general :: s.above.reverse

/-- The diagnostic form of the stack. -/
def outline (s : ContextStack) : Outline :=
  .record "ContextStack" [("stack", .items (s.toList.map Context.outline))]

theorem length_toList (s : ContextStack) : s.toList.length = s.depth := by
  simp [toList, depth]

end ContextStack

end StyleScan
