/-! # Errors of the operating system

Why files cannot be opened, read or written. -/

namespace StyleScan

/-- Why the system refuses. -/
inductive SystemError where
  | notFound
  | notDirectory
  | isDirectory
  | nameTooLong
  /-- A path with a NUL character. -/
  | nulInPath
  /-- A text file with bytes that are no UTF-8. -/
  | notText
  /-- A destination that takes no more. -/
  | full
  /-- Anything else, in the system's words. -/
  | other (text : String)
deriving Repr, DecidableEq, Inhabited

namespace SystemError

/-- The error as the system words it. -/
def message : SystemError → String
  | .notFound => "No such file or directory (os error 2)"
  | .notDirectory => "Not a directory (os error 20)"
  | .isDirectory => "Is a directory (os error 21)"
  | .nameTooLong => "File name too long (os error 36)"
  | .nulInPath => "file name contained an unexpected NUL byte"
  | .notText => "stream did not contain valid UTF-8"
  | .full => "failed to write whole buffer"
  | .other text => text

end SystemError

end StyleScan
