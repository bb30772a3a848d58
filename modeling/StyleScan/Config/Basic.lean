import StyleScan.Text.Outline
import StyleScan.Log.Level

/-! # Configurations

A configuration has a section on scanning, one on logging and one on the output.  Every section
and every setting has a default. -/

namespace StyleScan

open Text (Outline)

/-- How much is logged. -/
inductive Verbosity where
  /-- Nothing but internal errors. -/
  | silent
  | error
  | warn
  | info
  | debug
  | trace
deriving Repr, DecidableEq, Inhabited

namespace Verbosity

/-- The verbosities, each once. -/
def all : List Verbosity :=
  [.silent, .error, .warn, .info, .debug, .trace]

/-- A verbosity as a configuration names it. -/
def name : Verbosity → String
  | .silent => "silent"
  | .error => "error"
  | .warn => "warn"
  | .info => "info"
  | .debug => "debug"
  | .trace => "trace"

/-- A verbosity in diagnostics. -/
def longName : Verbosity → String
  | .silent => "Silent"
  | .error => "Error"
  | .warn => "Warn"
  | .info => "Info"
  | .debug => "Debug"
  | .trace => "Trace"

/-- The threshold of a logger.  Internal errors are shown even by a silent one. -/
def level : Verbosity → Log.Level
  | .silent | .error => .error
  | .warn => .warn
  | .info => .info
  | .debug => .debug
  | .trace => .trace

end Verbosity

/-- How tokens are written. -/
inductive Format where
  /-- The position, the kind and the quoted text. -/
  | text
  /-- A JSON object for each token. -/
  | json
  /-- The input without its comments. -/
  | strip
deriving Repr, DecidableEq, Inhabited

namespace Format

/-- The formats, each once. -/
def all : List Format :=
  [.text, .json, .strip]

/-- A format as a configuration names it. -/
def name : Format → String
  | .text => "text"
  | .json => "json"
  | .strip => "strip"

/-- A format in diagnostics. -/
def longName : Format → String
  | .text => "Text"
  | .json => "Json"
  | .strip => "Strip"

end Format

/-- Settings of the scanner. -/
structure ScanSettings where
  /-- Log every character that is read. -/
  traceChars : Bool
deriving Repr, DecidableEq, Inhabited

/-- Settings of the log. -/
structure LogSettings where
  level : Verbosity
  /-- Log to this file too. -/
  file : Option String
deriving Repr, DecidableEq, Inhabited

/-- Settings of the output. -/
structure OutputSettings where
  format : Format
  /-- How many bytes are read at a time. -/
  chunkSize : UInt64
deriving Repr, DecidableEq, Inhabited

/-- A configuration. -/
structure Config where
  lexer : ScanSettings
  logging : LogSettings
  output : OutputSettings
deriving Repr, DecidableEq, Inhabited

namespace ScanSettings

/-- Characters are not logged. -/
def standard : ScanSettings :=
  ⟨false⟩

/-- The diagnostic form of the section. -/
def outline (s : ScanSettings) : Outline :=
  .record "LexerConfig" [("trace_chars", .ofBool s.traceChars)]

end ScanSettings

namespace LogSettings

/-- Warnings and errors are logged, to no file. -/
def standard : LogSettings :=
  ⟨.warn, none⟩

/-- The diagnostic form of the section. -/
def outline (s : LogSettings) : Outline :=
  .record "LoggingConfig"
    [("level", .scalar s.level.longName), ("file", .ofOption .ofString s.file)]

end LogSettings

namespace OutputSettings

/-- Tokens are written as text, from chunks of 8192 bytes. -/
def standard : OutputSettings :=
  ⟨.text, 8192⟩

/-- The diagnostic form of the section. -/
def outline (s : OutputSettings) : Outline :=
  .record "OutputConfig"
    [("format", .scalar s.format.longName), ("chunk_size", .ofNat s.chunkSize.toNat)]

end OutputSettings

namespace Config

/-- Everything at its default. -/
def standard : Config :=
  ⟨.standard, .standard, .standard⟩

/-- The diagnostic form of a configuration. -/
def outline (c : Config) : Outline :=
  .record "NasstyConfig"
    [("lexer", c.lexer.outline), ("logging", c.logging.outline), ("output", c.output.outline)]

end Config

end StyleScan
