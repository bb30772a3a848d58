import StyleScan.Config.Section

/-! # Configuration files

The fields of each section, and the configuration that a complete text describes. -/

namespace StyleScan

open Config (ConfigError Cursor)

namespace ScanSettings

/-- The fields of the section on scanning. -/
def fields : List (Config.Field ScanSettings) :=
  [.of "trace_chars" Cursor.bool fun b s => { s with traceChars := b }]

/-- Reads the section on scanning. -/
def read (c : Cursor) : Except ConfigError (ScanSettings × Cursor) :=
  c.readSection "LexerConfig" fields standard

end ScanSettings

namespace LogSettings

/-- The fields of the section on logging. -/
def fields : List (Config.Field LogSettings) :=
  [.of "level" (·.variant (Verbosity.all.map fun v => (v.name, v))) fun v s => { s with level := v },
    .of "file" Cursor.optionalText fun f s => { s with file := f }]

/-- Reads the section on logging. -/
def read (c : Cursor) : Except ConfigError (LogSettings × Cursor) :=
  c.readSection "LoggingConfig" fields standard

end LogSettings

namespace OutputSettings

/-- The fields of the section on the output. -/
def fields : List (Config.Field OutputSettings) :=
  [.of "format" (·.variant (Format.all.map fun f => (f.name, f))) fun f s => { s with format := f },
    .of "chunk_size" Cursor.count fun n s => { s with chunkSize := n }]

/-- Reads the section on the output. -/
def read (c : Cursor) : Except ConfigError (OutputSettings × Cursor) :=
  c.readSection "OutputConfig" fields standard

end OutputSettings

namespace Config

/-- The sections of a configuration. -/
def fields : List (Field Config) :=
  [.of "lexer" ScanSettings.read fun s c => { c with lexer := s },
    .of "logging" LogSettings.read fun s c => { c with logging := s },
    .of "output" OutputSettings.read fun s c => { c with output := s }]

/-- The configuration that a text describes. -/
def parse (text : String) : Except ConfigError Config := do
  let (config, c) ← (Cursor.ofString text).readSection "NasstyConfig" fields standard
  let c := c.skipBlanks
  if c.rest.isEmpty then return config else c.failAhead .trailingCharacters

end Config

end StyleScan
