import StyleScan.Command.Error
import StyleScan.Command.Options
import StyleScan.Config.Reader

/-! # The settings of a run

A configuration file gives the defaults, and the command line overrides them. -/

namespace StyleScan.Command

/-- The configuration that a file's text describes, or the standard one without a file. -/
def load (readText : String → Except SystemError String) :
    Option String → Except CommandError Config
  | none => .ok .standard
  | some path =>
    match readText path with
    | .error e => .error (.read path e)
    | .ok text =>
      match Config.parse text with
      | .error e => .error (.config path e)
      | .ok config => .ok config

/-- What the command line sets. -/
structure Overrides where
  format : Option Format
  chunkSize : Option UInt64
  logLevel : Option Verbosity
  logFile : Option String
  traceChars : Bool
deriving Repr, DecidableEq, Inhabited

/-- The settings among the options. -/
def Options.overrides (o : Options) : Overrides :=
  ⟨o.format, o.chunkSize, o.logLevel, o.logFile, o.traceChars⟩

namespace Overrides

/-- The configuration with the overrides in place. -/
def onto (o : Overrides) (config : Config) : Config where
  lexer := ⟨config.lexer.traceChars || o.traceChars⟩
  logging := ⟨o.logLevel.getD config.logging.level, o.logFile.or config.logging.file⟩
  output := ⟨o.format.getD config.output.format, o.chunkSize.getD config.output.chunkSize⟩

/-- Why a configuration cannot be used, if it cannot. -/
def objection? (config : Config) : Option CommandError :=
  if config.output.chunkSize = 0 then some (.option "chunk size must be at least 1") else none

/-- Overrides a configuration, and tells what is wrong with the result. -/
def apply (o : Overrides) (config : Config) : Config × Option CommandError :=
  (o.onto config, objection? (o.onto config))

end Overrides

/-- Records go to the standard error, so that the output holds tokens only, and to the log file if
there is one. -/
def logSetup (s : LogSettings) : Log.Setup :=
  let setup := (Log.Setup.new s.level.level).withStandardError
  match s.file with
  | some path => setup.withFile path
  | none => setup

end StyleScan.Command
