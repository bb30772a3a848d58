import StyleScan.Config.Issue
import StyleScan.Log.Setup
import StyleScan.ScanError
import StyleScan.SystemError

/-! # Errors of the command -/

namespace StyleScan.Command

/-- Why a command fails. -/
inductive CommandError where
  /-- A file cannot be read. -/
  | read (path : String) (source : SystemError)
  /-- A configuration file does not describe a configuration. -/
  | config (path : String) (source : Config.ConfigError)
  /-- A setting has a value that it cannot have. -/
  | option (detail : String)
  /-- A log file cannot be opened. -/
  | logging (source : SystemError)
  /-- The tokenizer failed. -/
  | lex (source : ScanError)
  /-- Reading the input or writing the output failed. -/
  | io (source : SystemError)
deriving Repr, Inhabited

/-- The error as a message. -/
def CommandError.message : CommandError → String
  | .read path source => "cannot read '" ++ path ++ "': " ++ source.message
  | .config path source => "invalid config '" ++ path ++ "': " ++ source.message
  | .option detail => "invalid option: " ++ detail
  | .logging source => "logging setup failed: " ++ Log.openingMessage source
  | .lex source => "tokenizer failed: " ++ source.message
  | .io source => "I/O error: " ++ source.message

end StyleScan.Command
