/-! # Log levels

The levels are ordered from the most talkative to the most severe. -/

namespace StyleScan.Log

/-- How important a log record is. -/
inductive Level where
  | trace
  | debug
  | info
  | warn
  | error
deriving Repr, DecidableEq, Inhabited

namespace Level

/-- The rank of a level. -/
def value : Level → Nat
  | .trace => 0
  | .debug => 1
  | .info => 2
  | .warn => 3
  | .error => 4

instance : LE Level :=
  ⟨fun a b => a.value ≤ b.value⟩

instance (a b : Level) : Decidable (a ≤ b) :=
  inferInstanceAs (Decidable (a.value ≤ b.value))

/-- The levels in their order. -/
def all : List Level :=
  [.trace, .debug, .info, .warn, .error]

/-- The level of the given rank. -/
def ofValue? (n : Nat) : Option Level :=
  all[n]?

/-- A level as a record shows it. -/
def name : Level → String
  | .trace => "TRACE"
  | .debug => "DEBUG"
  | .info => "INFO"
  | .warn => "WARN"
  | .error => "ERROR"

/-- A level in diagnostics. -/
def longName : Level → String
  | .trace => "Trace"
  | .debug => "Debug"
  | .info => "Info"
  | .warn => "Warn"
  | .error => "Error"

/-- The level that a text names, in any mixture of ASCII cases. -/
def parse? (text : String) : Option Level :=
  match text.map Char.toLower with
  | "trace" => some .trace
  | "debug" => some .debug
  | "info" => some .info
  | "warn" => some .warn
  | "warning" => some .warn
  | "error" => some .error
  | _ => none

/-- What is said of a text that names no level. -/
def unknownMessage (text : String) : String :=
  "unknown log level '" ++ text ++ "'"

theorem ofValue?_value (l : Level) : ofValue? l.value = some l := by
  cases l <;> rfl

end Level

end StyleScan.Log
