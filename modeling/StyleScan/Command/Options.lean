import StyleScan.Config.Basic

/-! # Command line options

The arguments are read from left to right.  Options come in any place, each at most once, with
their value in the same argument after an equals sign or in the next one, which then may not begin
with a hyphen; a hyphen alone is an ordinary value.  After two hyphens all arguments are ordinary.
There is at most one ordinary argument, the file to read.

The first argument that cannot be right, or that asks for the version or for help, decides. -/

namespace StyleScan.Command

/-- What the arguments set. -/
structure Options where
  file : Option String
  config : Option String
  format : Option Format
  chunkSize : Option UInt64
  logLevel : Option Verbosity
  logFile : Option String
  traceChars : Bool
deriving Repr, DecidableEq, Inhabited

/-- What the arguments ask for. -/
inductive Invocation where
  | run (options : Options)
  | version
  | help
  /-- The arguments cannot be understood. -/
  | misuse
deriving Repr, DecidableEq, Inhabited

namespace Options

/-- Nothing is set. -/
def none : Options :=
  ⟨.none, .none, .none, .none, .none, .none, false⟩

/-- The number that decimal digits make, behind a plus sign or not, if it fits 64 bits. -/
def count? (text : String) : Option UInt64 :=
  let digits := match text.toList with
    | '+' :: rest => rest
    | all => all
  if digits.isEmpty || !digits.all Char.isDigit then .none
  else
    let n := digits.foldl (fun n c => n * 10 + (c.toNat - '0'.toNat)) 0
    if n < UInt64.size then some (UInt64.ofNat n) else .none

/-- Sets what has not been set. -/
def once {α : Type} (old : Option α) (new : Option α) : Option (Option α) :=
  match old, new with
  | .none, some a => some (some a)
  | _, _ => .none

/-- A text that is not empty. -/
def nonempty? (text : String) : Option String :=
  if text.isEmpty then .none else some text

/-- Sets the file to read. -/
def setFile (o : Options) (text : String) : Option Options := do
  return { o with file := ← once o.file (nonempty? text) }

/-- Sets the option with the given name; none if there is no such option, if it is set already,
or if the value is not one of its values. -/
def set (o : Options) (name value : String) : Option Options :=
  match name with
  | "config" => do return { o with config := ← once o.config (nonempty? value) }
  | "format" => do
    return { o with format := ← once o.format (Format.all.find? (·.name = value)) }
  | "chunk-size" => do return { o with chunkSize := ← once o.chunkSize (count? value) }
  | "log-level" => do
    return { o with logLevel := ← once o.logLevel (Verbosity.all.find? (·.name = value)) }
  | "log-file" => do return { o with logFile := ← once o.logFile (some value) }
  | _ => .none

/-- The names of the options that take a value. -/
def valued : List String :=
  ["config", "format", "chunk-size", "log-level", "log-file"]

end Options

namespace Invocation

/-- Reads ordinary arguments. -/
def ordinary (o : Options) : List String → Invocation
  | [] => .run o
  | arg :: rest =>
    match o.setFile arg with
    | some o => ordinary o rest
    | none => .misuse

/-- Whether an argument cannot be the value of the option before it. -/
def isOptionLike (arg : String) : Bool :=
  arg.startsWith "-" && arg ≠ "-"

/-- An argument that begins with hyphens, taken apart. -/
inductive Shape where
  /-- Two hyphens and nothing else. -/
  | divider
  /-- A long option, with the value behind its equals sign if there is one. -/
  | long (name : String) (value : Option String)
  /-- Short options. -/
  | short (letters : List Char)
  /-- Anything else. -/
  | ordinary
deriving Repr, DecidableEq, Inhabited

/-- The shape of an argument. -/
def shape (arg : String) : Shape :=
  match arg.toList with
  | ['-', '-'] => .divider
  | '-' :: '-' :: rest =>
    let name := String.ofList (rest.takeWhile (· ≠ '='))
    match rest.dropWhile (· ≠ '=') with
    | _ :: value => .long name (some (String.ofList value))
    | [] => .long name none
  | '-' :: letter :: rest => .short (letter :: rest)
  | _ => .ordinary

/-- Reads arguments behind what has been set by those before. -/
def parseFrom (o : Options) : List String → Invocation
  | [] => .run o
  | arg :: rest =>
    match shape arg with
    | .divider => ordinary o rest
    | .short (letter :: _) =>
      if letter = 'V' then .version else if letter = 'h' then .help else .misuse
    | .short [] => .misuse
    | .ordinary =>
      match o.setFile arg with
      | some o => parseFrom o rest
      | none => .misuse
    | .long "version" none => .version
    | .long "help" none => .help
    | .long "trace-chars" none =>
      if o.traceChars then .misuse else parseFrom { o with traceChars := true } rest
    | .long name (some value) =>
      match o.set name value with
      | some o => parseFrom o rest
      | none => .misuse
    | .long name none =>
      if name ∈ Options.valued then
        match rest with
        | [] => .misuse
        | value :: rest =>
          if isOptionLike value then .misuse
          else
            match o.set name value with
            | some o => parseFrom o rest
            | none => .misuse
      else .misuse

/-- What the arguments ask for. -/
def parse (args : List String) : Invocation :=
  parseFrom .none args

end Invocation

/-- The name and version of the program. -/
def versionText : String :=
  "nassty 0.1.0\n"

/-- The summary of the options. -/
def helpText : String :=
  "Streaming stylesheet tokenizer\n\n" ++
  "Usage: nassty [OPTIONS] [FILE]\n\n" ++
  "Arguments:\n" ++
  "  [FILE]  Stylesheet to tokenize (default: stdin)\n\n" ++
  "Options:\n" ++
  "      --config <PATH>          JSON configuration file\n" ++
  "      --format <FORMAT>        Output format [possible values: text, json, strip]\n" ++
  "      --chunk-size <N>         Bytes read per chunk\n" ++
  "      --log-level <LOG_LEVEL>  Log verbosity [possible values: silent, error, warn, info, " ++
  "debug, trace]\n" ++
  "      --log-file <PATH>        Append log records to this file\n" ++
  "      --trace-chars            Log every character read (needs --log-level trace)\n" ++
  "  -h, --help                   Print help\n" ++
  "  -V, --version                Print version\n"

/-- What is said of arguments that cannot be understood. -/
def usageText : String :=
  "Usage: nassty [OPTIONS] [FILE]\n\nFor more information, try '--help'.\n"

end StyleScan.Command
