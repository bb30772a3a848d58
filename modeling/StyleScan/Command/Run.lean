import StyleScan.Command.Pump
import StyleScan.Command.Settings
import StyleScan.Folder

/-! # A run of the command

The configuration is loaded and overridden, the log is set up, the input is opened, and then the
tokens are written.  The first step that fails ends the run; what has been written and logged by
then stays. -/

namespace StyleScan.Command

open Log (Entry Hub Record Sink)

/-- The name under which the command logs. -/
def commandTarget : String :=
  "nassty"

/-- What is logged about the configuration. -/
def configured (config : Config) : Entry :=
  ⟨.debug, commandTarget, "Configuration: " ++ config.outline.inline⟩

/-- What is logged when the input is open. -/
def beginning (file : Option String) : Entry :=
  ⟨.info, commandTarget, "Tokenizing " ++ file.getD "stdin"⟩

/-- What is logged at the end. -/
def ended (count : Nat) : Entry :=
  ⟨.info, commandTarget, "Produced " ++ toString count ++ " tokens"⟩

/-- What is said of an error that ends a run. -/
def failureText (e : CommandError) : String :=
  "Error: " ++ e.message ++ "\n"

/-- The surroundings of a program: its files, and what it has written to its streams. -/
structure Console where
  folder : Folder
  out : String
  err : String
deriving Repr, DecidableEq, Inhabited

namespace Console

/-- A console with nothing on it. -/
def new (folder : Folder) : Console :=
  ⟨folder, "", ""⟩

/-- Puts a log record where its sink says.  Ring buffers are no part of the surroundings. -/
def deliver (c : Console) (delivery : Sink × Record) : Console :=
  let line := delivery.2.format ++ "\n"
  match delivery.1 with
  | .standardOutput => { c with out := c.out ++ line }
  | .standardError => { c with err := c.err ++ line }
  | .file path => { c with folder := c.folder.append path line.toUTF8.toList }
  | .ring _ => c

/-- Opens a log file. -/
def openLog (path : String) : StateM Console (Except SystemError Unit) := do
  let c ← get
  match c.folder.openAppend path with
  | .ok folder =>
    set { c with folder }
    return .ok ()
  | .error e => return .error e

/-- Puts everything that a hub has delivered where it belongs. -/
def settle (c : Console) (hub : Hub) : Console × Hub :=
  let (deliveries, hub) := hub.handOver
  (deliveries.foldl deliver c, hub)

/-- Logs entries. -/
def log (c : Console) (hub : Hub) (now : Nat) (entries : List Entry) : Console × Hub :=
  c.settle (hub.logAll now entries)

/-- Whether the input can be opened.  That holds of a directory too. -/
def openInput (c : Console) : Option String → Except CommandError Unit
  | none => .ok ()
  | some path =>
    match c.folder.node path with
    | .ok _ => .ok ()
    | .error e => .error (.read path e)

/-- What a hub writes at the end of the file at `path` when it logs entries. -/
def added (c : Console) (path : String) (hub : Hub) (now : Nat) (entries : Array Entry) :
    List UInt8 :=
  let deliveries := entries.toList.flatMap fun e => hub.logger.deliveries (e.stamp now)
  deliveries.flatMap fun delivery =>
    match delivery.1 with
    | .file log =>
      if c.folder.isSame log path then (delivery.2.format ++ "\n").toUTF8.toList else []
    | _ => []

/-- Whether a hub writes to the file at `path`. -/
def isLogged (c : Console) (path : String) (hub : Hub) : Bool :=
  hub.logger.sinks.any fun
    | .file log => c.folder.isSame log path
    | _ => false

/-- The readings of the opened input, which `pump` will get.  The input may be the log file. -/
def readings (c : Console) (input : List UInt8) (size : Nat) (hub : Hub) (now : Nat)
    (pump : Pump Sink) : Option String → List Reading
  | none => inputReadings size input
  | some path =>
    match c.folder.read path with
    | .error e => [.failed e]
    | .ok bytes =>
      if c.isLogged path hub then
        growingReadings size (c.added path hub now) pump bytes readingLimit
      else fileReadings size bytes

end Console

/-- Reads and writes with everything set up, and gives the number of tokens written. -/
def transfer (config : Config) (file : Option String) (input : List UInt8) (now : Nat)
    (console : Console) (hub : Hub) : Except CommandError Nat × Console × Hub :=
  let (session, made) := Session.new hub.logger config.lexer.traceChars false
  let (console, hub) := console.log hub now (configured config :: made)
  match console.openInput file with
  | .error e => (.error e, console, hub)
  | .ok () =>
    let (console, hub) := console.log hub now [beginning file]
    let pump := Pump.new session (.new config.output.format)
    let size := config.output.chunkSize.toNat
    let (pump, failure) := pump.run (console.readings input size hub now pump file)
    let (console, hub) := console.log hub now pump.entries.toList
    let console := { console with out := console.out ++ pump.printer.output }
    match failure with
    | some e => (.error e, console, hub)
    | none => (.ok pump.printer.written, console, hub)

/-- A run with the given options, standard input and time. -/
def execute (o : Options) (input : List UInt8) (now : Nat) (console : Console) :
    Except CommandError Unit × Console :=
  match load console.folder.readText o.config with
  | .error e => (.error e, console)
  | .ok config =>
    match o.overrides.apply config with
    | (_, some e) => (.error e, console)
    | (config, none) =>
      match (logSetup config.logging).tryInit Console.openLog |>.run console with
      | (.error e, console) => (.error (.logging e), console)
      | (.ok hub, console) =>
        match transfer config o.file input now console hub with
        | (.error e, console, _) => (.error e, console)
        | (.ok count, console, hub) => (.ok (), (console.log hub now [ended count]).1)

/-- The exit code of a run with the given arguments, and what it leaves behind. -/
def run (args : List String) (input : List UInt8) (now : Nat) (console : Console) :
    Nat × Console :=
  match Invocation.parse args with
  | .misuse => (2, { console with err := console.err ++ usageText })
  | .version => (0, { console with out := console.out ++ versionText })
  | .help => (0, { console with out := console.out ++ helpText })
  | .run o =>
    match execute o input now console with
    | (.ok (), console) => (0, console)
    | (.error e, console) => (1, { console with err := console.err ++ failureText e })

end StyleScan.Command
