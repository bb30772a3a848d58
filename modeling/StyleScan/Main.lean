import StyleScan.Command.Run
import Std.Time.DateTime.Timestamp

/-! # The program

The command with the machine's own files, streams and clock for its surroundings. -/

namespace StyleScan.Program

open Command (CommandError Options Pump)
open Log (Entry Hub Record Sink)

/-- A part of the program that may end it. -/
abbrev Action (α : Type) : Type :=
  ExceptT CommandError IO α

/-- A system error in the library's terms. -/
def systemError : IO.Error → SystemError
  | .noFileOrDirectory _ _ _ => .notFound
  | .inappropriateType _ 21 _ => .isDirectory
  | .inappropriateType _ 20 _ => .notDirectory
  | e => .other (toString e)

/-- The result of an action that the system may refuse. -/
def attempt {α : Type} (action : IO α) : IO (Except SystemError α) :=
  try return .ok (← action)
  catch e => return .error (systemError e)

/-- Milliseconds since the epoch. -/
def now : IO Nat :=
  return (← Std.Time.Timestamp.now).toMillisecondsSinceUnixEpoch.toInt.toNat

/-- The text of a file. -/
def readText (path : String) : IO (Except SystemError String) := do
  match ← attempt (IO.FS.readBinFile path) with
  | .error e => return .error e
  | .ok bytes =>
    match Utf8.text? bytes.toList with
    | some text => return .ok text
    | none => return .error .notText

/-- Whether a log file can be opened.  A file that does not exist is made. -/
def openLog (path : String) : IO (Except SystemError Unit) :=
  attempt (IO.FS.withFile path .append fun _ => return ())

/-- Puts a log record where its sink says. -/
def deliver (delivery : Sink × Record) : IO Unit := do
  let line := delivery.2.format ++ "\n"
  match delivery.1 with
  | .standardOutput => (← IO.getStdout).putStr line
  | .standardError => (← IO.getStderr).putStr line
  | .file path =>
    let _ ← attempt (IO.FS.withFile path .append fun file => file.putStr line)
  | .ring _ => return ()

/-- Logs entries. -/
def log (hub : Hub) (entries : List Entry) : IO Hub := do
  let (deliveries, hub) := (hub.logAll (← now) entries).handOver
  deliveries.forM deliver
  return hub

/-- The configuration of a run. -/
def configuration (o : Options) : Action Config := do
  let text ← match o.config with
    | some path => readText path
    | none => pure (.ok "")
  let loaded ← ExceptT.mk (pure (Command.load (fun _ => text) o.config))
  match o.overrides.apply loaded with
  | (_, some e) => throw e
  | (config, none) => return config

/-- The log of a run. -/
def setUp (config : Config) : Action Hub := do
  let attached : Except SystemError Hub ← ((Command.logSetup config.logging).tryInit openLog : IO _)
  match attached with
  | .ok hub => return hub
  | .error e => throw (.logging e)

/-- The opened input. -/
def openInput : Option String → Action IO.FS.Stream
  | none => IO.getStdin
  | some path => do
    match ← attempt (IO.FS.Handle.mk path .read) with
    | .ok file => return .ofHandle file
    | .error e => throw (.read path e)

/-- Writes out what a pump has printed and logged. -/
def flush (hub : Hub) (p : Pump Sink) : IO (Hub × Pump Sink) := do
  (← IO.getStdout).putStr p.printer.output
  let hub ← log hub p.entries.toList
  return (hub, { p with printer := { p.printer with output := "" }, entries := #[] })

/-- Pumps a stream to its end. -/
partial def pump (stream : IO.FS.Stream) (size : USize) (hub : Hub) (p : Pump Sink) :
    Action (Hub × Nat) := do
  let advance (result : Pump Sink × Option CommandError) : Action (Hub × Pump Sink) := do
    let flushed ← flush hub result.1
    match result.2 with
    | some e => throw e
    | none => return flushed
  match ← (stream.read size).toBaseIO with
  | .error (.interrupted _ _ _) => pump stream size hub p
  | .error e => throw (.io (systemError e))
  | .ok piece =>
    if piece.isEmpty then
      let (hub, p) ← advance p.finish
      return (hub, p.printer.written)
    else
      let (hub, p) ← advance (p.feed piece.toList)
      pump stream size hub p

/-- A run with the given options. -/
def execute (o : Options) : Action Unit := do
  let config ← configuration o
  let hub ← setUp config
  let (session, made) := Session.new hub.logger config.lexer.traceChars false
  let hub ← log hub (Command.configured config :: made)
  let stream ← openInput o.file
  let hub ← log hub [Command.beginning o.file]
  let (hub, count) ← pump stream config.output.chunkSize.toUSize hub
    (.new session (.new config.output.format))
  let _ ← log hub [Command.ended count]

end StyleScan.Program

open StyleScan in
/-- Runs the command with the given arguments and answers its exit code. -/
def main (args : List String) : IO UInt32 := do
  match Command.Invocation.parse args with
  | .misuse =>
    (← IO.getStderr).putStr Command.usageText
    return 2
  | .version =>
    (← IO.getStdout).putStr Command.versionText
    return 0
  | .help =>
    (← IO.getStdout).putStr Command.helpText
    return 0
  | .run o =>
    match ← (Program.execute o).run with
    | .ok () => return 0
    | .error e =>
      (← IO.getStderr).putStr (Command.failureText e)
      return 1
