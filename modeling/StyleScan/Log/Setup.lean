import StyleScan.Log.Logger
import StyleScan.SystemError

/-! # Setting up a log

A setup lists where records go.  Its outputs become the sinks of one logger, in order.  A file may
turn out not to be openable; a setup then either fails, or goes on without that output and logs a
warning to the sinks that are there already.

How a file is opened is a parameter, since that depends on the surroundings. -/

namespace StyleScan.Log

open Text (Outline)

/-- Where records go. -/
inductive Output where
  | standardOutput
  | standardError
  /-- To the end of a file. -/
  | file (path : String)
  /-- Into a ring buffer. -/
  | ring (capacity : Nat)
deriving Repr, DecidableEq, Inhabited

/-- The diagnostic form of an output. -/
def Output.outline : Output → Outline
  | .standardOutput => .scalar "Stdout"
  | .standardError => .scalar "Stderr"
  | .file path => .applied "File" [.ofString path]
  | .ring capacity => .applied "RingBuffer" [.ofNat capacity]

/-- A sink of a hub. -/
inductive Sink where
  | standardOutput
  | standardError
  | file (path : String)
  /-- The ring buffer with this number. -/
  | ring (index : Nat)
deriving Repr, DecidableEq, Inhabited

/-- A logger with its ring buffers, and what it has delivered to its sinks in order. -/
structure Hub where
  logger : Logger Sink
  rings : Array Ring
  /-- Deliveries since the last hand-over, oldest first. -/
  delivered : Array (Sink × Record)
deriving Repr, DecidableEq, Inhabited

namespace Hub

/-- A logger without sinks. -/
def new (level : Level) : Hub :=
  ⟨.new level, #[], #[]⟩

/-- Delivers a record to one sink. -/
def deliver (hub : Hub) (delivery : Sink × Record) : Hub :=
  let hub := { hub with delivered := hub.delivered.push delivery }
  match delivery with
  | (.ring k, r) => { hub with rings := hub.rings.modify k (·.write r) }
  | _ => hub

/-- Logs a record. -/
def log (hub : Hub) (r : Record) : Hub :=
  (hub.logger.deliveries r).foldl deliver hub

/-- Logs entries at one time. -/
def logAll (hub : Hub) (now : Nat) (entries : List Entry) : Hub :=
  entries.foldl (fun hub e => hub.log (e.stamp now)) hub

/-- Hands the deliveries over. -/
def handOver (hub : Hub) : List (Sink × Record) × Hub :=
  (hub.delivered.toList, { hub with delivered := #[] })

/-- The ring buffer that was set up last. -/
def lastRing? (hub : Hub) : Option Ring :=
  hub.rings.back?

end Hub

/-- A level and the outputs of a log. -/
structure Setup where
  level : Level
  outputs : List Output
deriving Repr, DecidableEq, Inhabited

/-- The name under which a setup logs. -/
def setupTarget : String :=
  "nassty_log::config"

/-- The message of an output that could not be opened. -/
def openingMessage (e : SystemError) : String :=
  "IO error: " ++ e.message

/-- The warning about an output that is left out. -/
def skipped (e : SystemError) : Entry :=
  ⟨.warn, setupTarget, "log output skipped: " ++ openingMessage e⟩

namespace Setup

/-- No outputs. -/
def new (level : Level) : Setup :=
  ⟨level, []⟩

/-- For development: everything but traces, to the standard error and into a ring buffer. -/
def dev : Setup :=
  ⟨.debug, [.standardError, .ring 10000]⟩

/-- Errors only, to nowhere. -/
def quiet : Setup :=
  new .error

/-- Adds an output. -/
def add (s : Setup) (o : Output) : Setup :=
  { s with outputs := s.outputs ++ [o] }

/-- Adds the standard output, once. -/
def withStandardOutput (s : Setup) : Setup :=
  if .standardOutput ∈ s.outputs then s else s.add .standardOutput

/-- Adds the standard error, once. -/
def withStandardError (s : Setup) : Setup :=
  if .standardError ∈ s.outputs then s else s.add .standardError

/-- Adds a file. -/
def withFile (s : Setup) (path : String) : Setup :=
  s.add (.file path)

/-- Adds a ring buffer. -/
def withRing (s : Setup) (capacity : Nat) : Setup :=
  s.add (.ring capacity)

/-- The diagnostic form of a setup. -/
def outline (s : Setup) : Outline :=
  .record "LogConfig"
    [("level", .scalar s.level.longName), ("outputs", .items (s.outputs.map Output.outline))]

variable {m : Type → Type} [Monad m]

/-- Makes an output a sink of the hub. -/
def attach (openFile : String → m (Except SystemError Unit)) (hub : Hub) :
    Output → m (Except SystemError Hub)
  | .standardOutput => return .ok { hub with logger := hub.logger.addSink .standardOutput }
  | .standardError => return .ok { hub with logger := hub.logger.addSink .standardError }
  | .ring capacity =>
    return .ok
      { hub with
        logger := hub.logger.addSink (.ring hub.rings.size)
        rings := hub.rings.push (.new capacity) }
  | .file path => do
    match ← openFile path with
    | .ok () => return .ok { hub with logger := hub.logger.addSink (.file path) }
    | .error e => return .error e

/-- Attaches outputs up to the first that cannot be opened. -/
def attachAll (openFile : String → m (Except SystemError Unit)) (hub : Hub) :
    List Output → m (Except SystemError Hub)
  | [] => return .ok hub
  | o :: rest => do
    match ← attach openFile hub o with
    | .ok hub => attachAll openFile hub rest
    | .error e => return .error e

/-- Attaches the outputs that can be opened and warns about each of the others. -/
def attachSome (openFile : String → m (Except SystemError Unit)) (now : Nat) (hub : Hub) :
    List Output → m Hub
  | [] => return hub
  | o :: rest => do
    match ← attach openFile hub o with
    | .ok hub => attachSome openFile now hub rest
    | .error e => attachSome openFile now (hub.log ((skipped e).stamp now)) rest

/-- Sets the log up, or fails with the first output that cannot be opened. -/
def tryInit (s : Setup) (openFile : String → m (Except SystemError Unit)) :
    m (Except SystemError Hub) :=
  attachAll openFile (.new s.level) s.outputs

/-- Sets the log up at the given time with the outputs that can be opened. -/
def init (s : Setup) (openFile : String → m (Except SystemError Unit)) (now : Nat) : m Hub :=
  attachSome openFile now (.new s.level) s.outputs

end Setup

end StyleScan.Log
