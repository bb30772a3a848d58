import StyleScan.Log.Level
import StyleScan.Text.Outline

/-! # Log records

An entry is what somebody wants to have logged.  A record is an entry with the time at which it
was logged, in milliseconds since the epoch; only the time of day is shown. -/

namespace StyleScan.Log

open Text (Outline)

/-- What is to be logged. -/
structure Entry where
  level : Level
  /-- The part of the program that speaks. -/
  target : String
  message : String
deriving Repr, DecidableEq, Inhabited

/-- A logged entry. -/
structure Record extends Entry where
  /-- Milliseconds since the epoch. -/
  timestamp : Nat
deriving Repr, DecidableEq, Inhabited

/-- The record of an entry that is logged at the given time. -/
def Entry.stamp (e : Entry) (timestamp : Nat) : Record :=
  ⟨e, timestamp⟩

/-- A number in at least `width` decimal digits. -/
def padded (width n : Nat) : String :=
  let digits := toString n
  String.ofList (List.replicate (width - digits.length) '0') ++ digits

/-- The time of day, to the millisecond. -/
def timeOfDay (timestamp : Nat) : String :=
  let seconds := timestamp / 1000
  padded 2 (seconds / 3600 % 24) ++ ":" ++ padded 2 (seconds / 60 % 60) ++ ":" ++
    padded 2 (seconds % 60) ++ "." ++ padded 3 (timestamp % 1000)

namespace Record

/-- A record on one line. -/
def format (r : Record) : String :=
  "[" ++ timeOfDay r.timestamp ++ "] " ++ r.level.name ++ " " ++ r.target ++ ": " ++ r.message

/-- The diagnostic form of a record. -/
def outline (r : Record) : Outline :=
  .record "Record"
    [("timestamp_ms", .ofNat r.timestamp), ("level", .scalar r.level.longName),
      ("target", .ofString r.target), ("message", .ofString r.message)]

end Record

end StyleScan.Log
