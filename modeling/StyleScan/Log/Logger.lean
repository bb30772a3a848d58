import StyleScan.Log.Ring

/-! # Loggers

A logger hands the records that are important enough to all of its sinks, in order.  What a sink
is does not matter here. -/

namespace StyleScan.Log

open Text (Outline)

/-- A threshold and the sinks behind it. -/
structure Logger (σ : Type) where
  level : Level
  sinks : List σ
deriving Repr, DecidableEq, Inhabited

namespace Logger

variable {σ : Type}

/-- A logger without sinks. -/
def new (level : Level) : Logger σ :=
  ⟨level, []⟩

/-- A logger for those who do not care: it has no sinks and lets nothing but errors through. -/
def noop : Logger σ :=
  new .error

/-- Adds a sink after the others. -/
def addSink (l : Logger σ) (s : σ) : Logger σ :=
  { l with sinks := l.sinks ++ [s] }

/-- Changes the threshold. -/
def setLevel (l : Logger σ) (level : Level) : Logger σ :=
  { l with level }

/-- Whether records of the given level pass. -/
def isEnabled (l : Logger σ) (level : Level) : Bool :=
  l.level ≤ level

/-- The sinks that get a record of the given level. -/
def receivers (l : Logger σ) (level : Level) : List σ :=
  if l.isEnabled level then l.sinks else []

/-- The deliveries of a record: each sink that gets it, with the record. -/
def deliveries (l : Logger σ) (r : Record) : List (σ × Record) :=
  (l.receivers r.level).map (·, r)

/-- The entries that pass, in order. -/
def passing (l : Logger σ) (entries : List Entry) : List Entry :=
  entries.filter fun e => l.isEnabled e.level

/-- The diagnostic form of a logger. -/
def outline (l : Logger σ) : Outline :=
  .record "Logger" [("level", .scalar l.level.longName), ("sinks", .ofNat l.sinks.length)]

end Logger

end StyleScan.Log
