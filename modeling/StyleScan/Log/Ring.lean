import StyleScan.Log.Record

/-! # Ring buffers

A ring buffer keeps the most recent records, up to its capacity, and counts those that it had to
drop.  The count is a 64-bit word. -/

namespace StyleScan.Log

open Text (Outline)

/-- The most recent records, oldest first. -/
structure Ring where
  capacity : Nat
  records : Array Record
  /-- Records dropped since the last clearing. -/
  dropped : UInt64
deriving Repr, DecidableEq, Inhabited

namespace Ring

/-- An empty ring. -/
def new (capacity : Nat) : Ring :=
  ⟨capacity, #[], 0⟩

/-- Adds a record; a full ring drops its oldest record, and a ring without room the new one. -/
def write (ring : Ring) (r : Record) : Ring :=
  if ring.capacity = 0 then { ring with dropped := ring.dropped + 1 }
  else if ring.capacity ≤ ring.records.size then
    { ring with
      records := (ring.records.extract 1 ring.records.size).push r
      dropped := ring.dropped + 1 }
  else { ring with records := ring.records.push r }

/-- Forgets all records and the count. -/
def clear (ring : Ring) : Ring :=
  { ring with records := #[], dropped := 0 }

/-- The records, oldest first. -/
def toList (ring : Ring) : List Record :=
  ring.records.toList

/-- The number of records. -/
def size (ring : Ring) : Nat :=
  ring.records.size

/-- Whether the ring holds no record. -/
def isEmpty (ring : Ring) : Bool :=
  ring.size == 0

/-- The records on a line each. -/
def dump (ring : Ring) : String :=
  "\n".intercalate (ring.toList.map Record.format)

/-- The diagnostic form of a ring's figures. -/
def stats (ring : Ring) : Outline :=
  .record "RingBufferStats"
    [("record_count", .ofNat ring.size), ("dropped_count", .ofNat ring.dropped.toNat),
      ("capacity", .ofNat ring.capacity)]

end Ring

end StyleScan.Log
