import StyleScan.Config.Cursor

/-! # Numbers in configuration files

A JSON number as it is read.  Integers of 64 bits stay integers.  All other numbers become floating
point, from as many leading digits as fit an unsigned word of 64 bits and a power of ten. -/

namespace StyleScan.Config

/-- A number that has been read. -/
inductive Number where
  | natural (n : Nat)
  | negative (n : Int)
  | float (f : Float)
deriving Repr, Inhabited

/-- The value of a number in a message. -/
def Number.found : Number → Found
  | .natural n => .integer n
  | .negative n => .integer n
  | .float f => .float f

/-- The value of a decimal digit. -/
def digitValue (c : Char) : Nat :=
  c.toNat - '0'.toNat

/-- Appends decimal digits to a number as long as it stays below the limit, and counts them. -/
def accumulate (limit : Nat) (n : Nat) : List Char → Nat × Nat
  | [] => (n, 0)
  | d :: ds =>
    let next := n * 10 + digitValue d
    if next < limit then
      let (last, count) := accumulate limit next ds
      (last, count + 1)
    else (n, 0)

/-- A power of ten that floating point can hold. -/
def tenTo (n : Nat) : Float :=
  Float.ofScientific 1 false n

/-- `digits * 10 ^ exponent` in floating point, by one multiplication or by divisions; none if it
is too large. -/
def scale (digits : Nat) (exponent : Int) : Option Float :=
  let f := (UInt64.ofNat digits).toFloat
  let size := exponent.natAbs
  if 0 ≤ exponent then
    if size ≤ 308 then
      let product := f * tenTo size
      if product.isInf then none else some product
    else if digits = 0 then some 0.0
    else none
  else if size ≤ 308 then some (f / tenTo size)
  else if size ≤ 616 then some (f / tenTo 308 / tenTo (size - 308))
  else some 0.0

namespace Cursor

/-- Makes a floating-point number of what has been read. -/
def makeFloat (c : Cursor) (negative : Bool) (digits : Nat) (exponent : Int) :
    Except ConfigError (Number × Cursor) :=
  match scale digits exponent with
  | some f => .ok (.float (if negative then -f else f), c)
  | none => c.fail .numberOutOfRange

/-- Reads the exponent of a number, from its letter on. -/
def exponentPart (c : Cursor) (negative : Bool) (digits : Nat) (exponent : Int) :
    Except ConfigError (Number × Cursor) :=
  let c := c.advance
  let (down, c) := match c.rest with
    | '+' :: _ => (false, c.advance)
    | '-' :: _ => (true, c.advance)
    | _ => (false, c)
  match c.rest with
  | [] => c.fail (.unexpectedEnd .value)
  | x :: _ =>
    if x.isDigit then
      let (ds, after) := c.digits
      let (size, count) := accumulate 0x80000000 0 ds
      if count < ds.length then
        if digits ≠ 0 ∧ !down then (c.skip (count + 1)).fail .numberOutOfRange
        else .ok (.float (if negative then -0.0 else 0.0), after)
      else after.makeFloat negative digits (if down then exponent - size else exponent + size)
    else c.failAhead .invalidNumber

/-- Reads what may follow the digits of a number that is known to be floating point. -/
def floatRest (c : Cursor) (negative : Bool) (digits : Nat) (exponent : Int) :
    Except ConfigError (Number × Cursor) :=
  match c.rest with
  | 'e' :: _ | 'E' :: _ => c.exponentPart negative digits exponent
  | _ => c.makeFloat negative digits exponent

/-- Reads the decimal places of a number, from the point on. -/
def decimalPart (c : Cursor) (negative : Bool) (digits : Nat) (exponent : Int) :
    Except ConfigError (Number × Cursor) :=
  let c := c.advance
  let (ds, after) := c.digits
  if ds.isEmpty then
    if c.rest.isEmpty then c.fail (.unexpectedEnd .value) else c.failAhead .invalidNumber
  else
    let (digits, count) := accumulate UInt64.size digits ds
    after.floatRest negative digits (exponent - count)

/-- The number that the digits alone make. -/
def makeInteger (negative : Bool) (digits : Nat) : Number :=
  if negative then
    if 0 < digits ∧ digits ≤ UInt64.size / 2 then .negative (-(digits : Int))
    else .float (-(UInt64.ofNat digits).toFloat)
  else .natural digits

/-- Reads what may follow the digits before the point. -/
def numberRest (c : Cursor) (negative : Bool) (digits dropped : Nat) :
    Except ConfigError (Number × Cursor) :=
  match c.rest with
  | '.' :: _ => c.decimalPart negative digits dropped
  | 'e' :: _ | 'E' :: _ => c.exponentPart negative digits dropped
  | _ =>
    if dropped = 0 then .ok (makeInteger negative digits, c)
    else c.makeFloat negative digits dropped

/-- Reads a number from after its sign. -/
def number (c : Cursor) (negative : Bool) : Except ConfigError (Number × Cursor) :=
  match c.rest with
  | [] => c.fail (.unexpectedEnd .value)
  | x :: rest =>
    if x = '0' then
      if rest.head?.any Char.isDigit then c.advance.failAhead .invalidNumber
      else c.advance.numberRest negative 0 0
    else if x.isDigit then
      let (ds, after) := c.digits
      let (digits, count) := accumulate UInt64.size 0 ds
      after.numberRest negative digits (ds.length - count)
    else c.failAhead .invalidNumber

end Cursor

end StyleScan.Config
