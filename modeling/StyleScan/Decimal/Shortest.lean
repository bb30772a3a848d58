/-! # Shortest decimals

A binary floating-point number stands for the real numbers that round to it, an interval around
its value.  Its shortest decimal has the fewest digits of all decimals in that interval, and is the
nearest to the value among those with as few; of two equally near ones the last digit is even.

A decimal with a given number of digits is a point of a grid whose step is a power of ten.  If the
interval holds any point of the grid, it holds one of the value's two neighbours on it, so trying
these two on finer and finer grids is enough.  All comparisons are made in natural numbers. -/

namespace StyleScan.Decimal

/-- A decimal number: the digits, read as an integer, times a power of ten. -/
structure Digits where
  digits : Nat
  exponent : Int
deriving Repr, DecidableEq, Inhabited

/-- A positive value and the interval that rounds to it, as numerators over one denominator. -/
structure Interval where
  low : Nat
  value : Nat
  high : Nat
  denominator : Nat
  /-- The ends round to the value too. -/
  closed : Bool
deriving Repr, DecidableEq, Inhabited

namespace Interval

/-- The interval of the 64-bit number with the given fraction and exponent bits.  Numerators count
quarters of the distance to the next number; the distance to the one before is half as long at a
power of two. -/
def ofFields (fraction biased : Nat) : Interval :=
  let mantissa := if biased = 0 then fraction else 0x10000000000000 + fraction
  let shift : Int := (if biased = 0 then -1074 else (biased : Int) - 1075) - 2
  let scale := 1 <<< shift.toNat
  let below := if fraction = 0 ∧ 1 < biased then 1 else 2
  { low := (4 * mantissa - below) * scale
    value := 4 * mantissa * scale
    high := (4 * mantissa + 2) * scale
    denominator := 1 <<< (-shift).toNat
    closed := mantissa % 2 = 0 }

/-- The exponent of the value's first decimal digit. -/
def leading (i : Interval) : Int :=
  let places : Nat := 400
  ((Nat.toDigits 10 (i.value * Nat.pow 10 places / i.denominator)).length : Int) - 1 - places

/-- Whether a number, over the interval's denominator times `scale`, lies in the interval. -/
def contains (i : Interval) (scale n : Nat) : Bool :=
  if i.closed then i.low * scale ≤ n ∧ n ≤ i.high * scale
  else i.low * scale < n ∧ n < i.high * scale

/-- The point of the grid with step `10 ^ exponent` that is nearest to the value, if the interval
holds a point of it. -/
def onGrid (i : Interval) (exponent : Int) : Option Digits :=
  let scale := Nat.pow 10 (-exponent).toNat
  let step := i.denominator * Nat.pow 10 exponent.toNat
  let down := i.value * scale / step
  let up := down + 1
  let rest := i.value * scale - down * step
  match i.contains scale (down * step), i.contains scale (up * step) with
  | false, false => none
  | true, false => some ⟨down, exponent⟩
  | false, true => some ⟨up, exponent⟩
  | true, true =>
    if 2 * rest < step ∨ (2 * rest = step ∧ down % 2 = 0) then some ⟨down, exponent⟩
    else some ⟨up, exponent⟩

/-- The shortest decimal of the interval.  Seventeen digits tell any two numbers apart. -/
def shortest (i : Interval) : Digits :=
  ((List.range 17).findSome? fun k => i.onGrid (i.leading - (k : Nat))).getD ⟨0, 0⟩

end Interval

/-- Drops trailing zeros, at most `limit` of them. -/
def Digits.strip (d : Digits) : Nat → Digits
  | 0 => d
  | limit + 1 =>
    if d.digits ≠ 0 ∧ d.digits % 10 = 0 then strip ⟨d.digits / 10, d.exponent + 1⟩ limit else d

/-- The shortest decimal of a finite 64-bit number without its sign, zero for zero. -/
def shortest (bits : UInt64) : Digits :=
  let fraction := (bits &&& 0xfffffffffffff).toNat
  let biased := (bits >>> 52 &&& 0x7ff).toNat
  if fraction = 0 ∧ biased = 0 then ⟨0, 0⟩
  else (Interval.ofFields fraction biased).shortest.strip 17

end StyleScan.Decimal
