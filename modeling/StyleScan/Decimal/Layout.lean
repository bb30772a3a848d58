import StyleScan.Decimal.Shortest

/-! # Layout of decimals

How the digits of a decimal are written: with the point in its place for moderate exponents, and
otherwise with one digit before the point and the exponent behind it. -/

namespace StyleScan.Decimal

/-- The decisions of a number format. -/
structure Layout where
  /-- The least exponent of the first digit that is written with the point in its place. -/
  plainFrom : Int
  /-- The greatest such exponent. -/
  plainTo : Int
deriving Repr, DecidableEq, Inhabited

namespace Layout

/-- Zeros. -/
private def zeros (n : Nat) : String :=
  String.ofList (List.replicate n '0')

/-- Digits with the point in its place, and at least one digit on either side. -/
def plain (d : Digits) : String :=
  let text := toString d.digits
  if 0 ≤ d.exponent then text ++ zeros d.exponent.toNat ++ ".0"
  else
    let places := (-d.exponent).toNat
    if places < text.length then
      String.ofList (text.toList.take (text.length - places)) ++ "." ++
        String.ofList (text.toList.drop (text.length - places))
    else "0." ++ zeros (places - text.length) ++ text

/-- Digits with a written exponent. -/
def scientific (d : Digits) (exponent : Int) : String :=
  let (first, others) := (toString d.digits).toList.splitAt 1
  String.ofList first ++ (if others.isEmpty then "" else "." ++ String.ofList others) ++ "e" ++
    (if exponent < 0 then "-" else "+") ++ toString exponent.natAbs

/-- The written form of a decimal. -/
def digits (layout : Layout) (d : Digits) : String :=
  let exponent := d.exponent + ((toString d.digits).length : Int) - 1
  if layout.plainFrom ≤ exponent ∧ exponent ≤ layout.plainTo then plain d
  else scientific d exponent

/-- The written form of a finite 64-bit number. -/
def float (layout : Layout) (f : Float) : String :=
  let bits := f.toBits
  (if bits.toNat.testBit 63 then "-" else "") ++ layout.digits (shortest bits)

end Layout

end StyleScan.Decimal
