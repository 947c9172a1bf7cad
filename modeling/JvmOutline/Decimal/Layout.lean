import JvmOutline.Decimal.Shortest

/-!
# Decimal text — how a floating-point number is written

`DecimalLayout` records every decision that the digits leave open; `DecimalLayout.render` writes
a bit pattern accordingly.  `DecimalLayout.plain` is the layout of all numbers in this library's
texts.
-/

namespace JvmOutline

/-- Where positional writing ends, and the texts of what has no digits. -/
structure DecimalLayout where
  /-- The least exponent of the first digit that is written positionally. -/
  least : Int
  /-- The greatest exponent of the first digit that is written positionally. -/
  greatest : Int
  nan : String
  infinity : String

namespace DecimalLayout

/-- Numbers from `10^-4` up to below `10^16` are written positionally and always with a fraction;
numbers outside that range are written with an exponent. -/
def plain : DecimalLayout := ⟨-4, 15, "NaN", "inf"⟩

/-- Digits with a point, and at least one digit after it. -/
def positional (d : Digits) : List Char :=
  if d.exponent < 0 then
    '0' :: '.' :: (List.replicate (-d.exponent - 1).toNat '0' ++ d.digits)
  else
    let whole := d.exponent.toNat + 1
    let fraction := d.digits.drop whole
    d.digits.take whole ++ List.replicate (whole - d.digits.length) '0' ++
      '.' :: (if fraction = [] then ['0'] else fraction)

/-- One digit before the point, the point only if digits follow, and the exponent. -/
def exponential (d : Digits) : List Char :=
  let fraction := d.digits.drop 1
  d.digits.take 1 ++ (if fraction = [] then [] else '.' :: fraction) ++
    'e' :: (toString d.exponent).toList

/-- The text of a bit pattern. -/
def render (l : DecimalLayout) (f : Binary) (bits : Nat) : String :=
  match f.decode bits with
  | .nan => l.nan
  | .infinity negative => (if negative then "-" else "") ++ l.infinity
  | .finite negative m q =>
    let d := Digits.shortest f m q
    let body := if l.least ≤ d.exponent ∧ d.exponent ≤ l.greatest then positional d
      else exponential d
    (if negative then "-" else "") ++ String.ofList body

end DecimalLayout

/-- The text of a 32-bit number. -/
def singleText (bits : UInt32) : String := DecimalLayout.plain.render .single bits.toNat

/-- The text of a 64-bit number. -/
def doubleText (bits : UInt64) : String := DecimalLayout.plain.render .double bits.toNat

end JvmOutline
