import JvmOutline.Decimal.Binary

/-!
# Shortest decimals

Every number near a binary floating-point number rounds to it; the decimal to print is the one
with the fewest digits among those.  `Span` is the interval of the numbers that round to the
value, and `Span.shortest` tries the decimal grids from coarse to fine: on each grid only the two
neighbours of the value matter, the first grid with a neighbour inside the span gives the digits,
the nearer of two wins, and of two equally near the larger.

All arithmetic is exact: a span holds numerators over one common denominator.
-/

namespace JvmOutline

/-- An interval around a value: `low`, `value` and `high` are numerators over `unit`, and the ends
belong to it when it is closed. -/
structure Span where
  low : Nat
  value : Nat
  high : Nat
  unit : Nat
  closed : Bool

namespace Span

/-- The numbers that round to `m · 2^q`.  The interval reaches half way to both neighbours.  Where
the significand is a power of two, the neighbour below is half as far.  An even significand
attracts the ends. -/
def around (f : Binary) (m : Nat) (q : Int) : Span :=
  let scale := Nat.pow 2 (q - 2).toNat
  let below := if m = f.fractions then 1 else 2
  { low := (4 * m - below) * scale
    value := 4 * m * scale
    high := (4 * m + 2) * scale
    unit := Nat.pow 2 (2 - q).toNat
    closed := m % 2 == 0 }

/-- The same interval, measured in units of `10^p`. -/
def scaled (s : Span) (p : Int) : Span :=
  let up := Nat.pow 10 (-p).toNat
  { low := s.low * up
    value := s.value * up
    high := s.high * up
    unit := s.unit * Nat.pow 10 p.toNat
    closed := s.closed }

/-- Whether a whole multiple of the denominator lies in the interval. -/
def holds (s : Span) (n : Nat) : Bool :=
  if s.closed then s.low ≤ n * s.unit && n * s.unit ≤ s.high
  else s.low < n * s.unit && n * s.unit < s.high

/-- The point of the grid of whole numbers to print for the value, if one lies in the interval. -/
def nearest? (s : Span) : Option Nat :=
  let below := s.value / s.unit
  let above := below + 1
  match s.holds below, s.holds above with
  | true, true => some (if 2 * s.value < (below + above) * s.unit then below else above)
  | true, false => some below
  | false, true => some above
  | false, false => none

/-- The exponent of the leading decimal digit: the `e` with `10^e ≤ v < 10^(e+1)`. -/
def leading (s : Span) : Int :=
  if s.unit ≤ s.value then (Nat.toDigits 10 (s.value / s.unit)).length - 1
  else -((Nat.toDigits 10 ((s.unit + s.value - 1) / s.value - 1)).length : Int)

/-- A coefficient and the exponent of its last digit: seventeen digits are enough for every number
of 64 bits. -/
def shortest (s : Span) : Nat × Int :=
  let e := s.leading
  let finest := e - 16
  ((List.range 17).findSome? fun (i : Nat) =>
    let p := e - (i : Int)
    (s.scaled p).nearest?.map (·, p)).getD
      ((s.scaled finest).value / (s.scaled finest).unit, finest)

end Span

/-- The significant digits of a decimal and the exponent of the first one. -/
structure Digits where
  digits : List Char
  exponent : Int

/-- Writes a coefficient as digits, less the zeros at its end. -/
def Digits.ofCoefficient (coefficient : Nat) (p : Int) : Digits :=
  let all := Nat.toDigits 10 coefficient
  { digits := (all.reverse.dropWhile (· == '0')).reverse
    exponent := p + all.length - 1 }

/-- The digits to print for `m · 2^q`. -/
def Digits.shortest (f : Binary) (m : Nat) (q : Int) : Digits :=
  if m = 0 then ⟨['0'], 0⟩
  else
    let (coefficient, p) := (Span.around f m q).shortest
    Digits.ofCoefficient coefficient p

end JvmOutline
