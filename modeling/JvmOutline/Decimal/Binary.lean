/-!
# Binary floating point — what a bit pattern stands for

A bit pattern is a sign, an exponent field and a fraction field.  It stands for a number
`m · 2^q`, for an infinity, or for no number (`Binary.decode`).  Numbers are compared as numbers:
the two zeros are equal, and what is no number equals nothing (`Binary.equal`).
-/

namespace JvmOutline

/-- The field widths of a binary floating-point format. -/
structure Binary where
  fraction : Nat
  exponent : Nat

namespace Binary

/-- The 32-bit format. -/
def single : Binary := ⟨23, 8⟩

/-- The 64-bit format. -/
def double : Binary := ⟨52, 11⟩

/-- What a bit pattern stands for; a number is `m · 2^q`, with its sign apart. -/
inductive Datum where
  | nan
  | infinity (negative : Bool)
  | finite (negative : Bool) (m : Nat) (q : Int)
  deriving DecidableEq

/-- The number of different fraction fields. -/
def fractions (f : Binary) : Nat := Nat.pow 2 f.fraction

/-- The number of different exponent fields. -/
def exponents (f : Binary) : Nat := Nat.pow 2 f.exponent

/-- The exponent of the last place of the smallest numbers. -/
def leastExponent (f : Binary) : Int := 2 - (f.exponents / 2 : Nat) - f.fraction

/-- Splits a bit pattern into its fields and reads them. -/
def decode (f : Binary) (bits : Nat) : Datum :=
  let fraction := bits % f.fractions
  let exponent := bits / f.fractions % f.exponents
  let negative := bits / f.fractions / f.exponents % 2 == 1
  if exponent = f.exponents - 1 then
    if fraction = 0 then .infinity negative else .nan
  else if exponent = 0 then .finite negative fraction f.leastExponent
  else .finite negative (f.fractions + fraction) (f.leastExponent + (exponent - 1))

/-- Equality of numbers: a zero equals a zero of either sign, and what is no number equals
nothing. -/
def equal (f : Binary) (a b : Nat) : Bool :=
  match f.decode a, f.decode b with
  | .nan, _ => false
  | _, .nan => false
  | .finite _ 0 _, .finite _ 0 _ => true
  | x, y => x == y

end Binary

end JvmOutline
