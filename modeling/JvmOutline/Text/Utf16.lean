/-!
# UTF-16 — code units

A character below `0x10000` is one code unit, a character above it a pair of surrogates
(`units`).  `decodeLossy` reads any sequence of code units: a high surrogate followed by a low
one is one character, and every surrogate that stands without its partner becomes the replacement
character.

The reader carries what it has read, newest first; `decodeFrom_eq` says that this changes nothing
but the order of work.
-/

namespace JvmOutline.Utf16

/-- The first half of a pair. -/
def isHigh (u : UInt16) : Bool := 0xD800 ≤ u && u < 0xDC00

/-- The second half of a pair. -/
def isLow (u : UInt16) : Bool := 0xDC00 ≤ u && u < 0xE000

/-- Stands for what is no character. -/
def replacement : Char := '\uFFFD'

/-- The character that a pair of surrogates spells. -/
def pair (high low : UInt16) : Char :=
  .ofNat (0x10000 + (high.toNat - 0xD800) * 0x400 + (low.toNat - 0xDC00))

/-- The character that one code unit spells on its own. -/
def single (u : UInt16) : Char := if isHigh u || isLow u then replacement else .ofNat u.toNat

/-- The code units of one character. -/
def units (c : Char) : List UInt16 :=
  let n := c.toNat
  if n < 0x10000 then [.ofNat n]
  else [.ofNat (0xD800 + (n - 0x10000) / 0x400), .ofNat (0xDC00 + (n - 0x10000) % 0x400)]

/-- Reads on after the characters `read`, which are held newest first. -/
def decodeFrom (read : List Char) : List UInt16 → List Char
  | [] => read.reverse
  | [u] => (single u :: read).reverse
  | u :: v :: rest =>
    if isHigh u && isLow v then decodeFrom (pair u v :: read) rest
    else decodeFrom (single u :: read) (v :: rest)

/-- The text that a sequence of code units spells. -/
def decodeLossy (us : List UInt16) : List Char := decodeFrom [] us

/-! ### The characters read so far stand in front -/

theorem decodeFrom_eq (read : List Char) (us : List UInt16) :
    decodeFrom read us = read.reverse ++ decodeLossy us := by
  unfold decodeLossy
  suffices h : ∀ (pre read : List Char) (us : List UInt16),
      decodeFrom (read ++ pre) us = pre.reverse ++ decodeFrom read us from h read [] us
  intro pre read us
  fun_induction decodeFrom read us with
  | case1 read => simp [decodeFrom]
  | case2 read u => simp [decodeFrom]
  | case3 read u v rest h ih => simpa [decodeFrom, h] using ih
  | case4 read u v rest h ih => simpa [decodeFrom, h] using ih

end JvmOutline.Utf16
