import JvmOutline.Bytes

/-!
# UTF-8

A character is written in one to four bytes: `encode` writes a text, and `decode?` reads one.
`decode?` refuses every byte string that `encode` does not produce: a byte that starts no
character, a missing continuation byte, a sequence longer than its character needs, and the code
points that are no characters.

The reader carries what it has read, newest first; `decodeFrom_eq` says that this changes nothing
but the order of work.
-/

namespace JvmOutline.Utf8

/-- A continuation byte: two marker bits and six bits of the code point. -/
def isTail (b : UInt8) : Bool := 0x80 ≤ b && b < 0xC0

/-- The bytes of one character. -/
def encodeChar (c : Char) : Bytes :=
  let n := c.toNat
  if n < 0x80 then [.ofNat n]
  else if n < 0x800 then [.ofNat (0xC0 + n / 64), .ofNat (0x80 + n % 64)]
  else if n < 0x10000 then
    [.ofNat (0xE0 + n / 4096), .ofNat (0x80 + n / 64 % 64), .ofNat (0x80 + n % 64)]
  else
    [.ofNat (0xF0 + n / 262144), .ofNat (0x80 + n / 4096 % 64), .ofNat (0x80 + n / 64 % 64),
      .ofNat (0x80 + n % 64)]

/-- The bytes of a text. -/
def encode (chars : List Char) : Bytes := chars.flatMap encodeChar

/-- The code point that a two-byte sequence spells. -/
def point2 (a b : UInt8) : Nat := a.toNat % 32 * 64 + b.toNat % 64

/-- The code point that a three-byte sequence spells. -/
def point3 (a b c : UInt8) : Nat := (a.toNat % 16 * 64 + b.toNat % 64) * 64 + c.toNat % 64

/-- The code point that a four-byte sequence spells. -/
def point4 (a b c d : UInt8) : Nat :=
  ((a.toNat % 8 * 64 + b.toNat % 64) * 64 + c.toNat % 64) * 64 + d.toNat % 64

/-- A sequence of three bytes spells a character that needs three and is no surrogate. -/
def isSeq3 (a b c : UInt8) : Bool :=
  isTail b && isTail c && 0x800 ≤ point3 a b c && (point3 a b c).isValidChar

/-- A sequence of four bytes spells a character that needs four and is in range. -/
def isSeq4 (a b c d : UInt8) : Bool :=
  isTail b && isTail c && isTail d && 0x10000 ≤ point4 a b c d && (point4 a b c d).isValidChar

/-- The character at the front of a byte string that begins with `a`, and the number of bytes that
it takes after `a`. -/
def charAt? (a : UInt8) (rest : Bytes) : Option (Char × Nat) :=
  if a < 0x80 then some (.ofNat a.toNat, 0)
  else if a < 0xC2 then none
  else if a < 0xE0 then
    match rest with
    | b :: _ => if isTail b then some (.ofNat (point2 a b), 1) else none
    | _ => none
  else if a < 0xF0 then
    match rest with
    | b :: c :: _ => if isSeq3 a b c then some (.ofNat (point3 a b c), 2) else none
    | _ => none
  else if a < 0xF8 then
    match rest with
    | b :: c :: d :: _ => if isSeq4 a b c d then some (.ofNat (point4 a b c d), 3) else none
    | _ => none
  else none

/-- Reads on after the characters `read`, which are held newest first; the first `skip` bytes
belong to the newest of them. -/
def decodeFrom (read : List Char) (skip : Nat) : Bytes → Option (List Char)
  | [] => some read.reverse
  | a :: rest =>
    match skip with
    | 0 =>
      match charAt? a rest with
      | some (c, more) => decodeFrom (c :: read) more rest
      | none => none
    | skip + 1 => decodeFrom read skip rest

/-- The text that a byte string spells, if it spells one. -/
def decode? (bytes : Bytes) : Option (List Char) := decodeFrom [] 0 bytes

/-! ### The characters read so far stand in front -/

theorem decodeFrom_append (pre read : List Char) (skip : Nat) (bytes : Bytes) :
    decodeFrom (read ++ pre) skip bytes = (decodeFrom read skip bytes).map (pre.reverse ++ ·) := by
  induction bytes generalizing read skip with
  | nil => simp [decodeFrom]
  | cons a rest ih =>
    cases skip with
    | succ skip => exact ih read skip
    | zero =>
      simp only [decodeFrom]
      cases charAt? a rest with
      | none => rfl
      | some found => exact ih (found.1 :: read) found.2

theorem decodeFrom_eq (read : List Char) (skip : Nat) (bytes : Bytes) :
    decodeFrom read skip bytes = (decodeFrom [] skip bytes).map (read.reverse ++ ·) :=
  decodeFrom_append read [] skip bytes

end JvmOutline.Utf8
