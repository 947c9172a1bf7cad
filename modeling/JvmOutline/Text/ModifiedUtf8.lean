import JvmOutline.Text.Utf8
import JvmOutline.Text.Utf16

/-!
# Modified UTF-8 — the text of a constant

A class file spells a text by its UTF-16 code units, each in one to three bytes: zero takes two
bytes, so that no byte of a text is zero, and a character above `0xFFFF` takes six, three for each
surrogate (`encode`).

`decode` reads any byte string.  One that is well-formed UTF-8 is taken as such; any other is cut
into code units, and these are read as UTF-16.  A byte that starts no sequence, or whose sequence
runs past the end, stands for the replacement character.

The unit reader carries what it has read, newest first; `unitsFrom_eq` says that this changes
nothing but the order of work.
-/

namespace JvmOutline.ModifiedUtf8

/-- The code unit at the front of a byte string that begins with `a`, and the number of bytes that
it takes after `a`. -/
def unitAt (a : UInt8) (rest : Bytes) : UInt16 × Nat :=
  if a < 0x80 then (.ofNat a.toNat, 0)
  else if 0xC0 ≤ a && a < 0xE0 then
    match rest with
    | b :: _ => (.ofNat (Utf8.point2 a b), 1)
    | _ => (0xFFFD, 0)
  else if 0xE0 ≤ a && a < 0xF0 then
    match rest with
    | b :: c :: _ => (.ofNat (Utf8.point3 a b c), 2)
    | _ => (0xFFFD, 0)
  else (0xFFFD, 0)

/-- Cuts on after the code units `read`, which are held newest first; the first `skip` bytes belong
to the newest of them. -/
def unitsFrom (read : List UInt16) (skip : Nat) : Bytes → List UInt16
  | [] => read.reverse
  | a :: rest =>
    match skip with
    | 0 => unitsFrom ((unitAt a rest).1 :: read) (unitAt a rest).2 rest
    | skip + 1 => unitsFrom read skip rest

/-- The code units that a byte string spells. -/
def units (bytes : Bytes) : List UInt16 := unitsFrom [] 0 bytes

/-- The characters that a byte string spells. -/
def chars (bytes : Bytes) : List Char :=
  match Utf8.decode? bytes with
  | some cs => cs
  | none => Utf16.decodeLossy (units bytes)

/-- The text that a byte string spells. -/
def decode (bytes : Bytes) : String := String.ofList (chars bytes)

/-- The bytes of one code unit. -/
def encodeUnit (u : UInt16) : Bytes :=
  let n := u.toNat
  if n = 0 then [0xC0, 0x80]
  else if n < 0x80 then [.ofNat n]
  else if n < 0x800 then [.ofNat (0xC0 + n / 64), .ofNat (0x80 + n % 64)]
  else [.ofNat (0xE0 + n / 4096), .ofNat (0x80 + n / 64 % 64), .ofNat (0x80 + n % 64)]

/-- The bytes of a sequence of code units. -/
def encodeUnits (us : List UInt16) : Bytes := us.flatMap encodeUnit

/-- The bytes of a text. -/
def encode (text : String) : Bytes := encodeUnits (text.toList.flatMap Utf16.units)

/-! ### The code units read so far stand in front -/

theorem unitsFrom_append (pre read : List UInt16) (skip : Nat) (bytes : Bytes) :
    unitsFrom (read ++ pre) skip bytes = pre.reverse ++ unitsFrom read skip bytes := by
  induction bytes generalizing read skip with
  | nil => simp [unitsFrom]
  | cons a rest ih =>
    cases skip with
    | succ skip => exact ih read skip
    | zero => exact ih ((unitAt a rest).1 :: read) (unitAt a rest).2

theorem unitsFrom_eq (read : List UInt16) (skip : Nat) (bytes : Bytes) :
    unitsFrom read skip bytes = read.reverse ++ unitsFrom [] skip bytes :=
  unitsFrom_append read [] skip bytes

end JvmOutline.ModifiedUtf8
