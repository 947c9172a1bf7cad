/-!
# Bytes — big-endian numbers

A byte string is a list of bytes.  A number of a fixed width is written most significant byte
first: `Bytes.ofNat w n` writes the low `w` bytes of `n`, and `Bytes.toNat` reads a byte string
back as a number.

**Reading inverts writing** (`Bytes.toNat_ofNat`): what was written in `w` bytes is read back
modulo `256^w`, so a number of that width is read back exactly.
-/

namespace JvmOutline

/-- A finite sequence of bytes. -/
abbrev Bytes := List UInt8

namespace Bytes

/-- The number whose digits in base 256 are the bytes, most significant first. -/
def toNat (bytes : Bytes) : Nat := bytes.foldl (fun n b => n * 256 + b.toNat) 0

/-- The low `width` bytes of a number, most significant first. -/
def ofNat : Nat → Nat → Bytes
  | 0, _ => []
  | width + 1, n => ofNat width (n / 256) ++ [UInt8.ofNat n]

/-- A one-byte field. -/
def u1 (v : UInt8) : Bytes := [v]

/-- A two-byte field. -/
def u2 (v : UInt16) : Bytes := ofNat 2 v.toNat

/-- A four-byte field. -/
def u4 (v : UInt32) : Bytes := ofNat 4 v.toNat

/-- An eight-byte field. -/
def u8 (v : UInt64) : Bytes := ofNat 8 v.toNat

/-! ### Reading what was written -/

@[simp] theorem toNat_nil : toNat [] = 0 := rfl

theorem toNat_append_singleton (bytes : Bytes) (b : UInt8) :
    toNat (bytes ++ [b]) = toNat bytes * 256 + b.toNat := by
  simp [toNat, List.foldl_append]

@[simp] theorem length_ofNat (width n : Nat) : (ofNat width n).length = width := by
  induction width generalizing n with
  | zero => rfl
  | succ width ih => simp [ofNat, ih]

theorem toNat_ofNat (width n : Nat) : toNat (ofNat width n) = n % Nat.pow 256 width := by
  induction width generalizing n with
  | zero => exact (Nat.mod_one n).symm
  | succ width ih =>
    have h := Nat.mod_mul (x := n) (a := 256) (b := Nat.pow 256 width)
    rw [Nat.mul_comm] at h
    simp only [ofNat, toNat_append_singleton, ih, UInt8.toNat_ofNat']
    show _ = n % (Nat.pow 256 width * 256)
    omega

end Bytes

end JvmOutline
