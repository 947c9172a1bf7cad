import JvmOutline.Pool.Entry

/-!
# Comparing numbers

Entries that hold floating-point numbers can be compared by their bits or as numbers.  The two
comparisons differ in two points only (`Entry.sameValue_iff`): what is no number does not equal
itself as a number, and the zeros of both signs are equal.

This rests on what a bit pattern stands for.  Its fields can be read off that, unless it stands for
no number (`Binary.eq_of_decode_eq`).
-/

namespace JvmOutline

/-! ### Bit patterns -/

namespace Binary

variable {f : Binary} {a b : Nat}

/-- The number of different bit patterns. -/
def patterns (f : Binary) : Nat := f.fractions * (f.exponents * 2)

theorem fractions_pos (f : Binary) : 0 < f.fractions := Nat.two_pow_pos f.fraction

theorem exponents_pos (f : Binary) : 0 < f.exponents := Nat.two_pow_pos f.exponent

/-- A bit pattern is its three fields. -/
theorem eq_of_fields (ha : a < f.patterns) (hb : b < f.patterns)
    (hfraction : a % f.fractions = b % f.fractions)
    (hexponent : a / f.fractions % f.exponents = b / f.fractions % f.exponents)
    (hsign : a / f.fractions / f.exponents % 2 = b / f.fractions / f.exponents % 2) : a = b := by
  have htop {n : Nat} (hn : n < f.patterns) : n / f.fractions / f.exponents < 2 :=
    Nat.div_lt_of_lt_mul (Nat.div_lt_of_lt_mul hn)
  rw [Nat.mod_eq_of_lt (htop ha), Nat.mod_eq_of_lt (htop hb)] at hsign
  have hhigh : a / f.fractions = b / f.fractions := by
    rw [← Nat.div_add_mod (a / f.fractions) f.exponents, hsign, hexponent, Nat.div_add_mod]
  rw [← Nat.div_add_mod a f.fractions, hhigh, hfraction, Nat.div_add_mod]

/-- Different bit patterns stand for different things, unless they stand for no number. -/
theorem eq_of_decode_eq (ha : a < f.patterns) (hb : b < f.patterns) (hne : f.decode a ≠ .nan)
    (h : f.decode a = f.decode b) : a = b := by
  have hea := Nat.mod_lt (a / f.fractions) f.exponents_pos
  have heb := Nat.mod_lt (b / f.fractions) f.exponents_pos
  have hfa := Nat.mod_lt a f.fractions_pos
  have hfb := Nat.mod_lt b f.fractions_pos
  have hbit {m n : Nat} (h : (m % 2 == 1) = (n % 2 == 1)) : m % 2 = n % 2 := by
    rw [Bool.eq_iff_iff, beq_iff_eq, beq_iff_eq] at h
    omega
  -- The largest exponent field shows in the datum being no finite number, and the smallest one in
  -- `m`, which is below `fractions` then and not below it otherwise.
  refine eq_of_fields ha hb ?_ ?_ ?_
  all_goals
    unfold decode at h hne
    grind

/-- Whether a bit pattern stands for a zero, of either sign. -/
def IsZero (f : Binary) (bits : Nat) : Prop := ∃ negative q, f.decode bits = .finite negative 0 q

/-- As numbers, different bit patterns are equal only if both are zeros, and each one equals itself
unless it stands for no number. -/
theorem equal_iff (ha : a < f.patterns) (hb : b < f.patterns) : f.equal a b = true ↔
    (a = b ∧ f.decode a ≠ .nan) ∨ (f.IsZero a ∧ f.IsZero b) := by
  have heq : f.decode a = f.decode b ∧ f.decode a ≠ .nan ↔ a = b ∧ f.decode a ≠ .nan :=
    and_congr_left fun hne => ⟨eq_of_decode_eq ha hb hne, congrArg f.decode⟩
  rw [← heq]
  unfold equal IsZero
  cases f.decode a with
  | nan => simp
  | infinity s => cases f.decode b <;> simp
  | finite s m q =>
    cases f.decode b with
    | nan => simp
    | infinity t => cases m <;> simp
    | finite t n r => cases m <;> cases n <;> simp

end Binary

/-! ### Entries -/

namespace Entry

/-- Whether an entry is a floating-point constant that is no number. -/
def IsNaN : Entry → Prop
  | .float bits => Binary.single.decode bits.toNat = .nan
  | .double bits => Binary.double.decode bits.toNat = .nan
  | _ => False

/-- Whether an entry is a floating-point zero, of either sign. -/
def IsFloatingZero : Entry → Prop
  | .float bits => Binary.single.IsZero bits.toNat
  | .double bits => Binary.double.IsZero bits.toNat
  | _ => False

/-- The comparison of entries as numbers differs from the comparison of their bits in two points:
what is no number does not equal itself, and the zeros of both signs are equal. -/
theorem sameValue_iff (d e : Entry) : d.sameValue e = true ↔
    (d = e ∧ ¬ d.IsNaN) ∨ (d.kind = e.kind ∧ d.IsFloatingZero ∧ e.IsFloatingZero) := by
  cases d with
  | float a =>
    cases e with
    | float b =>
      rw [sameValue, Binary.equal_iff a.toNat_lt b.toNat_lt, UInt32.toNat_inj]
      simp [IsNaN, IsFloatingZero, kind]
    | _ => simp [sameValue, kind]
  | double a =>
    cases e with
    | double b =>
      rw [sameValue, Binary.equal_iff a.toNat_lt b.toNat_lt, UInt64.toNat_inj]
      simp [IsNaN, IsFloatingZero, kind]
    | _ => simp [sameValue, kind]
  | _ => simp [sameValue, IsNaN, IsFloatingZero]

end Entry

end JvmOutline
