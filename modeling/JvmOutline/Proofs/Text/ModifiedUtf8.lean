import JvmOutline.Proofs.Text.Utf8
import JvmOutline.Text.ModifiedUtf8

/-!
# Modified UTF-8 — the bytes of a text are read as that text

A byte string is read along one of two ways: as UTF-8, or as code units.

* `units_encodeUnits`: cut into code units, the bytes of a sequence of code units are that
  sequence, surrogates and zero included.
* `chars_eq_decodeLossy`: where no byte begins a sequence of four, both ways give the same text.
  The bytes of code units are such a byte string.
* `decode_encode` and `decode_encodeUtf8`: a text is read back from its modified UTF-8 and from
  its UTF-8.
-/

namespace JvmOutline

/-! ### Surrogates -/

namespace Utf16

theorem isHigh_iff {u : UInt16} : isHigh u = true ↔ 0xD800 ≤ u.toNat ∧ u.toNat < 0xDC00 := by
  simp [isHigh, UInt16.le_iff_toNat_le, UInt16.lt_iff_toNat_lt]

theorem isLow_iff {u : UInt16} : isLow u = true ↔ 0xDC00 ≤ u.toNat ∧ u.toNat < 0xE000 := by
  simp [isLow, UInt16.le_iff_toNat_le, UInt16.lt_iff_toNat_lt]

theorem toNat_unit {n : Nat} (h : n < 65536) : (UInt16.ofNat n).toNat = n := by
  rw [UInt16.toNat_ofNat', Nat.mod_eq_of_lt h]

theorem decodeLossy_single {u : UInt16} (us : List UInt16) (h : isHigh u = false) :
    decodeLossy (u :: us) = single u :: decodeLossy us := by
  cases us with
  | nil => rfl
  | cons v us =>
    rw [decodeLossy, decodeFrom, h, Bool.false_and, if_neg Bool.false_ne_true, decodeFrom_eq]
    rfl

theorem decodeLossy_pair {u v : UInt16} (us : List UInt16) (hu : isHigh u = true)
    (hv : isLow v = true) : decodeLossy (u :: v :: us) = pair u v :: decodeLossy us := by
  rw [decodeLossy, decodeFrom, hu, hv, Bool.and_self, if_pos rfl, decodeFrom_eq]
  rfl

/-- The first character is read from its code units. -/
theorem decodeLossy_units_append (c : Char) (us : List UInt16) :
    decodeLossy (units c ++ us) = c :: decodeLossy us := by
  have hlt := Utf8.toNat_lt c
  unfold units
  by_cases hc : c.toNat < 0x10000
  · have hn := toNat_unit hc
    have hv : c.toNat < 0xD800 ∨ 0xDFFF < c.toNat ∧ c.toNat < 0x110000 := c.valid
    have hh : isHigh (.ofNat c.toNat) = false := by
      rw [Bool.eq_false_iff, Ne, isHigh_iff, hn]; omega
    have hl : isLow (.ofNat c.toNat) = false := by
      rw [Bool.eq_false_iff, Ne, isLow_iff, hn]; omega
    rw [if_pos hc, List.cons_append, decodeLossy_single _ hh, single, hh, hl, hn]
    simp
  · have hh := toNat_unit (n := 0xD800 + (c.toNat - 0x10000) / 0x400) (by omega)
    have hl := toNat_unit (n := 0xDC00 + (c.toNat - 0x10000) % 0x400) (by omega)
    have hp : 0x10000 + (0xD800 + (c.toNat - 0x10000) / 0x400 - 0xD800) * 0x400 +
        (0xDC00 + (c.toNat - 0x10000) % 0x400 - 0xDC00) = c.toNat := by omega
    rw [if_neg hc, List.cons_append, List.cons_append,
      decodeLossy_pair _ (isHigh_iff.mpr (by omega)) (isLow_iff.mpr (by omega)), pair, hh, hl, hp,
      Char.ofNat_toNat]
    rfl

/-- A text is read back from its code units. -/
theorem decodeLossy_flatMap_units (cs : List Char) : decodeLossy (cs.flatMap units) = cs := by
  induction cs with
  | nil => rfl
  | cons c cs ih => rw [List.flatMap_cons, decodeLossy_units_append, ih]

end Utf16

namespace ModifiedUtf8

/-! ### Code units -/

/-- The unit reader steps over the bytes that belong to the newest unit. -/
theorem unitsFrom_skip (read : List UInt16) (tail rest : Bytes) :
    unitsFrom read tail.length (tail ++ rest) = unitsFrom read 0 rest := by
  induction tail with
  | nil => rfl
  | cons b tail ih => exact ih

theorem units_cons {a : UInt8} (tail : Bytes) {rest : Bytes} {u : UInt16}
    (h : unitAt a (tail ++ rest) = (u, tail.length)) :
    units (a :: tail ++ rest) = u :: units rest := by
  rw [List.cons_append, units, unitsFrom, h]
  show unitsFrom [u] tail.length (tail ++ rest) = _
  rw [unitsFrom_skip, unitsFrom_eq]
  rfl

theorem unitAt_one {a : UInt8} (rest : Bytes) (h : a.toNat < 0x80) :
    unitAt a rest = (.ofNat a.toNat, 0) := by
  unfold unitAt
  rw [if_pos (UInt8.lt_iff_toNat_lt.mpr h)]

theorem unitAt_two {a : UInt8} (b : UInt8) (rest : Bytes) (h : 0xC0 ≤ a.toNat)
    (h' : a.toNat < 0xE0) : unitAt a (b :: rest) = (.ofNat (Utf8.point2 a b), 1) := by
  unfold unitAt
  simp only [UInt8.lt_iff_toNat_lt, UInt8.le_iff_toNat_le]
  rw [if_neg (by simp; omega), if_pos (by simp; omega)]

theorem unitAt_three {a : UInt8} (b c : UInt8) (rest : Bytes) (h : 0xE0 ≤ a.toNat)
    (h' : a.toNat < 0xF0) : unitAt a (b :: c :: rest) = (.ofNat (Utf8.point3 a b c), 2) := by
  unfold unitAt
  simp only [UInt8.lt_iff_toNat_lt, UInt8.le_iff_toNat_le]
  rw [if_neg (by simp; omega), if_neg (by simp; omega), if_pos (by simp; omega)]

/-- The bytes that the unit reader takes for a code unit.  The first one tells how many there are;
nothing is asked of the others. -/
inductive Sequence : UInt16 → Bytes → Prop where
  | one {a : UInt8} : a.toNat < 0x80 → Sequence (.ofNat a.toNat) [a]
  | two {a : UInt8} (b : UInt8) : 0xC0 ≤ a.toNat → a.toNat < 0xE0 →
      Sequence (.ofNat (Utf8.point2 a b)) [a, b]
  | three {a : UInt8} (b c : UInt8) : 0xE0 ≤ a.toNat → a.toNat < 0xF0 →
      Sequence (.ofNat (Utf8.point3 a b c)) [a, b, c]

theorem Sequence.units_append {u : UInt16} {s : Bytes} (h : Sequence u s) (rest : Bytes) :
    units (s ++ rest) = u :: units rest := by
  cases h with
  | one ha => exact units_cons [] (unitAt_one rest ha)
  | two b ha ha' => exact units_cons [b] (unitAt_two b rest ha ha')
  | three b c ha ha' => exact units_cons [b, c] (unitAt_three b c rest ha ha')

theorem encodeUnit_one {u : UInt16} (h0 : u.toNat ≠ 0) (h : u.toNat < 0x80) :
    encodeUnit u = [.ofNat u.toNat] := by
  rw [encodeUnit, if_neg h0, if_pos h]

theorem encodeUnit_two {u : UInt16} (h : 0x80 ≤ u.toNat) (h' : u.toNat < 0x800) :
    encodeUnit u = [.ofNat (0xC0 + u.toNat / 64), .ofNat (0x80 + u.toNat % 64)] := by
  rw [encodeUnit, if_neg (by omega), if_neg (by omega), if_pos h']

theorem encodeUnit_three {u : UInt16} (h : 0x800 ≤ u.toNat) :
    encodeUnit u = [.ofNat (0xE0 + u.toNat / 4096), .ofNat (0x80 + u.toNat / 64 % 64),
      .ofNat (0x80 + u.toNat % 64)] := by
  rw [encodeUnit, if_neg (by omega), if_neg (by omega), if_neg (by omega)]

/-- What is written for a code unit is taken for that unit. -/
theorem sequence_encodeUnit (u : UInt16) : Sequence u (encodeUnit u) := by
  have hlt := u.toNat_lt
  by_cases h0 : u.toNat = 0
  · rw [show u = 0 from UInt16.toNat_inj.mp h0]
    exact .two (a := 0xC0) 0x80 (by decide) (by decide)
  by_cases h1 : u.toNat < 0x80
  · have ha : (UInt8.ofNat u.toNat).toNat = u.toNat := Utf8.toNat_byte (by omega)
    have hs := Sequence.one (a := .ofNat u.toNat) (by omega)
    rwa [ha, UInt16.ofNat_toNat, ← encodeUnit_one h0 h1] at hs
  by_cases h2 : u.toNat < 0x800
  · have ha : (UInt8.ofNat (0xC0 + u.toNat / 64)).toNat = _ := Utf8.toNat_byte (by omega)
    have hs := Sequence.two (a := .ofNat (0xC0 + u.toNat / 64)) (.ofNat (0x80 + u.toNat % 64))
      (by omega) (by omega)
    rwa [Utf8.point2_byte h2, UInt16.ofNat_toNat, ← encodeUnit_two (by omega) h2] at hs
  · have ha : (UInt8.ofNat (0xE0 + u.toNat / 4096)).toNat = _ := Utf8.toNat_byte (by omega)
    have hs := Sequence.three (a := .ofNat (0xE0 + u.toNat / 4096))
      (.ofNat (0x80 + u.toNat / 64 % 64)) (.ofNat (0x80 + u.toNat % 64)) (by omega) (by omega)
    rwa [Utf8.point3_byte hlt, UInt16.ofNat_toNat, ← encodeUnit_three (by omega)] at hs

/-- The unit reader finds the code unit that was written, and steps over its bytes. -/
theorem units_encodeUnit_append (u : UInt16) (rest : Bytes) :
    units (encodeUnit u ++ rest) = u :: units rest :=
  (sequence_encodeUnit u).units_append rest

/-- **The code units that were written are read back**, whichever they are. -/
theorem units_encodeUnits (us : List UInt16) : units (encodeUnits us) = us := by
  induction us with
  | nil => rfl
  | cons u us ih =>
    rw [encodeUnits, List.flatMap_cons, units_encodeUnit_append, ← encodeUnits, ih]

/-! ### The two ways of reading agree -/

/-- UTF-8 spells a character of one code unit as its code unit is spelled; zero, which has a
spelling of its own here, is read from its one byte as well. -/
theorem units_encodeChar_append {c : Char} (h : c.toNat < 0x10000) (rest : Bytes) :
    units (Utf8.encodeChar c ++ rest) = .ofNat c.toNat :: units rest := by
  have hu := Utf16.toNat_unit h
  by_cases h0 : c.toNat = 0
  · rw [Utf8.encodeChar_one (by omega), h0]
    exact units_cons [] (unitAt_one rest (by decide))
  have he : Utf8.encodeChar c = encodeUnit (.ofNat c.toNat) := by
    rw [Utf8.encodeChar, encodeUnit, hu, if_neg h0]
    simp only [h, if_true]
  rw [he, units_encodeUnit_append]

theorem units_encode {cs : List Char} (h : ∀ c ∈ cs, c.toNat < 0x10000) :
    units (Utf8.encode cs) = cs.flatMap Utf16.units := by
  induction cs with
  | nil => rfl
  | cons c cs ih =>
    have hc := h c List.mem_cons_self
    rw [Utf8.encode, List.flatMap_cons, units_encodeChar_append hc, ← Utf8.encode,
      ih fun d hd => h d (List.mem_cons_of_mem c hd), List.flatMap_cons, Utf16.units, if_pos hc]
    rfl

/-- UTF-8 in which no byte begins a sequence of four spells characters of one code unit each. -/
theorem toNat_lt_of_encode {cs : List Char} (h : ∀ b ∈ Utf8.encode cs, b.toNat < 0xF0) :
    ∀ c ∈ cs, c.toNat < 0x10000 := by
  intro c hc
  by_contra hn
  have hm : UInt8.ofNat (0xF0 + c.toNat / 262144) ∈ Utf8.encode cs := by
    refine List.mem_flatMap.mpr ⟨c, hc, ?_⟩
    rw [Utf8.encodeChar_four (by omega)]
    exact List.mem_cons_self
  have hb := h _ hm
  have hc := Utf8.toNat_lt c
  rw [Utf8.toNat_byte (by omega)] at hb
  omega

/-- **Both ways of reading agree** where no byte begins a sequence of four. -/
theorem chars_eq_decodeLossy {bytes : Bytes} (h : ∀ b ∈ bytes, b.toNat < 0xF0) :
    chars bytes = Utf16.decodeLossy (units bytes) := by
  unfold chars
  split
  · next cs hcs =>
    obtain rfl := Utf8.eq_encode_of_decode? hcs
    rw [units_encode (toNat_lt_of_encode h), Utf16.decodeLossy_flatMap_units]
  · rfl

/-- No byte of a code unit is zero, and none begins a sequence of four. -/
theorem bounds_of_mem_encodeUnit {u : UInt16} {b : UInt8} (h : b ∈ encodeUnit u) :
    0 < b.toNat ∧ b.toNat < 0xF0 := by
  have hu := u.toNat_lt
  have hbyte : ∀ n, 0 < n → n < 0xF0 → b = .ofNat n → 0 < b.toNat ∧ b.toNat < 0xF0 := by
    rintro n h0 hn rfl
    rw [Utf8.toNat_byte (by omega)]
    exact ⟨h0, hn⟩
  unfold encodeUnit at h
  dsimp only at h
  split at h
  · simp only [List.mem_cons, List.not_mem_nil, or_false] at h
    rcases h with h | h
    · exact hbyte 0xC0 (by omega) (by omega) h
    · exact hbyte 0x80 (by omega) (by omega) h
  split at h
  · exact hbyte _ (by omega) (by omega) (List.mem_singleton.mp h)
  split at h
  · simp only [List.mem_cons, List.not_mem_nil, or_false] at h
    rcases h with h | h
    · exact hbyte _ (by omega) (by omega) h
    · exact hbyte _ (by omega) (by omega) h
  · simp only [List.mem_cons, List.not_mem_nil, or_false] at h
    rcases h with h | h | h
    · exact hbyte _ (by omega) (by omega) h
    · exact hbyte _ (by omega) (by omega) h
    · exact hbyte _ (by omega) (by omega) h

theorem bounds_of_mem_encodeUnits {us : List UInt16} {b : UInt8} (h : b ∈ encodeUnits us) :
    0 < b.toNat ∧ b.toNat < 0xF0 := by
  obtain ⟨u, -, hu⟩ := List.mem_flatMap.mp h
  exact bounds_of_mem_encodeUnit hu

/-- Whichever way is taken, the bytes of code units are read as UTF-16. -/
theorem chars_encodeUnits (us : List UInt16) : chars (encodeUnits us) = Utf16.decodeLossy us := by
  rw [chars_eq_decodeLossy fun b hb => (bounds_of_mem_encodeUnits hb).2, units_encodeUnits]

/-! ### Texts -/

/-- **A text is read back from its modified UTF-8.** -/
theorem decode_encode (text : String) : decode (encode text) = text := by
  rw [decode, encode, chars_encodeUnits, Utf16.decodeLossy_flatMap_units, String.ofList_toList]

/-- A text is read back from its UTF-8. -/
theorem decode_encodeUtf8 (text : String) : decode (Utf8.encode text.toList) = text := by
  rw [decode, chars, Utf8.decode?_encode]
  exact String.ofList_toList

end ModifiedUtf8

end JvmOutline
