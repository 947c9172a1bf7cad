import JvmOutline.Text.Utf8
import Mathlib.Tactic.Common

/-!
# UTF-8 — reading is the inverse of writing

`Utf8.decode?` reads exactly what `Utf8.encode` writes.

* `decode?_encode`: the bytes of a text are read as that text.
* `eq_encode_of_decode?`: a byte string that is read as a text is the bytes of that text, so no
  text has a second spelling.

Both come down to one character: `charAt?_encodeChar` reads the character that was written, and
`encodeChar_of_charAt?` writes the character that was read.
-/

namespace JvmOutline.Utf8

/-! ### Bytes and code points as numbers -/

theorem isTail_iff {b : UInt8} : isTail b = true ↔ 0x80 ≤ b.toNat ∧ b.toNat < 0xC0 := by
  simp [isTail, UInt8.le_iff_toNat_le, UInt8.lt_iff_toNat_lt]

theorem toNat_ofNat {n : Nat} (h : n.isValidChar) : (Char.ofNat n).toNat = n := by
  rw [Char.ofNat, dif_pos h]
  rfl

theorem ofNat_eq_iff {n : Nat} (h : n.isValidChar) {c : Char} :
    Char.ofNat n = c ↔ n = c.toNat := by
  constructor
  · rintro rfl
    exact (toNat_ofNat h).symm
  · rintro rfl
    exact Char.ofNat_toNat c

/-- A byte is a number below 256. -/
theorem byte_eq_iff {b : UInt8} {n : Nat} (h : n < 256) : b = .ofNat n ↔ b.toNat = n := by
  rw [← UInt8.toNat_inj, UInt8.toNat_ofNat', Nat.mod_eq_of_lt h]

theorem toNat_lt (c : Char) : c.toNat < 0x110000 := by
  rcases c.valid with h | h
  · exact Nat.lt_trans h (by decide)
  · exact h.2

theorem toNat_byte {n : Nat} (h : n < 256) : (UInt8.ofNat n).toNat = n := by
  rw [UInt8.toNat_ofNat', Nat.mod_eq_of_lt h]

theorem isTail_byte {n : Nat} (h : n < 64) : isTail (.ofNat (0x80 + n)) = true := by
  rw [isTail_iff, toNat_byte (by omega)]
  omega

/-- The two bytes that spell a number spell that number. -/
theorem point2_byte {n : Nat} (h : n < 0x800) :
    point2 (.ofNat (0xC0 + n / 64)) (.ofNat (0x80 + n % 64)) = n := by
  rw [point2, toNat_byte (by omega), toNat_byte (by omega)]
  omega

theorem point3_byte {n : Nat} (h : n < 0x10000) :
    point3 (.ofNat (0xE0 + n / 4096)) (.ofNat (0x80 + n / 64 % 64)) (.ofNat (0x80 + n % 64)) =
      n := by
  rw [point3, toNat_byte (by omega), toNat_byte (by omega), toNat_byte (by omega)]
  omega

theorem point4_byte {n : Nat} (h : n < 0x200000) :
    point4 (.ofNat (0xF0 + n / 262144)) (.ofNat (0x80 + n / 4096 % 64))
      (.ofNat (0x80 + n / 64 % 64)) (.ofNat (0x80 + n % 64)) = n := by
  rw [point4, toNat_byte (by omega), toNat_byte (by omega), toNat_byte (by omega),
    toNat_byte (by omega)]
  omega

/-! ### One character -/

theorem encodeChar_one {c : Char} (h : c.toNat < 0x80) : encodeChar c = [.ofNat c.toNat] := by
  rw [encodeChar, if_pos h]

theorem encodeChar_two {c : Char} (h : 0x80 ≤ c.toNat) (h' : c.toNat < 0x800) :
    encodeChar c = [.ofNat (0xC0 + c.toNat / 64), .ofNat (0x80 + c.toNat % 64)] := by
  rw [encodeChar, if_neg (by omega), if_pos h']

theorem encodeChar_three {c : Char} (h : 0x800 ≤ c.toNat) (h' : c.toNat < 0x10000) :
    encodeChar c = [.ofNat (0xE0 + c.toNat / 4096), .ofNat (0x80 + c.toNat / 64 % 64),
      .ofNat (0x80 + c.toNat % 64)] := by
  rw [encodeChar, if_neg (by omega), if_neg (by omega), if_pos h']

theorem encodeChar_four {c : Char} (h : 0x10000 ≤ c.toNat) :
    encodeChar c = [.ofNat (0xF0 + c.toNat / 262144), .ofNat (0x80 + c.toNat / 4096 % 64),
      .ofNat (0x80 + c.toNat / 64 % 64), .ofNat (0x80 + c.toNat % 64)] := by
  rw [encodeChar, if_neg (by omega), if_neg (by omega), if_neg (by omega)]

theorem charAt?_one {a : UInt8} (rest : Bytes) (h : a.toNat < 0x80) :
    charAt? a rest = some (.ofNat a.toNat, 0) := by
  unfold charAt?
  rw [if_pos (UInt8.lt_iff_toNat_lt.mpr h)]

theorem charAt?_two {a : UInt8} (b : UInt8) (rest : Bytes) (h : 0xC2 ≤ a.toNat)
    (h' : a.toNat < 0xE0) :
    charAt? a (b :: rest) = if isTail b then some (.ofNat (point2 a b), 1) else none := by
  unfold charAt?
  simp only [UInt8.lt_iff_toNat_lt]
  rw [if_neg (by simp; omega), if_neg (by simp; omega), if_pos (by simpa using h')]

theorem charAt?_three {a : UInt8} (b c : UInt8) (rest : Bytes) (h : 0xE0 ≤ a.toNat)
    (h' : a.toNat < 0xF0) :
    charAt? a (b :: c :: rest) =
      if isSeq3 a b c then some (.ofNat (point3 a b c), 2) else none := by
  unfold charAt?
  simp only [UInt8.lt_iff_toNat_lt]
  rw [if_neg (by simp; omega), if_neg (by simp; omega), if_neg (by simp; omega),
    if_pos (by simpa using h')]

theorem charAt?_four {a : UInt8} (b c d : UInt8) (rest : Bytes) (h : 0xF0 ≤ a.toNat)
    (h' : a.toNat < 0xF8) :
    charAt? a (b :: c :: d :: rest) =
      if isSeq4 a b c d then some (.ofNat (point4 a b c d), 3) else none := by
  unfold charAt?
  simp only [UInt8.lt_iff_toNat_lt]
  rw [if_neg (by simp; omega), if_neg (by simp; omega), if_neg (by simp; omega),
    if_neg (by simp; omega), if_pos (by simpa using h')]

/-- The reader finds the character that was written, and steps over its bytes. -/
theorem charAt?_encodeChar (c : Char) (rest : Bytes) :
    ∃ a tail, encodeChar c = a :: tail ∧ charAt? a (tail ++ rest) = some (c, tail.length) := by
  have hlt := toNat_lt c
  have hv : c.toNat.isValidChar := c.valid
  by_cases h1 : c.toNat < 0x80
  · have ha : (UInt8.ofNat c.toNat).toNat = c.toNat := toNat_byte (by omega)
    refine ⟨_, _, encodeChar_one h1, ?_⟩
    rw [charAt?_one _ (by omega), ha, Char.ofNat_toNat]
    rfl
  by_cases h2 : c.toNat < 0x800
  · have ha : (UInt8.ofNat (0xC0 + c.toNat / 64)).toNat = _ := toNat_byte (by omega)
    refine ⟨_, _, encodeChar_two (by omega) h2, ?_⟩
    rw [List.cons_append, charAt?_two _ _ (by omega) (by omega), point2_byte h2,
      if_pos (isTail_byte (by omega)), Char.ofNat_toNat]
    rfl
  by_cases h3 : c.toNat < 0x10000
  · have ha : (UInt8.ofNat (0xE0 + c.toNat / 4096)).toNat = _ := toNat_byte (by omega)
    refine ⟨_, _, encodeChar_three (by omega) h3, ?_⟩
    have hs : isSeq3 (.ofNat (0xE0 + c.toNat / 4096)) (.ofNat (0x80 + c.toNat / 64 % 64))
        (.ofNat (0x80 + c.toNat % 64)) = true := by
      rw [isSeq3, point3_byte h3, isTail_byte (by omega), isTail_byte (by omega)]
      simpa using ⟨Nat.le_of_not_lt h2, hv⟩
    rw [List.cons_append, List.cons_append, charAt?_three _ _ _ (by omega) (by omega),
      point3_byte h3, if_pos hs, Char.ofNat_toNat]
    rfl
  · have ha : (UInt8.ofNat (0xF0 + c.toNat / 262144)).toNat = _ := toNat_byte (by omega)
    refine ⟨_, _, encodeChar_four (by omega), ?_⟩
    have hs : isSeq4 (.ofNat (0xF0 + c.toNat / 262144)) (.ofNat (0x80 + c.toNat / 4096 % 64))
        (.ofNat (0x80 + c.toNat / 64 % 64)) (.ofNat (0x80 + c.toNat % 64)) = true := by
      rw [isSeq4, point4_byte (by omega), isTail_byte (by omega), isTail_byte (by omega),
        isTail_byte (by omega)]
      simpa using ⟨Nat.le_of_not_lt h3, hv⟩
    rw [List.cons_append, List.cons_append, List.cons_append,
      charAt?_four _ _ _ _ (by omega) (by omega), point4_byte (by omega), if_pos hs,
      Char.ofNat_toNat]
    rfl

/-- The bytes that the reader takes for a character are those that are written for it. -/
theorem encodeChar_of_charAt? {a : UInt8} {rest : Bytes} {c : Char} {more : Nat}
    (h : charAt? a rest = some (c, more)) :
    ∃ tail after, rest = tail ++ after ∧ tail.length = more ∧ encodeChar c = a :: tail := by
  have ha := a.toNat_lt
  unfold charAt? at h
  split at h
  · next h1 =>
    have h1 : a.toNat < 0x80 := h1
    obtain ⟨hc, rfl⟩ := Prod.mk.inj (Option.some.inj h)
    rw [ofNat_eq_iff (Or.inl (by omega))] at hc
    exact ⟨[], rest, rfl, rfl, by rw [encodeChar_one (by omega), ← hc, UInt8.ofNat_toNat]⟩
  split at h
  · cases h
  next h2 =>
  have h2 : ¬ a.toNat < 0xC2 := h2
  split at h
  · next h3 =>
    have h3 : a.toNat < 0xE0 := h3
    split at h
    · next b after =>
      have hb := b.toNat_lt
      split at h
      · next ht =>
        rw [isTail_iff] at ht
        obtain ⟨hc, rfl⟩ := Prod.mk.inj (Option.some.inj h)
        rw [ofNat_eq_iff (Or.inl (by rw [point2]; omega)), point2] at hc
        refine ⟨[b], after, rfl, rfl, ?_⟩
        rw [encodeChar_two (by omega) (by omega), List.cons_eq_cons, List.cons_eq_cons]
        refine ⟨?_, ?_, rfl⟩ <;> rw [eq_comm, byte_eq_iff (by omega)] <;> omega
      · cases h
    · cases h
  next h3 =>
  have h3 : ¬ a.toNat < 0xE0 := h3
  split at h
  · next h4 =>
    have h4 : a.toNat < 0xF0 := h4
    split at h
    · next b d after =>
      have hb := b.toNat_lt
      have hd := d.toNat_lt
      split at h
      · next hs =>
        obtain ⟨hc, rfl⟩ := Prod.mk.inj (Option.some.inj h)
        simp only [isSeq3, Bool.and_eq_true, isTail_iff, decide_eq_true_eq] at hs
        rw [ofNat_eq_iff hs.2, point3] at hc
        rw [point3] at hs
        refine ⟨[b, d], after, rfl, rfl, ?_⟩
        rw [encodeChar_three (by omega) (by omega), List.cons_eq_cons, List.cons_eq_cons,
          List.cons_eq_cons]
        refine ⟨?_, ?_, ?_, rfl⟩ <;> rw [eq_comm, byte_eq_iff (by omega)] <;> omega
      · cases h
    · cases h
  next h4 =>
  have h4 : ¬ a.toNat < 0xF0 := h4
  split at h
  · next h5 =>
    have h5 : a.toNat < 0xF8 := h5
    split at h
    · next b d e after =>
      have hb := b.toNat_lt
      have hd := d.toNat_lt
      have he := e.toNat_lt
      split at h
      · next hs =>
        obtain ⟨hc, rfl⟩ := Prod.mk.inj (Option.some.inj h)
        simp only [isSeq4, Bool.and_eq_true, isTail_iff, decide_eq_true_eq] at hs
        rw [ofNat_eq_iff hs.2, point4] at hc
        rw [point4] at hs
        refine ⟨[b, d, e], after, rfl, rfl, ?_⟩
        rw [encodeChar_four (by omega), List.cons_eq_cons, List.cons_eq_cons, List.cons_eq_cons,
          List.cons_eq_cons]
        refine ⟨?_, ?_, ?_, ?_, rfl⟩ <;> rw [eq_comm, byte_eq_iff (by omega)] <;> omega
      · cases h
    · cases h
  · cases h

/-! ### Texts -/

/-- The reader steps over the bytes that belong to the newest character. -/
theorem decodeFrom_skip (read : List Char) (tail rest : Bytes) :
    decodeFrom read tail.length (tail ++ rest) = decodeFrom read 0 rest := by
  induction tail with
  | nil => rfl
  | cons b tail ih => exact ih

theorem decode?_nil : decode? [] = some [] := rfl

theorem decode?_cons {a : UInt8} {tail rest : Bytes} {c : Char}
    (h : charAt? a (tail ++ rest) = some (c, tail.length)) :
    decode? (a :: tail ++ rest) = (decode? rest).map (c :: ·) := by
  rw [List.cons_append, decode?, decodeFrom, h]
  show decodeFrom [c] tail.length (tail ++ rest) = _
  rw [decodeFrom_skip, decodeFrom_eq]
  rfl

/-- **What was written is read back.** -/
theorem decode?_encode (cs : List Char) : decode? (encode cs) = some cs := by
  induction cs with
  | nil => rfl
  | cons c cs ih =>
    obtain ⟨a, tail, he, hr⟩ := charAt?_encodeChar c (encode cs)
    rw [encode, List.flatMap_cons, he, ← encode, decode?_cons hr, ih]
    rfl

/-- **What is read was written**: no text has a second spelling. -/
theorem eq_encode_of_decode? {bytes : Bytes} {cs : List Char} (h : decode? bytes = some cs) :
    bytes = encode cs := by
  induction hn : bytes.length using Nat.strongRecOn generalizing bytes cs with
  | _ n ih =>
    cases bytes with
    | nil =>
      rw [decode?_nil] at h
      cases h
      rfl
    | cons a rest =>
      cases hc : charAt? a rest with
      | none => simp [decode?, decodeFrom, hc] at h
      | some found =>
        obtain ⟨c, more⟩ := found
        obtain ⟨tail, after, rfl, rfl, he⟩ := encodeChar_of_charAt? hc
        rw [← List.cons_append, decode?_cons hc] at h
        obtain ⟨ds, hd, rfl⟩ := Option.map_eq_some_iff.mp h
        have hlt : after.length < n := by
          rw [← hn, List.length_cons, List.length_append]
          omega
        rw [ih after.length hlt hd rfl, encode, encode, List.flatMap_cons, he]
        rfl

end JvmOutline.Utf8
