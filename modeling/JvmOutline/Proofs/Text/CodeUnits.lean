import JvmOutline.Proofs.Text.ModifiedUtf8
import Mathlib.Data.List.Basic

/-!
# The text of code units

`Utf16.Spells us cs` says which text a sequence of code units spells, one rule for each thing that
can stand in front: a unit that is no surrogate, a pair of surrogates, a high or a low surrogate
without its partner.  There is exactly one such text (`Utf16.spells_iff`).

**The modified UTF-8 of any code units is read as the text that they spell**
(`ModifiedUtf8.decode_encodeUnits_spells`).  If there is a zero or a surrogate among the units,
their bytes are no UTF-8, and they are cut into units; if there is none, they are the UTF-8 of the
text (`ModifiedUtf8.decode?_encodeUnits`).
-/

namespace JvmOutline

/-! ### What code units spell -/

namespace Utf16

/-- The text that code units spell.  A surrogate that stands without its partner spells the
replacement character. -/
inductive Spells : List UInt16 → List Char → Prop where
  | nil : Spells [] []
  | char {u : UInt16} {us : List UInt16} {cs : List Char} : isHigh u = false → isLow u = false →
      Spells us cs → Spells (u :: us) (.ofNat u.toNat :: cs)
  | pair {u v : UInt16} {us : List UInt16} {cs : List Char} : isHigh u = true → isLow v = true →
      Spells us cs → Spells (u :: v :: us) (pair u v :: cs)
  | high {u : UInt16} {us : List UInt16} {cs : List Char} : isHigh u = true →
      (∀ v ∈ us.head?, isLow v = false) → Spells us cs → Spells (u :: us) (replacement :: cs)
  | low {u : UInt16} {us : List UInt16} {cs : List Char} : isLow u = true → Spells us cs →
      Spells (u :: us) (replacement :: cs)

theorem isHigh_of_isLow {u : UInt16} (h : isLow u = true) : isHigh u = false := by
  rw [Bool.eq_false_iff, Ne, isHigh_iff]
  have := isLow_iff.mp h
  omega

/-- A unit that begins no pair is read by itself. -/
theorem decodeLossy_lone {u : UInt16} {us : List UInt16}
    (h : isHigh u = true → ∀ v ∈ us.head?, isLow v = false) :
    decodeLossy (u :: us) = single u :: decodeLossy us := by
  cases us with
  | nil => rfl
  | cons v us =>
    cases hu : isHigh u with
    | false => exact decodeLossy_single _ hu
    | true =>
      have hv : isLow v = false := h hu v rfl
      rw [decodeLossy, decodeFrom, hv, Bool.and_false, if_neg Bool.false_ne_true, decodeFrom_eq]
      rfl

theorem Spells.eq_decodeLossy {us : List UInt16} {cs : List Char} (h : Spells us cs) :
    decodeLossy us = cs := by
  induction h with
  | nil => rfl
  | char hh hl _ ih =>
    rw [decodeLossy_single _ hh, ih, single, hh, hl]
    rfl
  | pair hu hv _ ih => rw [decodeLossy_pair _ hu hv, ih]
  | high hh hnext _ ih =>
    rw [decodeLossy_lone fun _ => hnext, ih, single, hh]
    rfl
  | low hl _ ih =>
    rw [decodeLossy_single _ (isHigh_of_isLow hl), ih, single, hl, Bool.or_true]
    rfl

/-- A unit that begins no pair, in front of units whose text is known. -/
theorem Spells.lone {u : UInt16} {us : List UInt16} {cs : List Char}
    (h : isHigh u = true → ∀ v ∈ us.head?, isLow v = false) (hs : Spells us cs) :
    Spells (u :: us) (single u :: cs) := by
  cases hh : isHigh u with
  | true =>
    rw [single, hh]
    exact .high hh (h hh) hs
  | false =>
    cases hl : isLow u with
    | true =>
      rw [single, hl, Bool.or_true]
      exact .low hl hs
    | false =>
      rw [single, hh, hl]
      exact .char hh hl hs

/-- All code units spell something. -/
theorem spells_decodeLossy : ∀ us : List UInt16, Spells us (decodeLossy us)
  | [] => .nil
  | [u] => .lone (fun _ => nofun) .nil
  | u :: v :: us => by
    by_cases h : isHigh u = true ∧ isLow v = true
    · rw [decodeLossy_pair us h.1 h.2]
      exact .pair h.1 h.2 (spells_decodeLossy us)
    · have hlone : isHigh u = true → ∀ w ∈ (v :: us).head?, isLow w = false := by
        rintro hu _ ⟨⟩
        exact Bool.eq_false_iff.mpr fun hv => h ⟨hu, hv⟩
      rw [decodeLossy_lone hlone]
      exact .lone hlone (spells_decodeLossy (v :: us))

/-- **The text of code units.**  It is the one that lossy decoding reads. -/
theorem spells_iff {us : List UInt16} {cs : List Char} : Spells us cs ↔ decodeLossy us = cs :=
  ⟨Spells.eq_decodeLossy, fun h => h ▸ spells_decodeLossy us⟩

/-- The unit stands for a character by itself, in one spelling only: it is neither zero nor a
surrogate. -/
def IsPlain (u : UInt16) : Prop := u ≠ 0 ∧ isHigh u = false ∧ isLow u = false

theorem isPlain_iff {u : UInt16} :
    IsPlain u ↔ u.toNat ≠ 0 ∧ (u.toNat < 0xD800 ∨ 0xE000 ≤ u.toNat) := by
  have h0 : u = 0 ↔ u.toNat = 0 := UInt16.toNat_inj.symm
  rw [IsPlain, Ne, h0, Bool.eq_false_iff, Bool.eq_false_iff, Ne, Ne, isHigh_iff, isLow_iff]
  omega

theorem toNat_ofNat_of_isPlain {u : UInt16} (h : IsPlain u) :
    (Char.ofNat u.toNat).toNat = u.toNat := by
  have hlt := u.toNat_lt
  have h := isPlain_iff.mp h
  refine Utf8.toNat_ofNat ?_
  show u.toNat < 0xD800 ∨ 0xDFFF < u.toNat ∧ u.toNat < 0x110000
  omega

end Utf16

/-! ### The two ways of reading -/

namespace ModifiedUtf8

open Utf16 (IsPlain Spells)

/-- The bytes of plain units are the UTF-8 of their characters. -/
theorem encodeUnits_of_isPlain {us : List UInt16} (h : ∀ u ∈ us, IsPlain u) :
    encodeUnits us = Utf8.encode (us.map fun u => .ofNat u.toNat) := by
  rw [encodeUnits, Utf8.encode, List.flatMap_map]
  refine List.flatMap_congr fun u hu => ?_
  have hlt := u.toNat_lt
  rw [Utf8.encodeChar, Utf16.toNat_ofNat_of_isPlain (h u hu), encodeUnit,
    if_neg (Utf16.isPlain_iff.mp (h u hu)).1]
  simp only [show u.toNat < 0x10000 from hlt, if_true]

/-- The bytes of code units are UTF-8 exactly when every unit is plain.  Zero has a spelling of its
own, and a surrogate has none in UTF-8. -/
theorem decode?_encodeUnits {us : List UInt16} :
    (∃ cs, Utf8.decode? (encodeUnits us) = some cs) ↔ ∀ u ∈ us, IsPlain u := by
  constructor
  · rintro ⟨cs, hcs⟩ u hu
    have hbytes : encodeUnits us = Utf8.encode cs := Utf8.eq_encode_of_decode? hcs
    have hlt : ∀ c ∈ cs, c.toNat < 0x10000 := toNat_lt_of_encode fun b hb =>
      (bounds_of_mem_encodeUnits (hbytes ▸ hb)).2
    have hus : us = cs.flatMap Utf16.units := by
      rw [← units_encode hlt, ← hbytes, units_encodeUnits]
    obtain ⟨c, hc, huc⟩ := List.mem_flatMap.mp (hus ▸ hu)
    -- UTF-8 spells zero by a zero byte, and no code unit is spelled with one.
    have hnz : c.toNat ≠ 0 := fun h0 => by
      have hm : UInt8.ofNat c.toNat ∈ encodeUnits us := by
        rw [hbytes]
        refine List.mem_flatMap.mpr ⟨c, hc, ?_⟩
        rw [Utf8.encodeChar_one (by omega)]
        exact List.mem_singleton_self _
      have hpos := (bounds_of_mem_encodeUnits hm).1
      rw [Utf8.toNat_byte (by omega)] at hpos
      omega
    have hv : c.toNat < 0xD800 ∨ 0xDFFF < c.toNat ∧ c.toNat < 0x110000 := c.valid
    rw [Utf16.units, if_pos (hlt c hc), List.mem_singleton] at huc
    rw [Utf16.isPlain_iff, huc, Utf16.toNat_unit (hlt c hc)]
    omega
  · intro h
    exact ⟨_, encodeUnits_of_isPlain h ▸ Utf8.decode?_encode _⟩

/-- **Code units are read back as the text that they spell.**  The text of their bytes is the one
that they spell and no other.  Cutting the bytes gives the units again, whatever they are; taking
the bytes as UTF-8 succeeds exactly when no unit is zero or a surrogate.  A text is therefore read
back from its modified UTF-8, along either way that is open. -/
theorem decode_encodeUnits_spells :
    (∀ us, (decode (encodeUnits us)).toList = Utf16.decodeLossy us) ∧
    (∀ us cs, Utf16.decodeLossy us = cs ↔ Spells us cs) ∧
    (∀ us, units (encodeUnits us) = us) ∧
    (∀ us, (∃ cs, Utf8.decode? (encodeUnits us) = some cs) ↔ ∀ u ∈ us, IsPlain u) ∧
    ∀ text, decode (encode text) = text ∧
      Utf16.decodeLossy (units (encode text)) = text.toList ∧
      (Utf8.decode? (encode text) = none ∨ Utf8.decode? (encode text) = some text.toList) := by
  refine ⟨fun us => ?read, fun us cs => Utf16.spells_iff.symm, units_encodeUnits,
    fun us => decode?_encodeUnits, fun text => ⟨decode_encode text, ?cut, ?whole⟩⟩
  case read => rw [decode, String.toList_ofList, chars_encodeUnits]
  case cut => rw [encode, units_encodeUnits, Utf16.decodeLossy_flatMap_units]
  case whole =>
    cases h : Utf8.decode? (encode text) with
    | none => exact .inl rfl
    | some cs =>
      have hchars : chars (encode text) = cs := by rw [chars, h]
      have htext := congrArg String.toList (decode_encode text)
      rw [decode, String.toList_ofList, hchars] at htext
      exact .inr (congrArg some htext)

end ModifiedUtf8

end JvmOutline
