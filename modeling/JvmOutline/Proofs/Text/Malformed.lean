import JvmOutline.Proofs.Text.CodeUnits
import Mathlib.Data.List.Forall2

/-!
# Malformed text

The unit reader goes by the first byte of a sequence: it announces one, two or three bytes, and
those that follow it are taken as they come (`Sequence`).  A sequence is *proper* if its other
bytes are continuation bytes and its unit needs that many (`IsProper`); these are the sequences
that `encodeUnit` writes (`Sequence.isProper_iff`).

Only a byte that starts no sequence, a sequence that runs past the end, and a surrogate without its
partner leave a replacement character.  A byte string whose text has none is therefore the UTF-8 of
the text, or is cut into sequences that spell the text's code units (`exists_cut`).  There is one
way to cut it (`Sequence.eq_of_append`), so these sequences are the modified UTF-8 of the text only
if all of them are proper.

**A malformed text goes unnoticed exactly when it is cut into sequences, one of them improper, that
spell no replacement character** (`isFaithful_iff`): a byte that should have been a continuation, a
unit in more bytes than it needs, or a zero byte in a text that is no UTF-8.
-/

namespace JvmOutline

/-! ### Code units without a replacement character -/

namespace Utf16

theorem units_ofNat {u : UInt16} (hh : isHigh u = false) (hl : isLow u = false) :
    units (.ofNat u.toNat) = [u] := by
  have hlt := u.toNat_lt
  rw [Bool.eq_false_iff, Ne, isHigh_iff] at hh
  rw [Bool.eq_false_iff, Ne, isLow_iff] at hl
  have hv : u.toNat.isValidChar := by
    show u.toNat < 0xD800 ∨ 0xDFFF < u.toNat ∧ u.toNat < 0x110000
    omega
  rw [units, Utf8.toNat_ofNat hv, if_pos (by omega), UInt16.ofNat_toNat]

theorem units_pair {u v : UInt16} (hu : isHigh u = true) (hv : isLow v = true) :
    units (pair u v) = [u, v] := by
  rw [isHigh_iff] at hu
  rw [isLow_iff] at hv
  have hvalid : (0x10000 + (u.toNat - 0xD800) * 0x400 + (v.toNat - 0xDC00)).isValidChar :=
    .inr ⟨by omega, by omega⟩
  rw [units, pair, Utf8.toNat_ofNat hvalid, if_neg (by omega), List.cons_eq_cons,
    List.cons_eq_cons, ← UInt16.toNat_inj, ← UInt16.toNat_inj, toNat_unit (by omega),
    toNat_unit (by omega)]
  exact ⟨by omega, by omega, rfl⟩

/-- Code units that spell no replacement character are the code units of their text. -/
theorem Spells.eq_flatMap_units {us : List UInt16} {cs : List Char} (h : Spells us cs)
    (hr : replacement ∉ cs) : us = cs.flatMap units := by
  induction h with
  | nil => rfl
  | char hh hl _ ih =>
    rw [List.flatMap_cons, units_ofNat hh hl, ← ih fun hm => hr (List.mem_cons_of_mem _ hm)]
    rfl
  | pair hu hv _ ih =>
    rw [List.flatMap_cons, units_pair hu hv, ← ih fun hm => hr (List.mem_cons_of_mem _ hm)]
    rfl
  | high _ _ _ _ => exact absurd List.mem_cons_self hr
  | low _ _ _ => exact absurd List.mem_cons_self hr

/-- The unit of the replacement character is no surrogate, so it always spells its character. -/
theorem Spells.replacement_mem {us : List UInt16} {cs : List Char} (h : Spells us cs)
    (hm : 0xFFFD ∈ us) : replacement ∈ cs := by
  induction h with
  | nil => exact absurd hm List.not_mem_nil
  | char _ _ _ ih =>
    rcases List.mem_cons.mp hm with rfl | hm
    · exact List.mem_cons_self
    · exact List.mem_cons_of_mem _ (ih hm)
  | pair hu hv _ ih =>
    rcases List.mem_cons.mp hm with rfl | hm
    · exact absurd hu (by decide)
    rcases List.mem_cons.mp hm with rfl | hm
    · exact absurd hv (by decide)
    · exact List.mem_cons_of_mem _ (ih hm)
  | high _ _ _ _ => exact List.mem_cons_self
  | low _ _ _ => exact List.mem_cons_self

end Utf16

namespace ModifiedUtf8

/-! ### Sequences -/

/-- The bytes after the first are continuation bytes, and there are no more of them than the unit
needs.  Zero needs two bytes, and has none of its own. -/
inductive IsProper : Bytes → Prop where
  | one {a : UInt8} : a.toNat ≠ 0 → IsProper [a]
  | two {a b : UInt8} : Utf8.isTail b = true →
      Utf8.point2 a b = 0 ∨ 0x80 ≤ Utf8.point2 a b → IsProper [a, b]
  | three {a b c : UInt8} : Utf8.isTail b = true → Utf8.isTail c = true →
      0x800 ≤ Utf8.point3 a b c → IsProper [a, b, c]

/-- The first byte tells where a sequence ends. -/
theorem Sequence.eq_of_append {u u' : UInt16} {s s' t t' : Bytes} (h : Sequence u s)
    (h' : Sequence u' s') (heq : s ++ t = s' ++ t') : s = s' := by
  have hlen : s.length = s'.length := by
    cases h <;> cases h' <;> simp only [List.cons_append, List.cons.injEq] at heq ⊢ <;>
      obtain ⟨rfl, -⟩ := heq <;> first | rfl | omega
  exact (List.append_inj heq hlen).1

/-- Two bytes with the marker of a continuation and of a sequence of two. -/
theorem eq_of_point2 {a b : UInt8} (ha : 0xC0 ≤ a.toNat) (ha' : a.toNat < 0xE0)
    (hb : Utf8.isTail b = true) :
    a = .ofNat (0xC0 + Utf8.point2 a b / 64) ∧ b = .ofNat (0x80 + Utf8.point2 a b % 64) := by
  rw [Utf8.isTail_iff] at hb
  rw [Utf8.point2, Utf8.byte_eq_iff (by omega), Utf8.byte_eq_iff (by omega)]
  exact ⟨by omega, by omega⟩

theorem eq_of_point3 {a b c : UInt8} (ha : 0xE0 ≤ a.toNat) (ha' : a.toNat < 0xF0)
    (hb : Utf8.isTail b = true) (hc : Utf8.isTail c = true) :
    a = .ofNat (0xE0 + Utf8.point3 a b c / 4096) ∧
      b = .ofNat (0x80 + Utf8.point3 a b c / 64 % 64) ∧
      c = .ofNat (0x80 + Utf8.point3 a b c % 64) := by
  rw [Utf8.isTail_iff] at hb hc
  rw [Utf8.point3, Utf8.byte_eq_iff (by omega), Utf8.byte_eq_iff (by omega),
    Utf8.byte_eq_iff (by omega)]
  exact ⟨by omega, by omega, by omega⟩

/-- A proper sequence is the one that is written for its unit. -/
theorem Sequence.eq_encodeUnit {u : UInt16} {s : Bytes} (h : Sequence u s) (hp : IsProper s) :
    s = encodeUnit u := by
  cases h with
  | @one a ha =>
    cases hp with
    | one h0 =>
      have hn : (UInt16.ofNat a.toNat).toNat = a.toNat := Utf16.toNat_unit (by omega)
      rw [encodeUnit, hn, if_neg h0, if_pos ha, UInt8.ofNat_toNat]
  | @two a b ha ha' =>
    cases hp with
    | two hb hn =>
      have hlt : Utf8.point2 a b < 0x800 := by rw [Utf8.point2]; omega
      obtain ⟨heqa, heqb⟩ := eq_of_point2 ha ha' hb
      rw [encodeUnit, Utf16.toNat_unit (by omega)]
      rcases hn with hn | hn
      · rw [hn] at heqa heqb ⊢
        rw [heqa, heqb]
        rfl
      · rw [if_neg (by omega), if_neg (by omega), if_pos hlt, ← heqa, ← heqb]
  | @three a b c ha ha' =>
    cases hp with
    | three hb hc hn =>
      have hlt : Utf8.point3 a b c < 0x10000 := by rw [Utf8.point3]; omega
      obtain ⟨heqa, heqb, heqc⟩ := eq_of_point3 ha ha' hb hc
      rw [encodeUnit, Utf16.toNat_unit hlt, if_neg (by omega), if_neg (by omega),
        if_neg (by omega), ← heqa, ← heqb, ← heqc]

theorem isProper_encodeUnit (u : UInt16) : IsProper (encodeUnit u) := by
  have hlt := u.toNat_lt
  by_cases h0 : u.toNat = 0
  · rw [show u = 0 from UInt16.toNat_inj.mp h0]
    exact .two rfl (.inl rfl)
  by_cases h1 : u.toNat < 0x80
  · rw [encodeUnit_one h0 h1]
    refine .one ?_
    rwa [Utf8.toNat_byte (by omega)]
  by_cases h2 : u.toNat < 0x800
  · rw [encodeUnit_two (by omega) h2]
    refine .two (Utf8.isTail_byte (by omega)) (.inr ?_)
    rw [Utf8.point2_byte h2]
    omega
  · rw [encodeUnit_three (by omega)]
    refine .three (Utf8.isTail_byte (by omega)) (Utf8.isTail_byte (by omega)) ?_
    rw [Utf8.point3_byte hlt]
    omega

/-- The proper sequences are those that are written. -/
theorem Sequence.isProper_iff {u : UInt16} {s : Bytes} (h : Sequence u s) :
    IsProper s ↔ s = encodeUnit u := by
  constructor
  · exact h.eq_encodeUnit
  · rintro rfl
    exact isProper_encodeUnit u

/-! ### Cutting a byte string -/

/-- What the unit reader finds is a sequence, or the unit of the replacement character. -/
theorem exists_sequence_or_eq (a : UInt8) (rest : Bytes) :
    (∃ u tail after, rest = tail ++ after ∧ Sequence u (a :: tail)) ∨
      unitAt a rest = (0xFFFD, 0) := by
  unfold unitAt
  simp only [UInt8.lt_iff_toNat_lt, UInt8.le_iff_toNat_le]
  split
  · next h => exact .inl ⟨_, [], rest, rfl, .one h⟩
  split
  · next h =>
    simp only [Bool.and_eq_true, decide_eq_true_eq] at h
    split
    · next b after => exact .inl ⟨_, [b], after, rfl, .two b h.1 h.2⟩
    · exact .inr rfl
  split
  · next h =>
    simp only [Bool.and_eq_true, decide_eq_true_eq] at h
    split
    · next b c after => exact .inl ⟨_, [b, c], after, rfl, .three b c h.1 h.2⟩
    · exact .inr rfl
  · exact .inr rfl

/-- A byte string in which no byte stands for the replacement character is cut into sequences. -/
theorem exists_cut {bytes : Bytes} (h : 0xFFFD ∉ units bytes) :
    ∃ seqs, List.Forall₂ Sequence (units bytes) seqs ∧ seqs.flatten = bytes := by
  induction hn : bytes.length using Nat.strongRecOn generalizing bytes with
  | _ n ih =>
    cases bytes with
    | nil => exact ⟨[], .nil, rfl⟩
    | cons a rest =>
      rcases exists_sequence_or_eq a rest with ⟨u, tail, after, rfl, hs⟩ | hr
      · have hu : units (a :: (tail ++ after)) = u :: units after := hs.units_append after
        rw [hu] at h ⊢
        have hlt : after.length < n := by
          rw [← hn, List.length_cons, List.length_append]
          omega
        obtain ⟨seqs, hseqs, rfl⟩ := ih _ hlt (fun hm => h (List.mem_cons_of_mem u hm)) rfl
        exact ⟨(a :: tail) :: seqs, .cons hs hseqs, rfl⟩
      · have hu : units (a :: rest) = 0xFFFD :: units rest := units_cons [] hr
        exact absurd (hu ▸ List.mem_cons_self) h

/-- The units of sequences are read back from them. -/
theorem units_flatten {us : List UInt16} {seqs : List Bytes} (h : List.Forall₂ Sequence us seqs) :
    units seqs.flatten = us := by
  induction h with
  | nil => rfl
  | cons hs _ ih => rw [List.flatten_cons, hs.units_append, ih]

/-- Sequences are what is written for their units exactly if all of them are proper. -/
theorem flatten_eq_encodeUnits_iff {us : List UInt16} {seqs : List Bytes}
    (h : List.Forall₂ Sequence us seqs) :
    seqs.flatten = encodeUnits us ↔ ∀ s ∈ seqs, IsProper s := by
  induction h with
  | nil => simp [encodeUnits]
  | @cons u s us seqs hs _ ih =>
    rw [List.flatten_cons, encodeUnits, List.flatMap_cons, ← encodeUnits, List.forall_mem_cons,
      hs.isProper_iff]
    constructor
    · intro heq
      have hs' : s = encodeUnit u := hs.eq_of_append (sequence_encodeUnit u) heq
      rw [← hs'] at heq
      exact ⟨hs', ih.mp (List.append_cancel_left heq)⟩
    · rintro ⟨rfl, hrest⟩
      rw [ih.mpr hrest]

/-! ### Which malformed texts go unnoticed -/

/-- Bytes whose text has no replacement character are an encoding of that text. -/
def IsFaithful (bytes : Bytes) : Prop :=
  Utf16.replacement ∉ (decode bytes).toList →
    bytes = Utf8.encode (decode bytes).toList ∨ bytes = encode (decode bytes)

theorem toList_decode_of_some {bytes : Bytes} {cs : List Char}
    (h : Utf8.decode? bytes = some cs) : (decode bytes).toList = cs := by
  rw [decode, String.toList_ofList, chars, h]

theorem toList_decode_of_none {bytes : Bytes} (h : Utf8.decode? bytes = none) :
    (decode bytes).toList = Utf16.decodeLossy (units bytes) := by
  rw [decode, String.toList_ofList, chars, h]

/-- What the text shows is what its code units show: without a replacement character, they are cut
from the bytes and spell the text. -/
theorem exists_cut_of_text {bytes : Bytes}
    (h : Utf16.replacement ∉ Utf16.decodeLossy (units bytes)) :
    (Utf16.decodeLossy (units bytes)).flatMap Utf16.units = units bytes ∧
      ∃ seqs, List.Forall₂ Sequence (units bytes) seqs ∧ seqs.flatten = bytes := by
  have hs := Utf16.spells_decodeLossy (units bytes)
  exact ⟨(hs.eq_flatMap_units h).symm, exists_cut fun hm => h (hs.replacement_mem hm)⟩

/-- **Which byte strings are read faithfully.**  A text without a replacement character is read from
its UTF-8, or from sequences that spell its code units.  The bytes are then one of its encodings,
save for those that are no UTF-8 and are cut into sequences of which one is improper: the reader
does not look at what follows the first byte of a sequence. -/
theorem isFaithful_iff (bytes : Bytes) :
    (Utf16.replacement ∉ (decode bytes).toList →
      bytes = Utf8.encode (decode bytes).toList ∨
        ∃ seqs, List.Forall₂ Sequence ((decode bytes).toList.flatMap Utf16.units) seqs ∧
          seqs.flatten = bytes) ∧
    (IsFaithful bytes ↔
      (∃ cs, bytes = Utf8.encode cs) ∨
        ∀ us seqs, List.Forall₂ Sequence us seqs → seqs.flatten = bytes →
          Utf16.replacement ∈ Utf16.decodeLossy us ∨ ∀ s ∈ seqs, IsProper s) := by
  cases hd : Utf8.decode? bytes with
  | some cs =>
    have hbytes : bytes = Utf8.encode cs := Utf8.eq_encode_of_decode? hd
    have htext : bytes = Utf8.encode (decode bytes).toList := by
      rw [toList_decode_of_some hd, ← hbytes]
    exact ⟨fun _ => .inl htext, fun _ => .inl ⟨cs, hbytes⟩, fun _ _ => .inl htext⟩
  | none =>
    have hno : ∀ cs, bytes ≠ Utf8.encode cs := by
      rintro cs rfl
      rw [Utf8.decode?_encode] at hd
      cases hd
    rw [IsFaithful, encode, toList_decode_of_none hd]
    refine ⟨fun h => ?spelled, fun h => .inr ?proper, fun h hr => .inr ?encoded⟩
    case spelled =>
      obtain ⟨hu, hcut⟩ := exists_cut_of_text h
      rw [hu]
      exact .inr hcut
    case proper =>
      rintro us seqs hs rfl
      rw [units_flatten hs] at h
      refine or_iff_not_imp_left.mpr fun hr => (flatten_eq_encodeUnits_iff hs).mp ?_
      rw [← (Utf16.spells_decodeLossy us).eq_flatMap_units hr] at h
      exact (h hr).resolve_left (hno _)
    case encoded =>
      obtain ⟨hu, seqs, hs, hflat⟩ := exists_cut_of_text hr
      have hp : ∀ s ∈ seqs, IsProper s :=
        ((h.resolve_left (not_exists.mpr hno)) _ _ hs hflat).resolve_left hr
      rw [hu, ← (flatten_eq_encodeUnits_iff hs).mpr hp, hflat]

/-- A lead byte takes an opening parenthesis for its continuation, and the two are read as `è`. -/
theorem not_isFaithful_unchecked_tail : ¬ ∀ bytes, IsFaithful bytes := by
  intro h
  have htext : (decode [0xC3, 0x28]).toList = ['è'] := toList_decode_of_none rfl
  rcases h [0xC3, 0x28] (by rw [htext]; decide) with hb | hb
  · rw [htext] at hb
    revert hb
    decide
  · rw [encode, htext] at hb
    revert hb
    decide

end ModifiedUtf8

end JvmOutline
