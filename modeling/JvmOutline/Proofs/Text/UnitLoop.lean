import Mathlib.Algebra.Group.Nat.Defs
import JvmOutline.Proofs.Text.ModifiedUtf8

/-!
# The loop over the bytes of a text

`Cursor.turn?` takes one code unit by positions, masks and shifts, and looks ahead only as far as a
test against the length of the text allows; it has no result if it reads behind the last byte.
`Loop` runs it until the position is at the end.

- **Every text is cut by the loop** (`loop_iff`): no turn reads behind the last byte, the loop ends
  at the end of the text, and its units are those of the unit reader.  From any position on this is
  so for the bytes that are left (`loop_append`), and there is only one end (`Loop.unique`).
- **UTF-8 along both ways** (`decodeLossy_units_encode`): a character of up to three bytes is read
  as itself, and one of four bytes as four replacement characters.  So both ways agree on the UTF-8
  of a text exactly if no character takes four bytes (`unit_loop_agrees`).
-/

namespace JvmOutline

/-! ### Characters of four bytes -/

namespace Utf8

theorem length_encodeChar_le_three_iff {c : Char} :
    (encodeChar c).length ≤ 3 ↔ c.toNat < 0x10000 := by
  by_cases h1 : c.toNat < 0x80
  · rw [encodeChar_one h1]
    exact iff_of_true (Nat.le_of_ble_eq_true rfl) (by omega)
  by_cases h2 : c.toNat < 0x800
  · rw [encodeChar_two (by omega) h2]
    exact iff_of_true (Nat.le_of_ble_eq_true rfl) (by omega)
  by_cases h3 : c.toNat < 0x10000
  · rw [encodeChar_three (by omega) h3]
    exact iff_of_true (Nat.le_of_ble_eq_true rfl) h3
  · rw [encodeChar_four (by omega)]
    exact iff_of_false (Nat.not_succ_le_self 3) h3

end Utf8

namespace ModifiedUtf8

/-- A byte that starts no sequence of up to three bytes. -/
theorem unitAt_stray {a : UInt8} (rest : Bytes)
    (h : 0x80 ≤ a.toNat ∧ a.toNat < 0xC0 ∨ 0xF0 ≤ a.toNat) : unitAt a rest = (0xFFFD, 0) := by
  unfold unitAt
  simp only [UInt8.lt_iff_toNat_lt, UInt8.le_iff_toNat_le]
  rw [if_neg (by simp; omega), if_neg (by simp; omega), if_neg (by simp; omega)]

theorem units_stray {a : UInt8} (rest : Bytes)
    (h : 0x80 ≤ a.toNat ∧ a.toNat < 0xC0 ∨ 0xF0 ≤ a.toNat) :
    units (a :: rest) = 0xFFFD :: units rest :=
  units_cons [] (unitAt_stray rest h)

/-- Each byte of a character of four bytes is cut off by itself. -/
theorem units_encodeChar_append_wide {c : Char} (h : 0x10000 ≤ c.toNat) (rest : Bytes) :
    units (Utf8.encodeChar c ++ rest) = List.replicate 4 0xFFFD ++ units rest := by
  have hlt := Utf8.toNat_lt c
  have hfirst : 0xF0 ≤ (UInt8.ofNat (0xF0 + c.toNat / 262144)).toNat := by
    rw [Utf8.toNat_byte (by omega)]
    omega
  have htail : ∀ n < 64, 0x80 ≤ (UInt8.ofNat (0x80 + n)).toNat ∧
      (UInt8.ofNat (0x80 + n)).toNat < 0xC0 := fun n hn => by
    rw [Utf8.toNat_byte (by omega)]
    omega
  rw [Utf8.encodeChar_four h]
  simp only [List.cons_append, List.nil_append]
  rw [units_stray _ (.inr hfirst), units_stray _ (.inl (htail _ (by omega))),
    units_stray _ (.inl (htail _ (by omega))), units_stray _ (.inl (htail _ (by omega)))]
  rfl

/-- What the bytes of a character are read as, cut into code units. -/
def readAs (c : Char) : List Char :=
  if c.toNat < 0x10000 then [c] else List.replicate 4 Utf16.replacement

theorem decodeLossy_units_encodeChar_append (c : Char) (rest : Bytes) :
    Utf16.decodeLossy (units (Utf8.encodeChar c ++ rest)) =
      readAs c ++ Utf16.decodeLossy (units rest) := by
  unfold readAs
  by_cases hc : c.toNat < 0x10000
  · have hu : Utf16.units c = [.ofNat c.toNat] := if_pos hc
    rw [if_pos hc, units_encodeChar_append hc, ← List.singleton_append, ← hu,
      Utf16.decodeLossy_units_append]
    rfl
  · have hr : ∀ us, Utf16.decodeLossy (0xFFFD :: us) =
        Utf16.replacement :: Utf16.decodeLossy us := fun us =>
      Utf16.decodeLossy_single us (by decide)
    rw [if_neg hc, units_encodeChar_append_wide (by omega)]
    simp only [List.replicate_succ, List.replicate_zero, List.cons_append, List.nil_append, hr]

/-- The UTF-8 of a text, cut into code units. -/
theorem decodeLossy_units_encode (cs : List Char) :
    Utf16.decodeLossy (units (Utf8.encode cs)) = cs.flatMap readAs := by
  induction cs with
  | nil => rfl
  | cons c cs ih =>
    rw [Utf8.encode, List.flatMap_cons, decodeLossy_units_encodeChar_append, ← Utf8.encode, ih]
    rfl

theorem length_le_flatMap_readAs (cs : List Char) : cs.length ≤ (cs.flatMap readAs).length := by
  induction cs with
  | nil => exact Nat.le_refl 0
  | cons c cs ih =>
    rw [List.flatMap_cons, List.length_append, List.length_cons, readAs]
    split
    · rw [List.length_singleton]
      omega
    · rw [List.length_replicate]
      omega

/-- A text with a character of four bytes becomes longer. -/
theorem flatMap_readAs_eq_iff {cs : List Char} :
    cs.flatMap readAs = cs ↔ ∀ c ∈ cs, c.toNat < 0x10000 := by
  induction cs with
  | nil => exact iff_of_true rfl nofun
  | cons c cs ih =>
    rw [List.forall_mem_cons, List.flatMap_cons, ← ih]
    by_cases hc : c.toNat < 0x10000
    · rw [readAs, if_pos hc, List.singleton_append, List.cons_inj_right]
      exact (and_iff_right hc).symm
    · refine iff_of_false (fun h => ?_) fun h => hc h.1
      have hlen := congrArg List.length h
      have hle := length_le_flatMap_readAs cs
      rw [readAs, if_neg hc, List.length_append, List.length_replicate, List.length_cons] at hlen
      omega

/-! ### Masks -/

/-- The masks of the first byte tell how many bytes it announces. -/
theorem mask_one_iff (a : UInt8) : a.toUInt16 &&& 0x80 = 0 ↔ a.toNat < 0x80 := by
  rw [← UInt16.toNat_inj, UInt16.toNat_and]
  exact (by decide +kernel : ∀ n < 256, n &&& 0x80 = 0 ↔ n < 0x80) a.toNat a.toNat_lt

theorem mask_two_iff (a : UInt8) :
    a.toUInt16 &&& 0xE0 = 0xC0 ↔ 0xC0 ≤ a.toNat ∧ a.toNat < 0xE0 := by
  rw [← UInt16.toNat_inj, UInt16.toNat_and]
  exact (by decide +kernel : ∀ n < 256, n &&& 0xE0 = 0xC0 ↔ 0xC0 ≤ n ∧ n < 0xE0) a.toNat a.toNat_lt

theorem mask_three_iff (a : UInt8) :
    a.toUInt16 &&& 0xF0 = 0xE0 ↔ 0xE0 ≤ a.toNat ∧ a.toNat < 0xF0 := by
  rw [← UInt16.toNat_inj, UInt16.toNat_and]
  exact (by decide +kernel : ∀ n < 256, n &&& 0xF0 = 0xE0 ↔ 0xE0 ≤ n ∧ n < 0xF0) a.toNat a.toNat_lt

/-- Bits of one number in front of those of another. -/
theorem mul_or_eq_add {x y : Nat} (k : Nat) (h : y < 2 ^ k) : x * 2 ^ k ||| y = x * 2 ^ k + y := by
  rw [Nat.mul_comm, Nat.two_pow_add_eq_or_of_lt h]

/-- The low six bits of a byte. -/
theorem toNat_low6 (b : UInt8) : (b.toUInt16 &&& 0x3F).toNat = b.toNat % 64 := by
  rw [UInt16.toNat_and, UInt8.toNat_toUInt16]
  exact Nat.and_two_pow_sub_one_eq_mod b.toNat 6

theorem toNat_shifted6 (u : UInt16) (h : u.toNat < 64) : (u <<< 6).toNat = u.toNat * 64 := by
  rw [UInt16.toNat_shiftLeft, Nat.shiftLeft_eq]
  exact Nat.mod_eq_of_lt (show u.toNat * 64 < 65536 by omega)

theorem toNat_shifted12 (u : UInt16) (h : u.toNat < 16) : (u <<< 12).toNat = u.toNat * 4096 := by
  rw [UInt16.toNat_shiftLeft, Nat.shiftLeft_eq]
  exact Nat.mod_eq_of_lt (show u.toNat * 4096 < 65536 by omega)

theorem masked2_eq (a b : UInt8) :
    (a.toUInt16 &&& 0x1F) <<< 6 ||| (b.toUInt16 &&& 0x3F) = .ofNat (Utf8.point2 a b) := by
  have ha : (a.toUInt16 &&& 0x1F).toNat = a.toNat % 32 := by
    rw [UInt16.toNat_and, UInt8.toNat_toUInt16]
    exact Nat.and_two_pow_sub_one_eq_mod a.toNat 5
  rw [← UInt16.toNat_inj, UInt16.toNat_or, toNat_shifted6 _ (by omega), ha, toNat_low6,
    Utf16.toNat_unit (by rw [Utf8.point2]; omega), Utf8.point2]
  exact mul_or_eq_add 6 (Nat.mod_lt _ (by decide))

theorem masked3_eq (a b c : UInt8) :
    (a.toUInt16 &&& 0x0F) <<< 12 ||| (b.toUInt16 &&& 0x3F) <<< 6 ||| (c.toUInt16 &&& 0x3F) =
      .ofNat (Utf8.point3 a b c) := by
  have ha : (a.toUInt16 &&& 0x0F).toNat = a.toNat % 16 := by
    rw [UInt16.toNat_and, UInt8.toNat_toUInt16]
    exact Nat.and_two_pow_sub_one_eq_mod a.toNat 4
  have hb := toNat_low6 b
  have hhigh : a.toNat % 16 * 4096 ||| b.toNat % 64 * 64 =
      (a.toNat % 16 * 64 + b.toNat % 64) * 64 :=
    calc a.toNat % 16 * 4096 ||| b.toNat % 64 * 64
      _ = a.toNat % 16 * 4096 + b.toNat % 64 * 64 :=
        mul_or_eq_add 12 (show b.toNat % 64 * 64 < 4096 by omega)
      _ = (a.toNat % 16 * 64 + b.toNat % 64) * 64 := by omega
  rw [← UInt16.toNat_inj, UInt16.toNat_or, UInt16.toNat_or, toNat_shifted12 _ (by omega),
    toNat_shifted6 _ (by omega), ha, hb, toNat_low6, hhigh,
    Utf16.toNat_unit (by rw [Utf8.point3]; omega), Utf8.point3]
  exact mul_or_eq_add 6 (Nat.mod_lt _ (by decide))

/-! ### The loop -/

/-- Where the loop stands: the units so far, and the position of the next byte. -/
structure Cursor where
  units : List UInt16
  position : Nat

/-- A unit that took some bytes. -/
def Cursor.push (s : Cursor) (u : UInt16) (taken : Nat) : Cursor :=
  ⟨s.units ++ [u], s.position + taken⟩

/-- One turn of the loop; it has no result if a byte is read behind the last one. -/
def Cursor.turn? (bytes : Bytes) (s : Cursor) : Option Cursor := do
  let a := (← bytes[s.position]?).toUInt16
  if a &&& 0x80 = 0 then
    return s.push a 1
  else if a &&& 0xE0 = 0xC0 ∧ s.position + 1 < bytes.length then
    let b := (← bytes[s.position + 1]?).toUInt16
    return s.push ((a &&& 0x1F) <<< 6 ||| (b &&& 0x3F)) 2
  else if a &&& 0xF0 = 0xE0 ∧ s.position + 2 < bytes.length then
    let b := (← bytes[s.position + 1]?).toUInt16
    let c := (← bytes[s.position + 2]?).toUInt16
    return s.push ((a &&& 0x0F) <<< 12 ||| (b &&& 0x3F) <<< 6 ||| (c &&& 0x3F)) 3
  else
    return s.push 0xFFFD 1

/-- The loop ends in a state: it takes turns, each of which has a result, while there is a byte at
its position. -/
inductive Loop (bytes : Bytes) : Cursor → Cursor → Prop where
  | done {s : Cursor} : ¬ s.position < bytes.length → Loop bytes s s
  | turn {s t e : Cursor} : s.position < bytes.length → s.turn? bytes = some t → Loop bytes t e →
      Loop bytes s e

/-- There is at most one state in which the loop ends. -/
theorem Loop.unique {bytes : Bytes} {s e e' : Cursor} (h : Loop bytes s e) (h' : Loop bytes s e') :
    e = e' := by
  induction h with
  | done hend =>
    cases h' with
    | done _ => rfl
    | turn hlt _ _ => exact absurd hlt hend
  | turn hlt ht _ ih =>
    cases h' with
    | done hend => exact absurd hlt hend
    | turn _ ht' hl =>
      cases ht.symm.trans ht'
      exact ih hl

/-- A sequence that runs past the end. -/
theorem unitAt_cut {a : UInt8} {rest : Bytes}
    (h : 0xC0 ≤ a.toNat ∧ a.toNat < 0xE0 ∧ rest.length < 1 ∨
      0xE0 ≤ a.toNat ∧ a.toNat < 0xF0 ∧ rest.length < 2) : unitAt a rest = (0xFFFD, 0) := by
  unfold unitAt
  simp only [UInt8.lt_iff_toNat_lt, UInt8.le_iff_toNat_le]
  rcases h with ⟨h, h', hr⟩ | ⟨h, h', hr⟩
  · rw [if_neg (by simp; omega), if_pos (by simp; omega)]
    obtain rfl := List.length_eq_zero_iff.mp (Nat.lt_one_iff.mp hr)
    rfl
  · rw [if_neg (by simp; omega), if_neg (by simp; omega), if_pos (by simp; omega)]
    match rest, hr with
    | [], _ => rfl
    | [_], _ => rfl

/-- A turn takes what the unit reader finds at its position. -/
theorem turn?_eq (front : Bytes) (a : UInt8) (rest : Bytes) (us : List UInt16) :
    Cursor.turn? (front ++ a :: rest) ⟨us, front.length⟩ =
      some (Cursor.push ⟨us, front.length⟩ (unitAt a rest).1 ((unitAt a rest).2 + 1)) := by
  have hget : ∀ k, (front ++ a :: rest)[front.length + k]? = (a :: rest)[k]? := fun k => by
    rw [List.getElem?_append_right (Nat.le_add_right ..), Nat.add_sub_cancel_left]
  have hlen : (front ++ a :: rest).length = front.length + rest.length + 1 := by
    rw [List.length_append, List.length_cons]
    omega
  have h0 : (front ++ a :: rest)[front.length]? = some a := hget 0
  simp only [Cursor.turn?, h0, hget, hlen, mask_one_iff, mask_two_iff, mask_three_iff,
    List.getElem?_cons_succ, Option.bind_eq_bind, Option.bind_some, Option.pure_def]
  by_cases h1 : a.toNat < 0x80
  · rw [if_pos h1, unitAt_one rest h1, UInt16.ofNat_uInt8ToNat]
  rw [if_neg h1]
  by_cases h2 : (0xC0 ≤ a.toNat ∧ a.toNat < 0xE0) ∧
      front.length + 1 < front.length + rest.length + 1
  · rw [if_pos h2]
    match rest with
    | [] => simp at h2
    | b :: rest =>
      rw [unitAt_two b rest h2.1.1 h2.1.2]
      simp [masked2_eq]
  rw [if_neg h2]
  by_cases h3 : (0xE0 ≤ a.toNat ∧ a.toNat < 0xF0) ∧
      front.length + 2 < front.length + rest.length + 1
  · rw [if_pos h3]
    match rest with
    | [] => simp at h3
    | [b] => simp at h3
    | b :: c :: rest =>
      rw [unitAt_three b c rest h3.1.1 h3.1.2]
      simp [masked3_eq]
  rw [if_neg h3]
  have hstray : unitAt a rest = (0xFFFD, 0) := by
    by_cases hs : 0x80 ≤ a.toNat ∧ a.toNat < 0xC0 ∨ 0xF0 ≤ a.toNat
    · exact unitAt_stray rest hs
    · exact unitAt_cut (by omega)
  rw [hstray]

/-- No more bytes are taken than there are. -/
theorem unitAt_le (a : UInt8) (rest : Bytes) : (unitAt a rest).2 ≤ rest.length := by
  unfold unitAt
  split
  · exact Nat.zero_le _
  split
  · split
    · exact Nat.le_add_left 1 _
    · exact Nat.zero_le _
  split
  · split
    · exact Nat.le_add_left 2 _
    · exact Nat.zero_le _
  · exact Nat.zero_le _

/-- The unit in front is cut off, and the bytes behind it are cut further. -/
theorem exists_units_cons (a : UInt8) (rest : Bytes) : ∃ tail after, rest = tail ++ after ∧
    tail.length = (unitAt a rest).2 ∧ units (a :: rest) = (unitAt a rest).1 :: units after := by
  have hlen : (rest.take (unitAt a rest).2).length = (unitAt a rest).2 :=
    List.length_take_of_le (unitAt_le a rest)
  have hcut : units (a :: rest.take (unitAt a rest).2 ++ rest.drop (unitAt a rest).2) =
      (unitAt a rest).1 :: units (rest.drop (unitAt a rest).2) :=
    units_cons _ (by rw [List.take_append_drop, hlen])
  rw [List.cons_append, List.take_append_drop] at hcut
  exact ⟨_, _, (List.take_append_drop _ rest).symm, hlen, hcut⟩

/-- From any position on, the loop cuts off the units of the bytes that are left. -/
theorem loop_append (us : List UInt16) (front rest : Bytes) :
    Loop (front ++ rest) ⟨us, front.length⟩ ⟨us ++ units rest, (front ++ rest).length⟩ := by
  induction hn : rest.length using Nat.strongRecOn generalizing us front rest with
  | _ n ih =>
    cases rest with
    | nil =>
      have hunits : units [] = [] := rfl
      rw [hunits, List.append_nil, List.append_nil]
      exact .done (Nat.lt_irrefl _)
    | cons a rest =>
      obtain ⟨tail, after, hrest, htail, hunits⟩ := exists_units_cons a rest
      have hlt : front.length < (front ++ a :: rest).length := by
        rw [List.length_append, List.length_cons]
        omega
      have hafter : after.length < n := by
        rw [← hn, hrest, List.length_cons, List.length_append]
        omega
      -- The bytes that the turn takes join those in front of the position.
      have hloop := ih after.length hafter (us ++ [(unitAt a rest).1]) (front ++ a :: tail) after
        rfl
      rw [List.append_assoc, List.cons_append, ← hrest, ← List.append_cons, ← hunits,
        List.length_append, List.length_cons, htail] at hloop
      exact .turn hlt (turn?_eq front a rest us) hloop

/-- There are no more units than bytes. -/
theorem length_units_le (bytes : Bytes) : (units bytes).length ≤ bytes.length := by
  induction hn : bytes.length using Nat.strongRecOn generalizing bytes with
  | _ n ih =>
    cases bytes with
    | nil => exact Nat.zero_le n
    | cons a rest =>
      obtain ⟨tail, after, rfl, -, hunits⟩ := exists_units_cons a rest
      have hlen : (a :: (tail ++ after)).length = tail.length + after.length + 1 := by
        rw [List.length_cons, List.length_append]
      have := ih after.length (by omega) after rfl
      rw [hunits, List.length_cons]
      omega

/-- **Every text is cut by the loop.**  It ends, at the end of the text, with the units that the
unit reader finds, and in no other state. -/
theorem loop_iff (bytes : Bytes) (e : Cursor) :
    Loop bytes ⟨[], 0⟩ e ↔ e = ⟨units bytes, bytes.length⟩ := by
  have hloop : Loop bytes ⟨[], 0⟩ ⟨units bytes, bytes.length⟩ := loop_append [] [] bytes
  constructor
  · exact fun h => h.unique hloop
  · rintro rfl
    exact hloop

/-- **The loop agrees with UTF-8.**  Well-formed UTF-8 is what a text is written as.  Its units are
read as the same text exactly if no character takes four bytes, and the loop finds them: on every
byte string it ends at the last byte, reads no byte behind it, and has no more units than bytes. -/
theorem unit_loop_agrees :
    (∀ bytes cs, Utf8.decode? bytes = some cs ↔ bytes = Utf8.encode cs) ∧
    (∀ cs, decode (Utf8.encode cs) = String.ofList cs ∧
      (String.ofList (Utf16.decodeLossy (units (Utf8.encode cs))) = decode (Utf8.encode cs) ↔
        ∀ c ∈ cs, (Utf8.encodeChar c).length ≤ 3)) ∧
    ∀ bytes, (∀ e, Loop bytes ⟨[], 0⟩ e ↔ e = ⟨units bytes, bytes.length⟩) ∧
      (units bytes).length ≤ bytes.length := by
  refine ⟨fun bytes cs => ⟨Utf8.eq_encode_of_decode?, ?valid⟩, fun cs => ?agree,
    fun bytes => ⟨loop_iff bytes, length_units_le bytes⟩⟩
  case valid =>
    rintro rfl
    exact Utf8.decode?_encode cs
  case agree =>
    have hfast : decode (Utf8.encode cs) = String.ofList cs := by
      rw [decode, chars, Utf8.decode?_encode]
    refine ⟨hfast, ?_⟩
    simp only [Utf8.length_encodeChar_le_three_iff]
    rw [hfast, decodeLossy_units_encode, String.ofList_inj, flatMap_readAs_eq_iff]

end ModifiedUtf8

end JvmOutline
