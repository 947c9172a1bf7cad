import JvmOutline.ClassFile.Layout
import JvmOutline.Reader
import Mathlib.Algebra.Group.Nat.Defs
import Mathlib.Data.List.Induction

/-!
# Formats — what readers take off the front

A `Format` says which byte strings are layouts of which values.  `Reader.Reads n r L` says that
the reader `r` reads the format `L` on inputs of fewer than `n` bytes: it takes a value exactly off
the inputs that begin with a layout of the value, and leaves what follows the layout.

The definition runs in both directions, so that one lemma for each reader says that it accepts
every layout and nothing else (`Reads.u2`, `Reads.takeOr`, `Reads.counted2`, …).  The lemmas
compose along the sequence of steps of a reader (`Reads.bind`): what the first step leaves is
shorter than its input, so a bound on the input bounds every later step.
-/

namespace JvmOutline

/-! ### Formats -/

/-- A format: which byte strings are layouts of which values. -/
abbrev Format (α : Type) := Bytes → α → Prop

namespace Format

variable {α β : Type}

/-- The layout without bytes of one value. -/
def empty (a : α) : Format α := fun bytes x => bytes = [] ∧ x = a

/-- A layout of the first format, then one of the second, which may depend on the first value. -/
def andThen (L : Format α) (M : α → Format β) : Format β := fun bytes y =>
  ∃ front x back, L front x ∧ M x back y ∧ bytes = front ++ back

/-- Layouts of the items of a list, one after the other. -/
inductive Each (L : Format α) : Format (List α) where
  | nil : Each L [] []
  | cons {front back : Bytes} {a : α} {as : List α} :
      L front a → Each L back as → Each L (front ++ back) (a :: as)

/-- A list after the number of its items, in two bytes. -/
inductive Counted2 (L : Format α) : Format (List α) where
  | intro {bytes : Bytes} {as : List α} :
      as.length < 65536 → Each L bytes as → Counted2 L (count2 as ++ bytes) as

/-- A list after the number of its items, in one byte. -/
inductive Counted1 (L : Format α) : Format (List α) where
  | intro {bytes : Bytes} {as : List α} :
      as.length < 256 → Each L bytes as → Counted1 L (count1 as ++ bytes) as

/-- The layouts of a function. -/
def ofFn (layout : α → Bytes) : Format α := fun bytes a => bytes = layout a

theorem each_flatMap (layout : α → Bytes) (as : List α) :
    Each (ofFn layout) (as.flatMap layout) as := by
  induction as with
  | nil => exact .nil
  | cons a as ih => exact .cons rfl ih

/-- The layouts of a function, of the values that fit. -/
def fits (Fits : α → Prop) (layout : α → Bytes) : Format α := fun bytes a =>
  Fits a ∧ bytes = layout a

theorem each_fits {Fits : α → Prop} {layout : α → Bytes} {bytes : Bytes} {as : List α} :
    Each (fits Fits layout) bytes as ↔ (∀ a ∈ as, Fits a) ∧ bytes = as.flatMap layout := by
  constructor
  · intro h
    induction h with
    | nil => exact ⟨nofun, rfl⟩
    | cons h _ ih => exact ⟨List.forall_mem_cons.mpr ⟨h.1, ih.1⟩, by rw [h.2, ih.2]; rfl⟩
  · rintro ⟨h, rfl⟩
    induction as with
    | nil => exact .nil
    | cons a as ih =>
      rw [List.forall_mem_cons] at h
      exact .cons ⟨h.1, rfl⟩ (ih h.2)

theorem counted2_fits {Fits : α → Prop} {layout : α → Bytes} {bytes : Bytes} {as : List α} :
    Counted2 (fits Fits layout) bytes as ↔
      (as.length < 65536 ∧ ∀ a ∈ as, Fits a) ∧ bytes = count2 as ++ as.flatMap layout := by
  constructor
  · rintro ⟨hlt, he⟩
    obtain ⟨hf, rfl⟩ := each_fits.mp he
    exact ⟨⟨hlt, hf⟩, rfl⟩
  · rintro ⟨⟨hlt, hf⟩, rfl⟩
    exact .intro hlt (each_fits.mpr ⟨hf, rfl⟩)

/-! ### Each item has a layout -/

theorem Each.exists_of_mem {L : Format α} {bytes : Bytes} {as : List α} (h : Each L bytes as)
    {a : α} (ha : a ∈ as) : ∃ front, L front a := by
  induction h with
  | nil => nomatch ha
  | cons h _ ih =>
    rcases List.mem_cons.mp ha with rfl | ha
    · exact ⟨_, h⟩
    · exact ih ha

theorem Counted2.exists_of_mem {L : Format α} {bytes : Bytes} {as : List α}
    (h : Counted2 L bytes as) {a : α} (ha : a ∈ as) : ∃ front, L front a := by
  cases h with
  | intro _ he => exact he.exists_of_mem ha

theorem Counted1.exists_of_mem {L : Format α} {bytes : Bytes} {as : List α}
    (h : Counted1 L bytes as) {a : α} (ha : a ∈ as) : ∃ front, L front a := by
  cases h with
  | intro _ he => exact he.exists_of_mem ha

end Format

/-! ### Numbers are their bytes -/

namespace Bytes

theorem toNat_lt (bytes : Bytes) : toNat bytes < 256 ^ bytes.length := by
  induction bytes using List.reverseRecOn with
  | nil => exact Nat.one_pos
  | append_singleton bytes b ih =>
    have hb := b.toNat_lt
    rw [toNat_append_singleton, List.length_append, List.length_singleton, Nat.pow_succ]
    omega

theorem ofNat_toNat (bytes : Bytes) : ofNat bytes.length (toNat bytes) = bytes := by
  induction bytes using List.reverseRecOn with
  | nil => rfl
  | append_singleton bytes b ih =>
    have hb := b.toNat_lt
    have hdiv : (toNat bytes * 256 + b.toNat) / 256 = toNat bytes := by omega
    have hmod : UInt8.ofNat (toNat bytes * 256 + b.toNat) = b := by
      rw [← UInt8.toNat_inj, UInt8.toNat_ofNat']
      omega
    rw [toNat_append_singleton, List.length_append, List.length_singleton, ofNat, hdiv, ih, hmod]

theorem u2_ofNat_toNat {bytes : Bytes} (h : bytes.length = 2) :
    u2 (.ofNat (toNat bytes)) = bytes := by
  have hlt := toNat_lt bytes
  rw [h] at hlt
  rw [u2, UInt16.toNat_ofNat_of_lt' hlt, ← h, ofNat_toNat]

theorem u4_ofNat_toNat {bytes : Bytes} (h : bytes.length = 4) :
    u4 (.ofNat (toNat bytes)) = bytes := by
  have hlt := toNat_lt bytes
  rw [h] at hlt
  rw [u4, UInt32.toNat_ofNat_of_lt' hlt, ← h, ofNat_toNat]

theorem u8_ofNat_toNat {bytes : Bytes} (h : bytes.length = 8) :
    u8 (.ofNat (toNat bytes)) = bytes := by
  have hlt := toNat_lt bytes
  rw [h] at hlt
  rw [u8, UInt64.toNat_ofNat_of_lt' hlt, ← h, ofNat_toNat]

@[simp] theorem length_u2 (v : UInt16) : (u2 v).length = 2 := length_ofNat 2 _

@[simp] theorem length_u4 (v : UInt32) : (u4 v).length = 4 := length_ofNat 4 _

@[simp] theorem length_u8 (v : UInt64) : (u8 v).length = 8 := length_ofNat 8 _

theorem ofNat_toNat_u2 (v : UInt16) : UInt16.ofNat (toNat (u2 v)) = v := by
  rw [u2, toNat_ofNat, Nat.mod_eq_of_lt v.toNat_lt, UInt16.ofNat_toNat]

theorem ofNat_toNat_u4 (v : UInt32) : UInt32.ofNat (toNat (u4 v)) = v := by
  rw [u4, toNat_ofNat, Nat.mod_eq_of_lt v.toNat_lt, UInt32.ofNat_toNat]

theorem ofNat_toNat_u8 (v : UInt64) : UInt64.ofNat (toNat (u8 v)) = v := by
  rw [u8, toNat_ofNat, Nat.mod_eq_of_lt v.toNat_lt, UInt64.ofNat_toNat]

end Bytes

/-! ### Readers and formats -/

namespace Reader

variable {α β : Type} {n : Nat}

/-- On inputs of fewer than `bound` bytes, the reader takes a value exactly off the inputs that
begin with a layout of the value, and leaves what follows the layout. -/
def Reads (bound : Nat) (r : Reader α) (L : Format α) : Prop :=
  ∀ input : Bytes, input.length < bound → ∀ a rest,
    r.run input = .ok (a, rest) ↔ ∃ front, L front a ∧ input = front ++ rest

namespace Reads

variable {r : Reader α} {L M : Format α}

/-- A layout in front is read. -/
theorem run (h : Reads n r L) {front : Bytes} {a : α} (hL : L front a) {rest : Bytes}
    (hn : (front ++ rest).length < n) : r.run (front ++ rest) = .ok (a, rest) :=
  (h _ hn a rest).mpr ⟨front, hL, rfl⟩

theorem congr (h : Reads n r L) (hLM : ∀ bytes a, bytes.length < n → (L bytes a ↔ M bytes a)) :
    Reads n r M := by
  intro input hn a rest
  rw [h input hn a rest]
  refine exists_congr fun front => and_congr_left fun he => hLM front a ?_
  rw [he, List.length_append] at hn
  omega

theorem mono {m : Nat} (h : Reads n r L) (hm : m ≤ n) : Reads m r L :=
  fun input hn => h input (Nat.lt_of_lt_of_le hn hm)

protected theorem pure (a : α) : Reads n (pure a) (.empty a) := by
  intro input _ x rest
  constructor
  · intro h
    cases h
    exact ⟨[], ⟨rfl, rfl⟩, rfl⟩
  · rintro ⟨front, ⟨rfl, rfl⟩, rfl⟩
    rfl

protected theorem fail (e : FormatError) : Reads n (fail e : Reader α) fun _ _ => False := by
  intro input _ a rest
  exact ⟨(nomatch ·), fun ⟨_, h, _⟩ => h.elim⟩

protected theorem guard {c : Prop} [Decidable c] (e : FormatError) (hr : c → Reads n r L) :
    Reads n (if c then r else fail e) fun bytes a => c ∧ L bytes a := by
  by_cases hc : c
  · rw [if_pos hc]
    exact (hr hc).congr fun _ _ _ => (and_iff_right hc).symm
  · rw [if_neg hc]
    exact (Reads.fail e).congr fun _ _ _ => ⟨False.elim, fun h => hc h.1⟩

/-- A look-up takes no bytes. -/
protected theorem check (x : Except FormatError α) :
    Reads n (check x) fun bytes a => bytes = [] ∧ x = .ok a := by
  intro input _ a rest
  cases x with
  | error e => exact ⟨(nomatch ·), fun ⟨_, ⟨_, h⟩, _⟩ => nomatch h⟩
  | ok b =>
    constructor
    · intro h
      cases h
      exact ⟨[], ⟨rfl, rfl⟩, rfl⟩
    · rintro ⟨front, ⟨rfl, h⟩, rfl⟩
      cases h
      rfl

/-- **Two steps.**  The second step reads what the first one leaves. -/
protected theorem bind {f : α → Reader β} {K : α → Format β} (hr : Reads n r L)
    (hf : ∀ a front, L front a → front.length < n → Reads (n - front.length) (f a) (K a)) :
    Reads n (r >>= f) (L.andThen K) := by
  intro input hn b rest
  rw [StateT.run_bind]
  constructor
  · intro h
    cases hx : r.run input with
    | error e => rw [hx] at h; nomatch h
    | ok found =>
      obtain ⟨a, mid⟩ := found
      rw [hx] at h
      obtain ⟨front, hL, rfl⟩ := (hr input hn a mid).mp hx
      -- The second step is asked about the rest only, which fits what is left of the bound.
      rw [List.length_append] at hn
      obtain ⟨back, hK, rfl⟩ := (hf a front hL (by omega) mid (by omega) b rest).mp h
      exact ⟨front ++ back, ⟨front, a, back, hL, hK, rfl⟩, (List.append_assoc ..).symm⟩
  · rintro ⟨_, ⟨front, a, back, hL, hK, rfl⟩, rfl⟩
    rw [List.append_assoc] at hn ⊢
    rw [hr.run hL hn]
    rw [List.length_append] at hn
    exact (hf a front hL (by omega)).run hK (by omega)

/-- A step, and then a function of its value. -/
protected theorem bind_pure (hr : Reads n r L) (f : α → β) :
    Reads n (r >>= fun a => pure (f a)) fun bytes b => ∃ a, L bytes a ∧ b = f a := by
  refine (hr.bind fun a _ _ _ => .pure (f a)).congr fun bytes b _ => ?_
  constructor
  · rintro ⟨front, a, back, hL, ⟨rfl, rfl⟩, rfl⟩
    exact ⟨a, by rwa [List.append_nil], rfl⟩
  · rintro ⟨a, hL, rfl⟩
    exact ⟨bytes, a, [], hL, ⟨rfl, rfl⟩, (List.append_nil bytes).symm⟩

protected theorem map (hr : Reads n r L) (f : α → β) :
    Reads n (f <$> r) fun bytes b => ∃ a, L bytes a ∧ b = f a := by
  rw [map_eq_pure_bind]
  exact hr.bind_pure f

/-! ### Numbers and blocks -/

protected theorem takeOr (short : FormatError) (k : Nat) :
    Reads n (takeOr short k) fun bytes block => bytes = block ∧ block.length = k := by
  intro input _ block rest
  show (if (input.take k).length = k then _ else _) = _ ↔ _
  constructor
  · intro h
    split at h
    · next hk =>
      cases h
      exact ⟨input.take k, ⟨rfl, hk⟩, (List.take_append_drop k input).symm⟩
    · nomatch h
  · rintro ⟨front, ⟨rfl, rfl⟩, rfl⟩
    rw [List.take_left, if_pos rfl, List.drop_left]

protected theorem take (k : Nat) :
    Reads n (take k) fun bytes block => bytes = block ∧ block.length = k :=
  .takeOr .endOfInput k

protected theorem skip (k : Nat) : Reads n (skip k) fun bytes _ => bytes.length = k := by
  refine ((Reads.take k).bind fun _ _ _ _ => .pure ()).congr fun bytes _ _ => ?_
  constructor
  · rintro ⟨front, block, back, ⟨rfl, hk⟩, ⟨rfl, -⟩, rfl⟩
    rwa [List.append_nil]
  · rintro hk
    exact ⟨bytes, bytes, [], ⟨rfl, hk⟩, ⟨rfl, rfl⟩, (List.append_nil bytes).symm⟩

protected theorem u1 : Reads n u1 (.ofFn Bytes.u1) := by
  intro input _ b rest
  cases input with
  | nil =>
    constructor
    · intro h
      nomatch h
    · rintro ⟨front, rfl, he⟩
      nomatch he
  | cons a input =>
    constructor
    · intro h
      cases h
      exact ⟨[b], rfl, rfl⟩
    · rintro ⟨front, rfl, he⟩
      cases he
      rfl

protected theorem u2 : Reads n u2 (.ofFn Bytes.u2) := by
  refine ((Reads.take 2).bind_pure _).congr fun bytes v _ => ?_
  constructor
  · rintro ⟨_, ⟨rfl, h⟩, rfl⟩
    exact (Bytes.u2_ofNat_toNat h).symm
  · rintro rfl
    exact ⟨_, ⟨rfl, Bytes.length_u2 v⟩, (Bytes.ofNat_toNat_u2 v).symm⟩

protected theorem u4 : Reads n u4 (.ofFn Bytes.u4) := by
  refine ((Reads.take 4).bind_pure _).congr fun bytes v _ => ?_
  constructor
  · rintro ⟨_, ⟨rfl, h⟩, rfl⟩
    exact (Bytes.u4_ofNat_toNat h).symm
  · rintro rfl
    exact ⟨_, ⟨rfl, Bytes.length_u4 v⟩, (Bytes.ofNat_toNat_u4 v).symm⟩

protected theorem u8 : Reads n u8 (.ofFn Bytes.u8) := by
  refine ((Reads.take 8).bind_pure _).congr fun bytes v _ => ?_
  constructor
  · rintro ⟨_, ⟨rfl, h⟩, rfl⟩
    exact (Bytes.u8_ofNat_toNat h).symm
  · rintro rfl
    exact ⟨_, ⟨rfl, Bytes.length_u8 v⟩, (Bytes.ofNat_toNat_u8 v).symm⟩

/-! ### Lists -/

protected theorem times (h : Reads n r L) (k : Nat) :
    Reads n (times k r) fun bytes as => as.length = k ∧ Format.Each L bytes as := by
  induction k with
  | zero =>
    refine (Reads.pure []).congr fun bytes as _ => ?_
    constructor
    · rintro ⟨rfl, rfl⟩
      exact ⟨rfl, .nil⟩
    · rintro ⟨hk, he⟩
      obtain rfl := List.length_eq_zero_iff.mp hk
      cases he
      exact ⟨rfl, rfl⟩
  | succ k ih =>
    rw [times_succ]
    refine (h.bind fun a _ _ _ => (ih.map (a :: ·)).mono (Nat.sub_le ..)).congr fun bytes as _ => ?_
    constructor
    · rintro ⟨front, a, back, hL, ⟨as, ⟨rfl, he⟩, rfl⟩, rfl⟩
      exact ⟨rfl, .cons hL he⟩
    · rintro ⟨hk, he⟩
      cases he with
      | nil => nomatch hk
      | cons hL he => exact ⟨_, _, _, hL, ⟨_, ⟨Nat.succ.inj hk, he⟩, rfl⟩, rfl⟩

protected theorem counted2 (h : Reads n r L) : Reads n (counted2 r) (.Counted2 L) := by
  refine (Reads.u2.bind fun k _ _ _ => (h.times k.toNat).mono (Nat.sub_le ..)).congr
    fun bytes as _ => ?_
  constructor
  · rintro ⟨_, k, back, rfl, ⟨hk, he⟩, rfl⟩
    have hc : Bytes.u2 k = count2 as := by rw [count2, hk, UInt16.ofNat_toNat]
    rw [hc]
    exact .intro (by rw [hk]; exact k.toNat_lt) he
  · rintro ⟨hlt, he⟩
    exact ⟨_, _, _, rfl, ⟨(UInt16.toNat_ofNat_of_lt' hlt).symm, he⟩, rfl⟩

protected theorem counted1 (h : Reads n r L) : Reads n (counted1 r) (.Counted1 L) := by
  refine (Reads.u1.bind fun k _ _ _ => (h.times k.toNat).mono (Nat.sub_le ..)).congr
    fun bytes as _ => ?_
  constructor
  · rintro ⟨_, k, back, rfl, ⟨hk, he⟩, rfl⟩
    have hc : Bytes.u1 k = count1 as := by rw [count1, hk, UInt8.ofNat_toNat]
    rw [hc]
    exact .intro (by rw [hk]; exact k.toNat_lt) he
  · rintro ⟨hlt, he⟩
    exact ⟨_, _, _, rfl, ⟨(UInt8.toNat_ofNat_of_lt' hlt).symm, he⟩, rfl⟩

end Reads

end Reader

end JvmOutline
