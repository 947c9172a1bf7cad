import JvmOutline.Proofs.ClassFile.RoundTrip

/-!
# The indexes of a constant pool

The table of a pool is indexed from 1 to one less than the count that the file announces for it.

A pool that was read is indexed in this way (`Pool.IndexedTo`), unless a wide entry begins in the
last slot that was announced (`Pool.EndsWide`): its second half is kept, and the count itself
becomes an index, which leads to an unusable slot.  **Both cases are told by what stands in that
slot** (`ClassFile.indexedTo_of_parse`).
-/

namespace JvmOutline

namespace Pool

variable {pool : Pool}

/-- The indexes of a pool are the numbers from 1 to `n`: each of them leads to an entry, and every
other look-up fails with the index that it was given. -/
structure IndexedTo (pool : Pool) (n : Nat) : Prop where
  size : pool.size = n
  found : ∀ i : UInt16, 1 ≤ i.toNat → i.toNat ≤ n → ∃ e, pool.entry i = .ok e
  missing : ∀ i : UInt16, ¬ (1 ≤ i.toNat ∧ i.toNat ≤ n) → pool.entry i = .error (.noEntry i)

/-- A wide entry begins in the last slot that a count announces. -/
def EndsWide (pool : Pool) (count : UInt16) : Prop :=
  ∃ e, pool.entry? (count - 1) = some e ∧ e.isWide = true

theorem entry?_of_ne_zero {i : UInt16} (h : i.toNat ≠ 0) :
    pool.entry? i = pool.entries[i.toNat - 1]? := by
  unfold entry?
  rw [if_neg fun h0 => h (congrArg UInt16.toNat h0)]

theorem entry?_eq_some_iff {i : UInt16} {e : Entry} :
    pool.entry? i = some e ↔ i.toNat ≠ 0 ∧ pool.entries[i.toNat - 1]? = some e := by
  by_cases h0 : i = 0
  · subst h0
    exact iff_of_false nofun fun h => h.1 rfl
  · have hn : i.toNat ≠ 0 := fun h => h0 (UInt16.toNat_inj.mp h)
    rw [entry?_of_ne_zero hn, and_iff_right hn]

theorem indexedTo_size (pool : Pool) : pool.IndexedTo pool.size where
  size := rfl
  found i h h' := by
    have hlt : i.toNat - 1 < pool.entries.size := by
      change _ ≤ pool.entries.size at h'
      omega
    exact ⟨_, entry_eq_ok_iff.mpr
      ((entry?_of_ne_zero (by omega)).trans (Array.getElem?_eq_getElem hlt))⟩
  missing i h := by
    have hnone : pool.entry? i = none := by
      by_cases h0 : i.toNat = 0
      · rw [UInt16.toNat_inj.mp (show i.toNat = (0 : UInt16).toNat from h0)]
        rfl
      · rw [entry?_of_ne_zero h0, Array.getElem?_eq_none_iff]
        change ¬ (_ ∧ _ ≤ pool.entries.size) at h
        omega
    rw [entry, hnone]

theorem indexedTo_iff {n : Nat} : pool.IndexedTo n ↔ pool.size = n := by
  constructor
  · exact IndexedTo.size
  · rintro rfl
    exact indexedTo_size pool

/-- The slot after a wide entry is unusable. -/
theorem Shaped.entries_of_isWide (h : pool.Shaped) {i : UInt16} {e : Entry}
    (he : pool.entry? i = some e) (hw : e.isWide = true) :
    pool.entries[i.toNat]? = some .unusable := by
  obtain ⟨h0, he⟩ := entry?_eq_some_iff.mp he
  have hnext := (h.followed _ e he).mp hw
  rwa [Nat.sub_add_cancel (Nat.one_le_iff_ne_zero.mpr h0)] at hnext

/-- The second half of a wide entry in the last announced slot is at the count itself. -/
theorem Layout.of_endsWide {bytes : Bytes} (h : Layout bytes pool) {count : UInt16}
    (hcount : count = .ofNat (Bytes.toNat (bytes.take 2))) (hw : pool.EndsWide count) :
    pool.size = count.toNat - 1 + 1 ∧ pool.size = count.toNat ∧
      pool.entry count = .ok .unusable := by
  obtain ⟨e, he, hwide⟩ := hw
  have hnext := h.shaped.entries_of_isWide he hwide
  have hlt : (count - 1).toNat < pool.size := (Array.getElem?_eq_some_iff.mp hnext).1
  have hsize : pool.size ≤ count.toNat - 1 + 1 := by
    rcases h.size hcount with h | ⟨h, -⟩ <;> omega
  -- A count of 0 announces no slot, and the index before it is the last one that there is.
  have h1 : 1 ≤ count.toNat := by
    by_contra h0
    have hz : count = 0 := UInt16.toNat_inj.mp (show count.toNat = 0 by omega)
    rw [hz] at hlt hsize
    change 65535 < _ at hlt
    change _ ≤ 1 at hsize
    omega
  have hpred : (count - 1).toNat = count.toNat - 1 :=
    UInt16.toNat_sub_of_le _ _ (UInt16.le_iff_toNat_le.mpr h1)
  rw [hpred] at hlt hnext
  refine ⟨by omega, by omega, entry_eq_ok_iff.mpr ?_⟩
  rw [entry?_of_ne_zero (by omega), hnext]

end Pool

namespace ClassFile

/-- What is parsed has a layout of its pool at the place where its count is announced. -/
theorem exists_layout_of_parse {bytes : Bytes} {file : ClassFile} (h : parse bytes = .ok file) :
    ∃ poolBytes, Pool.Layout poolBytes file.pool ∧
      announcedCount bytes = .ofNat (Bytes.toNat (poolBytes.take 2)) := by
  unfold parse at h
  split at h
  · next file' rest hrun =>
    obtain rfl : file' = file := Except.ok.inj h
    obtain ⟨_, ⟨-, poolBytes, hp, rfl⟩, rfl⟩ :=
      (reads_reader _ bytes (Nat.lt_succ_self _) file' rest).mp hrun
    exact ⟨poolBytes, hp, announcedCount_layoutAround hp rest⟩
  · cases h

/-- **The indexes of a pool that was read.**  They are those that the file declares, unless a wide
entry begins in the last slot that it announces; then there is one more, which is the count itself
and leads to an unusable slot. -/
theorem indexedTo_of_parse {bytes : Bytes} {file : ClassFile} (h : parse bytes = .ok file) :
    (file.pool.IndexedTo ((announcedCount bytes).toNat - 1) ↔
      ¬ file.pool.EndsWide (announcedCount bytes)) ∧
    (file.pool.EndsWide (announcedCount bytes) →
      file.pool.IndexedTo (announcedCount bytes).toNat ∧
        file.pool.entry (announcedCount bytes) = .ok .unusable) := by
  obtain ⟨poolBytes, hp, hcount⟩ := exists_layout_of_parse h
  simp only [Pool.indexedTo_iff]
  refine ⟨⟨fun hsize hw => ?declared, fun hw => ?narrow⟩, fun hw => (hp.of_endsWide hcount hw).2⟩
  case declared =>
    have := (hp.of_endsWide hcount hw).1
    omega
  case narrow => exact (hp.size hcount).resolve_right fun h => hw h.2

/-- A class whose pool is announced with one slot and holds a wide entry, which is also the name
that the class gives for itself. -/
def endingWide : Bytes :=
  [0xCA, 0xFE, 0xBA, 0xBE, 0, 0, 0, 0x34, 0, 2, 5, 0, 0, 0, 0, 0, 0, 0, 7, 0, 0x21, 0, 2, 0, 0, 0,
    0, 0, 0, 0, 0, 0, 0]

theorem parse_endingWide : parse endingWide =
    .ok ⟨0x34, 0, ⟨#[.long 7, .unusable]⟩, ⟨0x21⟩, 2, 0, [], [], [], []⟩ := rfl

/-- The count of the pool is an index of it. -/
theorem indexedTo_of_parse_endingWide :
    (announcedCount endingWide).toNat = 2 ∧ ∃ file, parse endingWide = .ok file ∧
      file.pool.IndexedTo 2 ∧ file.pool.entry 2 = .ok .unusable :=
  ⟨rfl, _, parse_endingWide, (indexedTo_of_parse parse_endingWide).2 ⟨_, rfl, rfl⟩⟩

/-- The pool is not always indexed by what the file declares. -/
theorem not_indexedTo_endingWide : ¬ ∀ bytes file, parse bytes = .ok file →
    file.pool.IndexedTo ((announcedCount bytes).toNat - 1) := by
  intro h
  have hsize := (h _ _ parse_endingWide).size
  revert hsize
  decide

end ClassFile

end JvmOutline
