import Mathlib.Algebra.BigOperators.Group.List.Basic
import Mathlib.Algebra.Ring.Nat
import JvmOutline.Proofs.ClassFile.Indexes

/-!
# The slots of a pool that was read

The constants of a pool stand one after the other behind its count (`Pool.Constants`), and each of
them takes one slot, or two if it is wide (`Entry.width`).

**What a pool keeps of its constants** (`Pool.slots_of_run_reader`).  The unusable slots are those
behind the wide entries, and without them the table is the list of the constants in their order.
A constant stands at the index that the widths of those before it add up to, and the index behind a
wide constant leads to no constant (`Pool.Barren`).
-/

namespace JvmOutline

open Reader

/-! ### The slots of a list of entries -/

/-- The number of slots that an entry takes. -/
def Entry.width : Entry → Nat
  | long _ => 2
  | double _ => 2
  | _ => 1

theorem Entry.length_slots (e : Entry) : e.slots.length = e.width := by
  cases e <;> rfl

theorem Entry.filter_slots {e : Entry} (he : e ≠ .unusable) :
    e.slots.filter (· ≠ .unusable) = [e] := by
  cases e with
  | unusable => exact absurd rfl he
  | _ => rfl

namespace Pool

/-- The constants are what is left of their slots without the unusable ones. -/
theorem filter_flatMap_slots {es : List Entry} (hes : ∀ e ∈ es, e ≠ .unusable) :
    (es.flatMap Entry.slots).filter (· ≠ .unusable) = es := by
  induction es with
  | nil => rfl
  | cons e es ih =>
    rw [List.forall_mem_cons] at hes
    rw [List.flatMap_cons, List.filter_append, Entry.filter_slots hes.1, ih hes.2]
    rfl

/-- The index of the constant at a position, counted from 0: the slots of the constants before it
are taken. -/
def indexAt (es : List Entry) (k : Nat) : Nat := 1 + ((es.take k).map Entry.width).sum

theorem getElem?_flatMap_slots {es : List Entry} {k : Nat} {e : Entry} (h : es[k]? = some e) :
    (es.flatMap Entry.slots)[indexAt es k - 1]? = some e := by
  rw [indexAt, Nat.add_sub_cancel_left]
  induction es generalizing k with
  | nil => nomatch h
  | cons x es ih =>
    rw [List.flatMap_cons]
    cases k with
    | zero =>
      cases h
      rfl
    | succ k =>
      rw [List.take_succ_cons, List.map_cons, List.sum_cons, ← Entry.length_slots,
        List.getElem?_append_right (Nat.le_add_right ..), Nat.add_sub_cancel_left]
      exact ih h

/-! ### The constants of a file -/

/-- The constants behind a count: they are read one after the other, up to what is left, and fill
the slots that the count announces. -/
structure Constants (bytes : Bytes) (es : List Entry) (rest : Bytes) : Prop where
  read : (times es.length Entry.reader).run (bytes.drop 2) = .ok (es, rest)
  fill : Fills false ((UInt16.ofNat (Bytes.toNat (bytes.take 2))).toNat - 1) es

variable {pool : Pool} {bytes rest : Bytes}

/-- A pool that was read is the table of the slots of its constants. -/
theorem exists_constants_of_run_reader (h : reader.run bytes = .ok (pool, rest)) :
    ∃ es, Constants bytes es rest ∧ (∀ e ∈ es, e ≠ .unusable) ∧
      pool.entries.toList = es.flatMap Entry.slots := by
  obtain ⟨_, ⟨count, es, back, he, hf, hslots, rfl⟩, rfl⟩ :=
    (reads_reader _ bytes (Nat.lt_succ_self _) pool rest).mp h
  rw [List.append_assoc]
  refine ⟨es, { read := ?read, fill := ?fill }, (each_layout_iff.mp he).1, hslots⟩
  case read =>
    rw [List.drop_left' (Bytes.length_u2 count)]
    exact ((Entry.reads_reader _).times es.length).run ⟨rfl, he⟩ (Nat.lt_succ_self _)
  case fill => rwa [List.take_left' (Bytes.length_u2 count), Bytes.ofNat_toNat_u2]

/-- All slots of a pool that was read have an index. -/
theorem size_le_of_run_reader (h : reader.run bytes = .ok (pool, rest)) : pool.size ≤ 65535 := by
  obtain ⟨front, hl, -⟩ := (reads_reader _ bytes (Nat.lt_succ_self _) pool rest).mp h
  have hlt := (UInt16.ofNat (Bytes.toNat (front.take 2))).toNat_lt
  rcases hl.size rfl with hs | ⟨hs, -⟩ <;> omega

/-! ### Unusable slots -/

theorem Shaped.unusable_iff (h : pool.Shaped) (i : Nat) :
    pool.entries[i]? = some .unusable ↔
      ∃ j e, i = j + 1 ∧ pool.entries[j]? = some e ∧ e.isWide = true := by
  constructor
  · intro hi
    cases i with
    | zero => exact absurd hi h.first
    | succ j =>
      have hlt : j < pool.entries.size :=
        Nat.lt_of_succ_lt (Array.getElem?_eq_some_iff.mp hi).1
      have hj := Array.getElem?_eq_getElem hlt
      exact ⟨j, _, rfl, hj, (h.followed j _ hj).mpr hi⟩
  · rintro ⟨j, e, rfl, hj, hw⟩
    exact (h.followed j e hj).mp hw

/-- The index leads to an unusable slot, and none of the look-ups that ask for a kind of constant
finds one there. -/
structure Barren (pool : Pool) (i : UInt16) : Prop where
  entry : pool.entry i = .ok .unusable
  expect : ∀ {α : Type} (kind : EntryKind) (pick : Entry → Option α), pick .unusable = none →
    pool.expect kind pick i = .error (.wrongEntry kind .unusable)
  utf8 : pool.utf8 i = .error (.wrongEntry .utf8 .unusable)
  className : pool.className i = .error (.wrongEntry .classRef .unusable)
  optionalUtf8 : pool.optionalUtf8 i = .error (.wrongEntry .utf8 .unusable)
  optionalClassName : pool.optionalClassName i = .error (.wrongEntry .classRef .unusable)

theorem barren_of_entry {i : UInt16} (h : pool.entry i = .ok .unusable) : pool.Barren i := by
  have h0 : i ≠ 0 := by
    rintro rfl
    nomatch h
  have hexpect : ∀ {α : Type} (kind : EntryKind) (pick : Entry → Option α),
      pick .unusable = none → pool.expect kind pick i = .error (.wrongEntry kind .unusable) := by
    intro α kind pick hpick
    rw [Pool.expect, h]
    dsimp only
    rw [hpick]
  have hutf8 : pool.utf8 i = .error (.wrongEntry .utf8 .unusable) := hexpect .utf8 _ rfl
  have hclass : pool.className i = .error (.wrongEntry .classRef .unusable) := by
    rw [Pool.className, Pool.classRef, hexpect .classRef _ rfl]
    rfl
  exact {
    entry := h
    expect := hexpect
    utf8 := hutf8
    className := hclass
    optionalUtf8 := by
      rw [Pool.optionalUtf8, if_neg h0, hutf8]
      rfl
    optionalClassName := by
      rw [Pool.optionalClassName, if_neg h0, hclass]
      rfl }

/-- Nothing stands behind a wide constant, at an index that there is. -/
theorem Shaped.barren (h : pool.Shaped) (hn : pool.size ≤ 65535) {i : UInt16} {e : Entry}
    (he : pool.entry i = .ok e) (hw : e.isWide = true) :
    (i + 1).toNat = i.toNat + 1 ∧ pool.Barren (i + 1) := by
  have hbehind := h.entries_of_isWide (entry_eq_ok_iff.mp he) hw
  have hlt : i.toNat < pool.size := (Array.getElem?_eq_some_iff.mp hbehind).1
  have hnext : (i + 1).toNat = i.toNat + 1 := by
    rw [UInt16.toNat_add]
    exact Nat.mod_eq_of_lt (show i.toNat + 1 < 65536 by omega)
  refine ⟨hnext, barren_of_entry (entry_eq_ok_iff.mpr (entry?_eq_some_iff.mpr ⟨by omega, ?_⟩))⟩
  rwa [hnext, Nat.add_sub_cancel]

/-- **The slots of a pool that was read.**  The unusable ones are those behind the wide constants.
Without them the table holds the constants of the file in their order; each stands at the index
that the slots before it add up to, and the index behind a wide one yields no constant. -/
theorem slots_of_run_reader (h : reader.run bytes = .ok (pool, rest)) :
    (∀ i, pool.entries[i]? = some .unusable ↔
      ∃ j e, i = j + 1 ∧ pool.entries[j]? = some e ∧ e.isWide = true) ∧
    (∃ es, Constants bytes es rest ∧ pool.entries.toList.filter (· ≠ .unusable) = es ∧
      ∀ k e, es[k]? = some e → ∃ i : UInt16, i.toNat = indexAt es k ∧ pool.entry i = .ok e) ∧
    ∀ i e, pool.entry i = .ok e → e.isWide = true →
      (i + 1).toNat = i.toNat + 1 ∧ pool.Barren (i + 1) := by
  obtain ⟨es, hconst, hes, hslots⟩ := exists_constants_of_run_reader h
  have hshape : pool.Shaped := shaped_iff.mpr ⟨es, hes, hslots⟩
  have hsize := size_le_of_run_reader h
  refine ⟨hshape.unusable_iff, ⟨es, hconst, ?kept, fun k e he => ?found⟩,
    fun i e => hshape.barren hsize⟩
  case kept => rw [hslots, filter_flatMap_slots hes]
  case found =>
    have hat := getElem?_flatMap_slots he
    rw [← hslots, Array.getElem?_toList] at hat
    have hpos : indexAt es k - 1 + 1 = indexAt es k := Nat.sub_add_cancel (Nat.le_add_right ..)
    have hlt : indexAt es k - 1 < pool.size := (Array.getElem?_eq_some_iff.mp hat).1
    have hnat : (UInt16.ofNat (indexAt es k)).toNat = indexAt es k :=
      UInt16.toNat_ofNat_of_lt' (show _ < 65536 by omega)
    refine ⟨.ofNat (indexAt es k), hnat,
      entry_eq_ok_iff.mpr (entry?_eq_some_iff.mpr ⟨by omega, ?_⟩)⟩
    rw [hnat, hat]

/-- A pool with wide constants between narrow ones and in the last slot that is announced, and a
byte behind it. -/
def mixedBytes : Bytes :=
  [0, 6, 1, 0, 1, 0x61, 5, 0, 0, 0, 0, 0, 0, 0, 7, 7, 0, 1, 6, 0, 0, 0, 0, 0, 0, 0, 0, 0xFF]

theorem slots_of_run_reader_mixed : ∃ pool, reader.run mixedBytes = .ok (pool, [0xFF]) ∧
    (∃ es, Constants mixedBytes es [0xFF] ∧ pool.entries.toList.filter (· ≠ .unusable) = es ∧
      indexAt es 3 = 5) ∧ pool.Barren 3 ∧ pool.Barren 6 := by
  have hrun : reader.run mixedBytes = .ok
      (⟨#[.utf8 "a", .long 7, .unusable, .classRef 1, .double 0, .unusable]⟩, [0xFF]) := rfl
  obtain ⟨-, ⟨es, hconst, hkept, -⟩, hbehind⟩ := slots_of_run_reader hrun
  exact ⟨_, hrun, ⟨es, hconst, hkept, by rw [← hkept]; rfl⟩, (hbehind 2 (.long 7) rfl rfl).2,
    (hbehind 5 (.double 0) rfl rfl).2⟩

end Pool

end JvmOutline
