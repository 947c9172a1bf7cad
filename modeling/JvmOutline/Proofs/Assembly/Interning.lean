import JvmOutline.Assembly.Interning
import JvmOutline.Text.Utf8
import JvmOutline.Proofs.Attribute.Grammar
import JvmOutline.Proofs.Pool.Layout

/-!
# Interning — what an index means later

While constants are interned, the pool only grows at its end (`Pool.Extends`), and it stays the
table of slots of a list of entries (`Pool.Sound`).  So an index that was handed out leads to its
constant in every later pool.

`Interning.Yields m Q` says this of a whole computation: from a sound pool it leads to a sound
pool that extends it, and in every later pool that fits its count, `Q` holds of its value.  It
composes along the steps of a computation (`Yields.bind`, `Yields.mapM`), so what the indexes in
a byte string mean is shown once for each function that writes it.
-/

namespace JvmOutline

/-- The text is spelled in no more bytes than the length of a text can count. -/
def Utf8.isShort (text : String) : Bool := (encode text.toList).length ≤ 65535

/-- An entry that is no second slot, with a text that is short if it has one. -/
def Entry.IsSound : Entry → Prop
  | .utf8 text => Utf8.isShort text = true
  | .unusable => False
  | _ => True

namespace Pool

variable {before pool later : Pool}

/-! ### Growing pools -/

/-- The later pool begins with the slots of the earlier one. -/
def Extends (before later : Pool) : Prop := before.entries.toList <+: later.entries.toList

theorem Extends.refl (pool : Pool) : pool.Extends pool := List.prefix_refl _

theorem Extends.trans (h : before.Extends pool) (h' : pool.Extends later) : before.Extends later :=
  List.IsPrefix.trans h h'

/-- A slot that is filled keeps its entry. -/
theorem Extends.getElem? (h : pool.Extends later) {i : Nat} {e : Entry}
    (he : pool.entries[i]? = some e) : later.entries[i]? = some e := by
  obtain ⟨back, hback⟩ := h
  rw [← Array.getElem?_toList] at he ⊢
  rw [← hback, List.getElem?_append_left (List.getElem?_eq_some_iff.mp he).1, he]

theorem entry?_ofNat {i : Nat} {e : Entry} (hi : pool.entries[i]? = some e)
    (hn : pool.size ≤ 65534) : pool.entry? (.ofNat (i + 1)) = some e := by
  have hlt : i < pool.size := (Array.getElem?_eq_some_iff.mp hi).1
  have hnat : (UInt16.ofNat (i + 1)).toNat = i + 1 :=
    UInt16.toNat_ofNat_of_lt' (Nat.lt_of_le_of_lt (Nat.le_trans hlt hn) (by decide))
  have h0 : UInt16.ofNat (i + 1) ≠ 0 := by
    intro h
    rw [h] at hnat
    nomatch hnat
  unfold entry?
  rw [if_neg h0, hnat, Nat.add_sub_cancel, hi]

theorem toList_push (pool : Pool) (e : Entry) :
    (pool.push e).entries.toList = pool.entries.toList ++ e.slots := by
  rw [push, Entry.slots]
  cases e.isWide with
  | true => simp [pending]
  | false => simp [pending]

theorem extends_push (pool : Pool) (e : Entry) : pool.Extends (pool.push e) :=
  ⟨e.slots, (toList_push pool e).symm⟩

/-- A new entry is put behind the last slot. -/
theorem getElem?_push_size (pool : Pool) (e : Entry) :
    (pool.push e).entries[pool.size]? = some e := by
  have hlen : pool.entries.toList.length = pool.size := Array.length_toList
  rw [← Array.getElem?_toList, toList_push, List.getElem?_append_right (Nat.le_of_eq hlen), hlen,
    Nat.sub_self]
  rfl

theorem getElem?_of_findIdx? {e : Entry} {k : Nat}
    (h : pool.entries.findIdx? (· = e) = some k) : pool.entries[k]? = some e := by
  obtain ⟨hk, he, -⟩ := Array.findIdx?_eq_some_iff_getElem.mp h
  exact Array.getElem?_eq_some_iff.mpr ⟨hk, of_decide_eq_true he⟩

/-- The slots of a list of entries. -/
def Sound (pool : Pool) : Prop :=
  ∃ es : List Entry, (∀ e ∈ es, e.IsSound) ∧ pool.entries.toList = es.flatMap Entry.slots

theorem sound_empty : empty.Sound := ⟨[], nofun, rfl⟩

theorem Sound.push (h : pool.Sound) {e : Entry} (he : e.IsSound) : (pool.push e).Sound := by
  obtain ⟨es, hes, hs⟩ := h
  refine ⟨es ++ [e], ?_, ?_⟩
  · rw [List.forall_mem_append, List.forall_mem_singleton]
    exact ⟨hes, he⟩
  · rw [toList_push, hs, List.flatMap_append, List.flatMap_singleton]

theorem Sound.shaped (h : pool.Sound) : pool.Shaped := by
  obtain ⟨es, hes, hs⟩ := h
  refine shaped_iff.mpr ⟨es, fun e he h => ?_, hs⟩
  subst h
  exact hes _ he

theorem Sound.isShort (h : pool.Sound) {text : String} (ht : .utf8 text ∈ pool.entries) :
    Utf8.isShort text = true := by
  obtain ⟨es, hes, hs⟩ := h
  rw [← Array.mem_toList_iff, hs, List.mem_flatMap] at ht
  obtain ⟨e, he, ht⟩ := ht
  rcases List.mem_cons.mp ht with rfl | ht
  · exact hes _ he
  · cases hw : e.isWide with
    | true =>
      rw [hw] at ht
      nomatch List.mem_singleton.mp ht
    | false =>
      rw [hw] at ht
      nomatch ht

end Pool

/-! ### Computations -/

namespace Interning

variable {α β : Type}

/-- From a sound pool the computation leads to a sound pool that extends it, and in every later
pool that fits its count, `Q` holds of its value. -/
def Yields (m : Interning α) (Q : Pool → α → Prop) : Prop :=
  ∀ pool : Pool, pool.Sound → (m.run pool).2.Sound ∧ pool.Extends (m.run pool).2 ∧
    ∀ later, (m.run pool).2.Extends later → later.size ≤ 65534 → Q later (m.run pool).1

namespace Yields

variable {m : Interning α} {Q R : Pool → α → Prop}

theorem imp (h : Yields m Q) (hQR : ∀ later a, later.size ≤ 65534 → Q later a → R later a) :
    Yields m R := by
  intro pool hp
  obtain ⟨hs, he, hq⟩ := h pool hp
  exact ⟨hs, he, fun later hl hn => hQR _ _ hn (hq later hl hn)⟩

protected theorem pure {a : α} (h : ∀ later, Q later a) : Yields (pure a) Q :=
  fun pool hp => ⟨hp, .refl pool, fun later _ _ => h later⟩

/-- **Two steps.**  What holds of the first value later holds of it after the second step. -/
protected theorem bind {f : α → Interning β} {R : Pool → β → Prop} (hm : Yields m Q)
    (hf : ∀ a, Yields (f a) fun later b => Q later a → R later b) : Yields (m >>= f) R := by
  intro pool hp
  obtain ⟨hs, he, hq⟩ := hm pool hp
  obtain ⟨hs', he', hr⟩ := hf (m.run pool).1 (m.run pool).2 hs
  exact ⟨hs', he.trans he', fun later hl hn => hr later hl hn (hq later (he'.trans hl) hn)⟩

/-- A step, and then a function of its value. -/
protected theorem bind_pure {f : α → β} {R : Pool → β → Prop} (hm : Yields m Q)
    (hf : ∀ later a, Q later a → R later (f a)) : Yields (m >>= fun a => pure (f a)) R :=
  hm.bind fun a => .pure fun later => hf later a

protected theorem map {f : α → β} {R : Pool → β → Prop} (hm : Yields m Q)
    (hf : ∀ later a, Q later a → R later (f a)) : Yields (f <$> m) R := by
  rw [map_eq_pure_bind]
  exact hm.bind_pure hf

/-- A step for each item of a list. -/
protected theorem mapM {f : α → Interning β} {R : Pool → α → β → Prop} {as : List α}
    (h : ∀ a ∈ as, Yields (f a) fun later b => R later a b) :
    Yields (as.mapM f) fun later bs => List.Forall₂ (R later) as bs := by
  induction as with
  | nil => exact .pure fun _ => .nil
  | cons a as ih =>
    rw [List.forall_mem_cons] at h
    rw [List.mapM_cons]
    exact h.1.bind fun b => (ih h.2).bind_pure fun _ _ hbs hb => .cons hb hbs

end Yields

/-! ### Constants -/

/-- The index of an entry leads to it. -/
theorem yields_intern {e : Entry} (he : e.IsSound) :
    Yields (Pool.intern e) fun later index => later.entry? index = some e := by
  intro pool hp
  rw [show (Pool.intern e).run pool = Pool.intern e pool from rfl, Pool.intern]
  cases hfind : pool.entries.findIdx? (· = e) with
  | some i =>
    -- The entry is there already, and its slot is the one that is handed out.
    have hat := Pool.getElem?_of_findIdx? hfind
    exact ⟨hp, .refl pool, fun later hl hn => Pool.entry?_ofNat (hl.getElem? hat) hn⟩
  | none =>
    have hat := Pool.getElem?_push_size pool e
    exact ⟨hp.push he, Pool.extends_push pool e, fun later hl hn =>
      Pool.entry?_ofNat (hl.getElem? hat) hn⟩

theorem yields_internText {text : String} (h : Utf8.isShort text = true) :
    Yields (Pool.internText text) fun later index => later.HasText index text :=
  yields_intern h

theorem yields_internClass {name : String} (h : Utf8.isShort name = true) :
    Yields (Pool.internClass name) fun later index => later.HasClass index name :=
  (yields_internText h).bind fun nameIndex =>
    (yields_intern (e := .classRef nameIndex) trivial).imp fun _ _ _ hc ht => ⟨nameIndex, hc, ht⟩

theorem yields_internString {text : String} (h : Utf8.isShort text = true) :
    Yields (Pool.internString text) fun later index => ∃ textIndex,
      later.entry? index = some (.string textIndex) ∧ later.HasText textIndex text :=
  (yields_internText h).bind fun textIndex =>
    (yields_intern (e := .string textIndex) trivial).imp fun _ _ _ hc ht => ⟨textIndex, hc, ht⟩

/-- The index of a name that may be missing. -/
theorem yields_internOptional {internName : String → Interning UInt16} {name : Option String}
    {Has : Pool → UInt16 → String → Prop}
    (h : ∀ text ∈ name, Yields (internName text) fun later index => Has later index text) :
    Yields (Pool.internOptional internName name) fun later index =>
      Format.Optional (fun bytes text => ∃ index, Has later index text ∧ bytes = Bytes.u2 index)
        (Bytes.u2 index) name := by
  cases name with
  | none => exact .pure fun _ => .none
  | some text => exact (h text rfl).imp fun _ index _ hi => .some ⟨index, hi, rfl⟩

end Interning

end JvmOutline
