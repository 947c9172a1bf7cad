import JvmOutline.Pool.Reader
import JvmOutline.Proofs.Reading.Format

/-!
# The layout of a constant pool

Entries lie one after the other, and a wide one fills two slots (`Entry.slots`).
-/

namespace JvmOutline

open Reader

/-! ### One entry -/

/-- The byte strings that spell the text of an entry; only a text needs to be spelled. -/
def Entry.IsSpelling : Entry → Bytes → Prop
  | .utf8 text, s => s.length < 65536 ∧ ModifiedUtf8.decode s = text
  | _, s => s = []

/-- The layouts of an entry: as many as its text has spellings. -/
def Entry.Layout : Format Entry := fun bytes e =>
  e ≠ .unusable ∧ ∃ s, e.IsSpelling s ∧ bytes = e.layout fun _ => s

namespace Entry

theorem run_reader_layout {e : Entry} {s : Bytes} (he : e ≠ .unusable) (hs : e.IsSpelling s)
    (rest : Bytes) : reader.run ((e.layout fun _ => s) ++ rest) = .ok (e, rest) := by
  have h1 : ∀ (v : UInt8) (rest : Bytes), u1.run (v :: rest) = .ok (v, rest) := fun _ _ => rfl
  have h2 : ∀ (v : UInt16) (rest : Bytes), u2.run (Bytes.u2 v ++ rest) = .ok (v, rest) :=
    fun v rest => Reads.u2.run (n := _ + 1) rfl (Nat.lt_succ_self _)
  have h4 : ∀ (v : UInt32) (rest : Bytes), u4.run (Bytes.u4 v ++ rest) = .ok (v, rest) :=
    fun v rest => Reads.u4.run (n := _ + 1) rfl (Nat.lt_succ_self _)
  have h8 : ∀ (v : UInt64) (rest : Bytes), u8.run (Bytes.u8 v ++ rest) = .ok (v, rest) :=
    fun v rest => Reads.u8.run (n := _ + 1) rfl (Nat.lt_succ_self _)
  have hok : ∀ {α β : Type} (a : α) (f : α → Except FormatError β), (Except.ok a >>= f) = f a :=
    fun _ _ => rfl
  cases e with
  | unusable => exact absurd rfl he
  | utf8 text =>
    obtain ⟨hlt, rfl⟩ := hs
    have hs : (take s.length).run (s ++ rest) = .ok (s, rest) :=
      (Reads.take s.length).run (n := _ + 1) ⟨rfl, rfl⟩ (Nat.lt_succ_self _)
    simp only [reader, layout, count2, StateT.run_bind, List.cons_append, List.append_assoc, h1, h2,
      hok, UInt8.reduceToNat, UInt16.toNat_ofNat_of_lt' hlt, hs]
    rfl
  | _ =>
    simp only [reader, layout, StateT.run_bind, List.cons_append, List.append_assoc, h1, h2, h4, h8,
      hok, UInt8.reduceToNat]
    rfl

theorem layout_of_run_reader {input rest : Bytes} {e : Entry}
    (h : reader.run input = .ok (e, rest)) : ∃ front, Layout front e ∧ input = front ++ rest := by
  cases input with
  | nil => cases h
  | cons tag input =>
    have hn := Nat.lt_succ_self input.length
    have hone : ∀ {α : Type} {r : Reader α} {L : Format α} {f : α → Entry},
      Reads (input.length + 1) r L → (r >>= fun a => pure (f a)).run input = .ok (e, rest) →
        (∀ front a, L front a → Layout (tag :: front) (f a)) →
          ∃ front, Layout front e ∧ tag :: input = front ++ rest := by
      intro α r L f hr h hf
      obtain ⟨front, ⟨a, hL, rfl⟩, rfl⟩ := (hr.bind_pure f _ hn _ _).mp h
      exact ⟨tag :: front, hf front a hL, rfl⟩
    have htwo : ∀ {α : Type} {r : Reader α} {L : Format α} {f : α → UInt16 → Entry},
      Reads (input.length + 1) r L →
        (r >>= fun a => u2 >>= fun v => pure (f a v)).run input = .ok (e, rest) →
        (∀ front a v, L front a → Layout (tag :: front ++ Bytes.u2 v) (f a v)) →
          ∃ front, Layout front e ∧ tag :: input = front ++ rest := by
      intro α r L f hr h hf
      obtain ⟨_, ⟨front, a, _, hL, ⟨v, rfl, rfl⟩, rfl⟩, rfl⟩ :=
        ((hr.bind fun a _ _ _ => Reads.u2.bind_pure (f a)) _ hn _ _).mp h
      exact ⟨_, hf front a v hL, rfl⟩
    have htag : ∀ k : UInt8, tag.toNat = k.toNat → tag = k := fun k => UInt8.toNat_inj.mp
    have hu1 : u1.run (tag :: input) = .ok (tag, input) := rfl
    rw [reader, StateT.run_bind, hu1] at h
    change StateT.run _ input = _ at h
    dsimp only at h
    split at h
    · next ht =>
      obtain rfl := htag 1 ht
      obtain ⟨_, ⟨_, length, text, rfl, ⟨_, ⟨rfl, hlen⟩, rfl⟩, rfl⟩, rfl⟩ :=
        ((Reads.u2.bind fun k _ _ _ => (Reads.take k.toNat).bind_pure _) _ hn _ _).mp h
      have hc : Bytes.u2 length = count2 text := by rw [count2, hlen, UInt16.ofNat_toNat]
      rw [hc]
      exact ⟨_, ⟨by simp, text, ⟨hlen ▸ length.toNat_lt, rfl⟩, rfl⟩, rfl⟩
    · next ht =>
      obtain rfl := htag 3 ht
      exact hone Reads.u4 h fun _ _ hv => ⟨by simp, [], rfl, hv ▸ rfl⟩
    · next ht =>
      obtain rfl := htag 4 ht
      exact hone Reads.u4 h fun _ _ hv => ⟨by simp, [], rfl, hv ▸ rfl⟩
    · next ht =>
      obtain rfl := htag 5 ht
      exact hone Reads.u8 h fun _ _ hv => ⟨by simp, [], rfl, hv ▸ rfl⟩
    · next ht =>
      obtain rfl := htag 6 ht
      exact hone Reads.u8 h fun _ _ hv => ⟨by simp, [], rfl, hv ▸ rfl⟩
    · next ht =>
      obtain rfl := htag 7 ht
      exact hone Reads.u2 h fun _ _ hv => ⟨by simp, [], rfl, hv ▸ rfl⟩
    · next ht =>
      obtain rfl := htag 8 ht
      exact hone Reads.u2 h fun _ _ hv => ⟨by simp, [], rfl, hv ▸ rfl⟩
    · next ht =>
      obtain rfl := htag 9 ht
      exact htwo Reads.u2 h fun _ _ _ hv => ⟨by simp, [], rfl, hv ▸ rfl⟩
    · next ht =>
      obtain rfl := htag 10 ht
      exact htwo Reads.u2 h fun _ _ _ hv => ⟨by simp, [], rfl, hv ▸ rfl⟩
    · next ht =>
      obtain rfl := htag 11 ht
      exact htwo Reads.u2 h fun _ _ _ hv => ⟨by simp, [], rfl, hv ▸ rfl⟩
    · next ht =>
      obtain rfl := htag 12 ht
      exact htwo Reads.u2 h fun _ _ _ hv => ⟨by simp, [], rfl, hv ▸ rfl⟩
    · next ht =>
      obtain rfl := htag 15 ht
      exact htwo Reads.u1 h fun _ _ _ hv => ⟨by simp, [], rfl, hv ▸ rfl⟩
    · next ht =>
      obtain rfl := htag 16 ht
      exact hone Reads.u2 h fun _ _ hv => ⟨by simp, [], rfl, hv ▸ rfl⟩
    · next ht =>
      obtain rfl := htag 17 ht
      exact htwo Reads.u2 h fun _ _ _ hv => ⟨by simp, [], rfl, hv ▸ rfl⟩
    · next ht =>
      obtain rfl := htag 18 ht
      exact htwo Reads.u2 h fun _ _ _ hv => ⟨by simp, [], rfl, hv ▸ rfl⟩
    · next ht =>
      obtain rfl := htag 19 ht
      exact hone Reads.u2 h fun _ _ hv => ⟨by simp, [], rfl, hv ▸ rfl⟩
    · next ht =>
      obtain rfl := htag 20 ht
      exact hone Reads.u2 h fun _ _ hv => ⟨by simp, [], rfl, hv ▸ rfl⟩
    · cases h

/-- **An entry.**  The reader reads a tag with the fields that it announces, and nothing else. -/
theorem reads_reader (n : Nat) : Reads n reader Layout := by
  intro input _ e rest
  constructor
  · exact layout_of_run_reader
  · rintro ⟨_, ⟨he, s, hs, rfl⟩, rfl⟩
    exact run_reader_layout he hs rest

end Entry

/-! ### The slots of a table -/

/-- What fills the next slot while a wide entry has filled only one. -/
def Pool.pending (half : Bool) : List Entry := if half then [.unusable] else []

/-- The slots that an entry fills. -/
def Entry.slots (e : Entry) : List Entry := e :: Pool.pending e.isWide

namespace Pool

/-- The lists of entries that fill `n` slots, the first of them half of a wide entry or not.  Only
a wide entry at the end may fill one slot more. -/
inductive Fills : Bool → Nat → List Entry → Prop where
  | done (half : Bool) : Fills half 0 []
  | second {n : Nat} {es : List Entry} : Fills false n es → Fills true (n + 1) es
  | entry {n : Nat} {e : Entry} {es : List Entry} :
      Fills e.isWide n es → Fills false (n + 1) (e :: es)

theorem fills_length (es : List Entry) : Fills false (es.flatMap Entry.slots).length es := by
  induction es with
  | nil => exact .done false
  | cons e es ih =>
    rw [List.flatMap_cons, List.length_append, Nat.add_comm]
    cases he : e.isWide with
    | false =>
      rw [Entry.slots, he]
      exact .entry (he ▸ ih)
    | true =>
      rw [Entry.slots, he]
      exact .entry (he ▸ .second ih)

theorem Fills.length {half : Bool} {n : Nat} {es : List Entry} (h : Fills half n es) :
    (pending half ++ es.flatMap Entry.slots).length = n ∨
      (pending half ++ es.flatMap Entry.slots).length = n + 1 ∧
        (n = 0 ∧ half = true ∨ ∃ m e, n = m + 1 ∧ e.isWide = true ∧
          (pending half ++ es.flatMap Entry.slots)[m]? = some e) := by
  induction h with
  | done half =>
    cases half with
    | false => exact .inl rfl
    | true => exact .inr ⟨rfl, .inl ⟨rfl, rfl⟩⟩
  | second _ ih =>
    rcases ih with hl | ⟨hl, ⟨-, hh⟩ | ⟨m, e, rfl, he, hm⟩⟩
    · exact .inl (congrArg (· + 1) hl)
    · nomatch hh
    · exact .inr ⟨congrArg (· + 1) hl, .inr ⟨m + 1, e, rfl, he, hm⟩⟩
  | @entry n e es _ ih =>
    have hs : pending false ++ (e :: es).flatMap Entry.slots =
        e :: (pending e.isWide ++ es.flatMap Entry.slots) := rfl
    rw [hs, List.length_cons]
    rcases ih with hl | ⟨hl, ⟨rfl, he⟩ | ⟨m, e', rfl, he, hm⟩⟩
    · exact .inl (congrArg (· + 1) hl)
    · exact .inr ⟨congrArg (· + 1) hl, .inr ⟨0, e, rfl, he, rfl⟩⟩
    · exact .inr ⟨congrArg (· + 1) hl, .inr ⟨m + 1, e', rfl, he, hm⟩⟩

/-- **The table.**  The reader reads the entries that fill the announced slots. -/
theorem reads_slotsFrom (b : Nat) (filled : Array Entry) (half : Bool) (n : Nat) :
    Reads b (slotsFrom filled half n) fun bytes slots => ∃ es,
      Format.Each Entry.Layout bytes es ∧ Fills half n es ∧
        slots.toList = filled.toList ++ (pending half ++ es.flatMap Entry.slots) := by
  -- On the announced slots that are still open.  A wide entry in the last of them is kept whole, so
  -- its second slot is owed (`half`) when the induction ends.
  induction n generalizing filled half with
  | zero =>
    refine (Reads.pure _).congr fun bytes slots _ => ?_
    constructor
    · rintro ⟨rfl, rfl⟩
      refine ⟨[], .nil, .done half, ?_⟩
      cases half <;> simp [pending]
    · rintro ⟨es, he, hf, hs⟩
      cases hf
      cases he
      refine ⟨rfl, Array.toList_inj.mp (hs.trans ?_)⟩
      cases half <;> simp [pending]
  | succ n ih =>
    cases half with
    | true =>
      refine (ih (filled.push .unusable) false).congr fun bytes slots _ => ?_
      have hs (es : List Entry) : (filled.push .unusable).toList ++
          (pending false ++ es.flatMap Entry.slots) =
            filled.toList ++ (pending true ++ es.flatMap Entry.slots) := by
        simp [pending]
      constructor
      · rintro ⟨es, he, hf, h⟩
        exact ⟨es, he, .second hf, h.trans (hs es)⟩
      · rintro ⟨es, he, hf, h⟩
        cases hf with
        | second hf => exact ⟨es, he, hf, h.trans (hs es).symm⟩
    | false =>
      refine ((Entry.reads_reader b).bind fun e _ _ _ =>
        (ih (filled.push e) e.isWide).mono (Nat.sub_le ..)).congr
        fun bytes slots _ => ?_
      have hs (e : Entry) (es : List Entry) : (filled.push e).toList ++
          (pending e.isWide ++ es.flatMap Entry.slots) =
            filled.toList ++ (pending false ++ (e :: es).flatMap Entry.slots) := by
        simp [pending, Entry.slots]
      constructor
      · rintro ⟨front, e, back, hL, ⟨es, he, hf, h⟩, rfl⟩
        exact ⟨e :: es, .cons hL he, .entry hf, h.trans (hs e es)⟩
      · rintro ⟨_, he, hf, h⟩
        cases hf with
        | entry hf =>
          cases he with
          | cons hL he => exact ⟨_, _, _, hL, ⟨_, he, hf, h.trans (hs _ _).symm⟩, rfl⟩

/-- The layouts of a pool. -/
def Layout : Format Pool := fun bytes pool => ∃ (count : UInt16) (es : List Entry) (back : Bytes),
  Format.Each Entry.Layout back es ∧ Fills false (count.toNat - 1) es ∧
    pool.entries.toList = es.flatMap Entry.slots ∧ bytes = Bytes.u2 count ++ back

theorem reads_reader (b : Nat) : Reads b reader Layout := by
  refine (Reads.u2.bind fun count _ _ _ =>
    (reads_slotsFrom _ #[] false (count.toNat - 1)).bind_pure Pool.mk).congr fun bytes pool _ => ?_
  constructor
  · rintro ⟨_, count, back, rfl, ⟨_, ⟨es, he, hf, h⟩, rfl⟩, rfl⟩
    exact ⟨count, es, back, he, hf, h, rfl⟩
  · rintro ⟨count, es, back, he, hf, h, rfl⟩
    exact ⟨_, count, back, rfl, ⟨_, ⟨es, he, hf, h⟩, rfl⟩, rfl⟩

/-! ### Pools in which wide entries take two slots -/

/-- Exactly the wide entries are followed by an unusable slot, which is never the first. -/
structure Shaped (pool : Pool) : Prop where
  first : pool.entries[0]? ≠ some .unusable
  followed : ∀ i e, pool.entries[i]? = some e →
    (e.isWide = true ↔ pool.entries[i + 1]? = some .unusable)

private theorem slots_shaped {es : List Entry} (h : ∀ e ∈ es, e ≠ .unusable) :
    (es.flatMap Entry.slots)[0]? ≠ some .unusable ∧ ∀ i e, (es.flatMap Entry.slots)[i]? = some e →
      (e.isWide = true ↔ (es.flatMap Entry.slots)[i + 1]? = some .unusable) := by
  induction es with
  | nil => exact ⟨nofun, nofun⟩
  | cons e es ih =>
    obtain ⟨h0, hf⟩ := ih fun x hx => h x (List.mem_cons_of_mem e hx)
    have he : e ≠ .unusable := h e List.mem_cons_self
    rw [List.flatMap_cons]
    refine ⟨fun h => he (Option.some.inj h), ?_⟩
    cases hw : e.isWide with
    | false =>
      have hs : e.slots = [e] := by rw [Entry.slots, hw]; rfl
      rw [hs]
      intro i x hx
      cases i with
      | zero =>
        cases hx
        rw [hw]
        exact ⟨nofun, fun h => absurd h h0⟩
      | succ i => exact hf i x hx
    | true =>
      have hs : e.slots = [e, .unusable] := by rw [Entry.slots, hw]; rfl
      rw [hs]
      intro i x hx
      rcases i with _ | _ | i
      · cases hx
        exact ⟨fun _ => rfl, fun _ => hw⟩
      · cases hx
        exact ⟨nofun, fun h => absurd h h0⟩
      · exact hf i x hx

private theorem exists_slots (l : List Entry) (h0 : l[0]? ≠ some .unusable)
    (h : ∀ i e, l[i]? = some e → (e.isWide = true ↔ l[i + 1]? = some .unusable)) :
    ∃ es : List Entry, (∀ e ∈ es, e ≠ .unusable) ∧ l = es.flatMap Entry.slots := by
  -- The list is consumed one slot or two at a time, so the recursion is on its length.
  match l with
  | [] => exact ⟨[], nofun, rfl⟩
  | e :: t =>
    have he : e ≠ .unusable := fun he => h0 (congrArg some he)
    cases hw : e.isWide with
    | false =>
      have ht : t[0]? ≠ some .unusable := fun ht => by
        have := (h 0 e rfl).mpr ht
        rw [hw] at this
        nomatch this
      obtain ⟨es, hes, rfl⟩ := exists_slots t ht fun i x => h (i + 1) x
      refine ⟨e :: es, List.forall_mem_cons.mpr ⟨he, hes⟩, ?_⟩
      rw [List.flatMap_cons, Entry.slots, hw]
      rfl
    | true =>
      match t with
      | [] => nomatch (h 0 e rfl).mp hw
      | x :: u =>
        obtain rfl : x = .unusable := Option.some.inj ((h 0 e rfl).mp hw)
        have hu : u[0]? ≠ some .unusable := fun hu => nomatch (h 1 .unusable rfl).mpr hu
        obtain ⟨es, hes, rfl⟩ := exists_slots u hu fun i x => h (i + 2) x
        refine ⟨e :: es, List.forall_mem_cons.mpr ⟨he, hes⟩, ?_⟩
        rw [List.flatMap_cons, Entry.slots, hw]
        rfl
termination_by l.length

/-- Such pools are the lists of entries. -/
theorem shaped_iff {pool : Pool} : pool.Shaped ↔
    ∃ es : List Entry, (∀ e ∈ es, e ≠ .unusable) ∧
      pool.entries.toList = es.flatMap Entry.slots := by
  constructor
  · rintro ⟨h0, h⟩
    exact exists_slots pool.entries.toList (by rwa [Array.getElem?_toList])
      (by simpa only [Array.getElem?_toList] using h)
  · rintro ⟨es, hes, h⟩
    obtain ⟨h0, hf⟩ := slots_shaped hes
    rw [← h] at h0 hf
    simp only [Array.getElem?_toList] at h0 hf
    exact ⟨h0, hf⟩

/-! ### The spellings of the texts of a pool -/

/-- The bytes of slots whose texts are spelled as given, with one spelling for each slot. -/
def slotsAs (slots : List Entry) (spellings : List Bytes) : Bytes :=
  (List.zipWith (fun e s => e.layout fun _ => s) slots spellings).flatten

/-- The bytes of a pool whose texts are spelled as given, with one spelling for each slot. -/
def layoutAs (spellings : List Bytes) (pool : Pool) : Bytes :=
  Bytes.u2 (.ofNat (pool.size + 1)) ++ slotsAs pool.entries.toList spellings

theorem each_layout_iff {bytes : Bytes} {es : List Entry} : Format.Each Entry.Layout bytes es ↔
    (∀ e ∈ es, e ≠ .unusable) ∧ ∃ ss, List.Forall₂ Entry.IsSpelling (es.flatMap Entry.slots) ss ∧
      bytes = slotsAs (es.flatMap Entry.slots) ss := by
  constructor
  · intro h
    induction h with
    | nil => exact ⟨nofun, [], .nil, rfl⟩
    | @cons _ _ e _ h _ ih =>
      obtain ⟨he, s, hs, rfl⟩ := h
      obtain ⟨hes, ss, hss, rfl⟩ := ih
      refine ⟨List.forall_mem_cons.mpr ⟨he, hes⟩, ?_⟩
      rw [List.flatMap_cons, Entry.slots]
      cases e.isWide with
      | false => exact ⟨s :: ss, .cons hs hss, rfl⟩
      | true => exact ⟨s :: [] :: ss, .cons hs (.cons rfl hss), rfl⟩
  · rintro ⟨hes, ss, hss, rfl⟩
    induction es generalizing ss with
    | nil =>
      cases hss
      exact .nil
    | cons e es ih =>
      rw [List.forall_mem_cons] at hes
      rw [List.flatMap_cons, Entry.slots] at hss ⊢
      cases hw : e.isWide with
      | false =>
        rw [hw] at hss
        cases hss with
        | cons hs hss => exact .cons ⟨hes.1, _, hs, rfl⟩ (ih hes.2 _ hss)
      | true =>
        rw [hw] at hss
        cases hss with
        | cons hs hss =>
          cases hss with
          | cons _ hss => exact .cons ⟨hes.1, _, hs, rfl⟩ (ih hes.2 _ hss)

/-- A pool that fits its count is laid out by any spellings of its texts. -/
theorem layout_layoutAs {pool : Pool} {spellings : List Bytes} (hp : pool.Shaped)
    (hn : pool.size ≤ 65534) (hs : List.Forall₂ Entry.IsSpelling pool.entries.toList spellings) :
    Layout (pool.layoutAs spellings) pool := by
  obtain ⟨es, hes, he⟩ := shaped_iff.mp hp
  have hsize : pool.size = (es.flatMap Entry.slots).length := by
    rw [← he, Array.length_toList]
    rfl
  refine ⟨.ofNat (pool.size + 1), es, slotsAs pool.entries.toList spellings, ?_, ?_, he, rfl⟩
  · rw [he] at hs ⊢
    exact each_layout_iff.mpr ⟨hes, spellings, hs, rfl⟩
  · have hlt : pool.size + 1 < UInt16.size := Nat.lt_of_le_of_lt (Nat.succ_le_succ hn) (by decide)
    rw [UInt16.toNat_ofNat_of_lt' hlt, Nat.add_sub_cancel, hsize]
    exact fills_length es

theorem Layout.shaped {bytes : Bytes} {pool : Pool} (h : Layout bytes pool) : pool.Shaped := by
  obtain ⟨count, es, back, he, -, hslots, -⟩ := h
  exact shaped_iff.mpr ⟨es, (each_layout_iff.mp he).1, hslots⟩

/-- The slots that a layout fills are those that its count announces, and one more if a wide entry
stands in the last of them. -/
theorem Layout.size {bytes : Bytes} {pool : Pool} (h : Layout bytes pool) {count : UInt16}
    (hcount : count = .ofNat (Bytes.toNat (bytes.take 2))) :
    pool.size = count.toNat - 1 ∨
      pool.size = count.toNat - 1 + 1 ∧
        ∃ e, pool.entry? (count - 1) = some e ∧ e.isWide = true := by
  obtain ⟨count', es, back, -, hf, hslots, rfl⟩ := h
  obtain rfl : count = count' := by
    rw [hcount, List.take_left' (Bytes.length_u2 count'), Bytes.ofNat_toNat_u2]
  have hsize : pool.size = (pending false ++ es.flatMap Entry.slots).length := by
    show _ = (es.flatMap Entry.slots).length
    rw [← hslots, Array.length_toList]
    rfl
  rw [hsize]
  refine hf.length.imp_right fun ⟨hl, hlast⟩ => ⟨hl, ?_⟩
  rcases hlast with ⟨-, hh⟩ | ⟨m, e, hm, hw, hat⟩
  · nomatch hh
  · have hpred : (count - 1).toNat = m + 1 := by
      rw [← hm]
      exact UInt16.toNat_sub_of_le _ _ (UInt16.le_iff_toNat_le.mpr (show 1 ≤ _ by omega))
    refine ⟨e, ?_, hw⟩
    have h0 : count - 1 ≠ 0 := fun h => by
      rw [h] at hpred
      nomatch hpred
    unfold entry?
    rw [if_neg h0, hpred, Nat.add_sub_cancel, ← Array.getElem?_toList, hslots]
    exact hat

/-- **What a layout is.**  If the count is not 0 and no wide entry stands in the last slot that it
announces, then it is one more than the number of slots, and only the spellings of the texts are
left open. -/
theorem Layout.eq_layoutAs {bytes : Bytes} {pool : Pool} (h : Layout bytes pool) {count : UInt16}
    (hcount : count = .ofNat (Bytes.toNat (bytes.take 2))) (hpos : count ≠ 0)
    (hlast : ∀ e, pool.entry? (count - 1) = some e → e.isWide = false) :
    count.toNat = pool.size + 1 ∧ pool.Shaped ∧ ∃ spellings,
      List.Forall₂ Entry.IsSpelling pool.entries.toList spellings ∧
        bytes = pool.layoutAs spellings := by
  have hpos : 1 ≤ count.toNat := Nat.one_le_iff_ne_zero.mpr fun h => hpos (UInt16.toNat_inj.mp h)
  have hlen : count.toNat = pool.size + 1 := by
    rcases h.size hcount with hl | ⟨-, e, he, hw⟩
    · omega
    · rw [hlast e he] at hw
      nomatch hw
  refine ⟨hlen, h.shaped, ?_⟩
  obtain ⟨count', es, back, he, hf, hslots, rfl⟩ := h
  obtain rfl : count = count' := by
    rw [hcount, List.take_left' (Bytes.length_u2 count'), Bytes.ofNat_toNat_u2]
  obtain ⟨hes, spellings, hs, rfl⟩ := each_layout_iff.mp he
  refine ⟨spellings, by rwa [hslots], ?_⟩
  rw [layoutAs, ← hlen, UInt16.ofNat_toNat, hslots]

/-- The spelling that a function gives to the text of an entry. -/
def spelling (spell : String → Bytes) : Entry → Bytes
  | .utf8 text => spell text
  | _ => []

theorem layout_eq_layoutAs (spell : String → Bytes) (pool : Pool) :
    pool.layout spell = pool.layoutAs (pool.entries.toList.map (spelling spell)) := by
  have h (e : Entry) : (e.layout fun _ => spelling spell e) = e.layout spell := by
    cases e <;> rfl
  rw [layout, layoutAs, slotsAs, List.zipWith_map_right, List.zipWith_self, List.flatMap_def]
  simp only [h]

end Pool

end JvmOutline
