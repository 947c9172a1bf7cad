import JvmOutline.Proofs.Assembly.Requests
import JvmOutline.Proofs.Attribute.Extension
import JvmOutline.Proofs.Pool.Slots

/-!
# The interning table

While constants are asked for, one can write each new entry at once and remember its index: a table
holds the bytes of the entries so far, the next index, and the index of each constant that was asked
for (`Pool.Table`).  A class or a string that is new asks for its text in between.

`Pool.Table.InStep` links the three parts of a table to a pool: its slots, its size, and what each
index leads to.  One more entry keeps them in step (`InStep.add`), so every request does, and it
gets the index that the pool hands out (`mirrors_intern`); along a sequence of requests this holds
as long as the slots fit (`serve_inStep`).

**The table is faithful** (`Pool.Table.serve_faithful`): it is read back as the pool, its indexes
lead to what was asked for from then on, and equal constants are those that share an index.
-/

namespace JvmOutline

namespace Pool

/-! ### The table -/

/-- The bytes of an entry, with its text in UTF-8. -/
def entryBytes (e : Entry) : Bytes := e.layout fun text => Utf8.encode text.toList

/-- What is held while constants are asked for: the bytes of the entries so far, the next index, and
the indexes that were handed out, newest first. -/
structure Table where
  bytes : Bytes
  next : Nat
  indexes : List (Request × UInt16)

namespace Table

/-- The table before anything is asked for. -/
def empty : Table := ⟨[], 1, []⟩

/-- Writes an entry at the end, and keeps its index for the constant that it stands for. -/
def add (r : Request) (e : Entry) : StateM Table UInt16 := fun t =>
  (.ofNat t.next, ⟨t.bytes ++ entryBytes e, t.next + e.width, (r, .ofNat t.next) :: t.indexes⟩)

/-- The index that is kept for a constant, or a new one. -/
def keep (r : Request) (new : StateM Table UInt16) : StateM Table UInt16 := fun t =>
  match t.indexes.lookup r with
  | some index => (index, t)
  | none => new t

/-- The index of a text. -/
def internText (text : String) : StateM Table UInt16 :=
  keep (.utf8 text) (add (.utf8 text) (.utf8 text))

/-- The index of a constant.  A new class or string asks for its text before its own index is
taken. -/
def intern (r : Request) : StateM Table UInt16 :=
  match r with
  | .utf8 text => internText text
  | .classRef name => keep r do add r (.classRef (← internText name))
  | .string text => keep r do add r (.string (← internText text))
  | .integer value => keep r (add r (.integer value))
  | .long value => keep r (add r (.long value))
  | .float bits => keep r (add r (.float bits))
  | .double bits => keep r (add r (.double bits))

/-- The indexes that are handed out for constants asked for one after the other, and the table after
that. -/
def serve (rs : List Request) : List UInt16 × Table := (rs.mapM intern).run empty

end Table

variable {pool later : Pool} {r s : Request} {e : Entry} {i j : UInt16}

/-! ### What an entry stands for -/

/-- The constant that an entry stands for in a pool. -/
def request? (pool : Pool) : Entry → Option Request
  | .utf8 text => some (.utf8 text)
  | .classRef name =>
    match pool.entry? name with
    | some (.utf8 text) => some (.classRef text)
    | _ => none
  | .string index =>
    match pool.entry? index with
    | some (.utf8 text) => some (.string text)
    | _ => none
  | .integer value => some (.integer value)
  | .long value => some (.long value)
  | .float bits => some (.float bits)
  | .double bits => some (.double bits)
  | _ => none

namespace Request

theorem Found.exists_entry (h : r.Found pool i) :
    ∃ e, pool.entry? i = some e ∧ pool.request? e = some r := by
  cases r with
  | utf8 | integer | long | float | double => exact ⟨_, h, rfl⟩
  | classRef | string =>
    obtain ⟨k, hi, hk⟩ := h
    exact ⟨_, hi, by rw [request?, hk]⟩

/-- An index leads to one constant only. -/
theorem Found.unique (h : r.Found pool i) (h' : s.Found pool i) : r = s := by
  obtain ⟨e, he, hr⟩ := h.exists_entry
  obtain ⟨e', he', hs⟩ := h'.exists_entry
  obtain rfl : e = e' := Option.some.inj (he.symm.trans he')
  exact Option.some.inj (hr.symm.trans hs)

theorem Found.ne_unusable (h : r.Found pool i) : pool.entry? i ≠ some .unusable := by
  intro hi
  obtain ⟨e, he, hr⟩ := h.exists_entry
  obtain rfl : e = .unusable := Option.some.inj (he.symm.trans hi)
  nomatch hr

theorem Found.extends (h : r.Found pool i) (hl : pool.Extends later) : r.Found later i := by
  cases r with
  | utf8 | integer | long | float | double => exact hl.entry? h
  | classRef | string =>
    obtain ⟨k, hi, hk⟩ := h
    exact ⟨k, hl.entry? hi, hl.entry? hk⟩

end Request

/-! ### One more entry -/

theorem size_push (pool : Pool) (e : Entry) : (pool.push e).size = pool.size + e.width := by
  have h := congrArg List.length (toList_push pool e)
  rwa [List.length_append, Array.length_toList, Array.length_toList, Entry.length_slots] at h

/-- A slot of the pool with one more entry. -/
theorem entry?_push {x : Entry} (h : Pool.entry? (pool.push e) i = some x) :
    pool.entry? i = some x ∨ i = .ofNat (pool.size + 1) ∧ x = e ∨ x = .unusable := by
  obtain ⟨h0, h⟩ := entry?_eq_some_iff.mp h
  rw [← Array.getElem?_toList, toList_push] at h
  by_cases hlt : i.toNat - 1 < pool.size
  · rw [List.getElem?_append_left hlt, Array.getElem?_toList] at h
    exact .inl (entry?_eq_some_iff.mpr ⟨h0, h⟩)
  · rw [List.getElem?_append_right (Nat.le_of_not_lt hlt), Entry.slots] at h
    refine .inr ?_
    cases hk : i.toNat - 1 - pool.entries.toList.length with
    | zero =>
      rw [hk] at h
      have hi : i.toNat = pool.size + 1 := by
        rw [Array.length_toList] at hk
        change i.toNat - 1 - pool.size = 0 at hk
        omega
      exact .inl ⟨by rw [← hi, UInt16.ofNat_toNat], (Option.some.inj h).symm⟩
    | succ k =>
      rw [hk, List.getElem?_cons_succ] at h
      have hx := List.mem_of_getElem? h
      cases hw : e.isWide with
      | false =>
        rw [hw] at hx
        exact absurd hx List.not_mem_nil
      | true =>
        rw [hw] at hx
        exact .inr (List.mem_singleton.mp hx)

/-- Every entry that can be used is there because it was asked for. -/
def Asked (pool : Pool) : Prop :=
  ∀ i e, pool.entry? i = some e → e ≠ .unusable → ∃ r : Request, r.Found pool i

section Push

variable (hp : pool.Asked) (hr : r.Found (pool.push e) (.ofNat (pool.size + 1)))

include hp hr

/-- What one more entry stands for is all that is found besides what was found before. -/
theorem found_push_iff : s.Found (pool.push e) i ↔
    s.Found pool i ∨ s = r ∧ i = .ofNat (pool.size + 1) := by
  constructor
  · intro h
    obtain ⟨x, hx, -⟩ := h.exists_entry
    rcases entry?_push hx with hold | ⟨rfl, -⟩ | rfl
    · -- The entry was asked for when it was put there, and still stands for the same constant.
      have hne : x ≠ .unusable := fun hu => h.ne_unusable (hu ▸ hx)
      obtain ⟨q, hq⟩ := hp i x hold hne
      rw [h.unique (hq.extends (extends_push pool e))]
      exact .inl hq
    · exact .inr ⟨h.unique hr, rfl⟩
    · exact absurd hx h.ne_unusable
  · rintro (h | ⟨rfl, rfl⟩)
    · exact h.extends (extends_push pool e)
    · exact hr

theorem Asked.push : (pool.push e).Asked := by
  intro i x hx hne
  rcases entry?_push hx with hold | ⟨rfl, -⟩ | rfl
  · obtain ⟨q, hq⟩ := hp i x hold hne
    exact ⟨q, hq.extends (extends_push pool e)⟩
  · exact ⟨r, hr⟩
  · exact absurd rfl hne

end Push

/-! ### Asking the pool -/

theorem after_append (pool : Pool) (rs rs' : List Request) :
    pool.after (rs ++ rs') = (pool.after rs).after rs' := by
  unfold after
  rw [List.mapM_append]
  rfl

/-- An entry that is there keeps an index of its own. -/
theorem run_intern_of_entry? (h : pool.entry? i = some e) (hn : pool.size ≤ 65534) :
    ∃ j, (intern e).run pool = (j, pool) ∧ pool.entry? j = some e := by
  obtain ⟨-, h⟩ := entry?_eq_some_iff.mp h
  rw [show (intern e).run pool = intern e pool from rfl, intern]
  cases hfind : pool.entries.findIdx? (· = e) with
  | none =>
    have hno := Array.findIdx?_eq_none_iff.mp hfind e (Array.mem_of_getElem? h)
    exact absurd rfl (of_decide_eq_false hno)
  | some k => exact ⟨_, rfl, entry?_ofNat (getElem?_of_findIdx? hfind) hn⟩

/-- An entry that is not there is put at the end. -/
theorem run_intern_of_forall_ne (h : ∀ i, pool.entry? i ≠ some e) (hn : pool.size ≤ 65534) :
    (intern e).run pool = (.ofNat (pool.size + 1), pool.push e) := by
  rw [show (intern e).run pool = intern e pool from rfl, intern]
  cases hfind : pool.entries.findIdx? (· = e) with
  | none => rfl
  | some k => exact absurd (entry?_ofNat (getElem?_of_findIdx? hfind) hn) (h _)

theorem entry?_push_new (hn : (pool.push e).size ≤ 65534) :
    Pool.entry? (pool.push e) (.ofNat (pool.size + 1)) = some e :=
  entry?_ofNat (getElem?_push_size pool e) hn

/-! ### In step -/

namespace Table

variable {t : Table}

/-- The bytes, the counter and the kept indexes of a table are those of a pool, all of whose entries
were asked for. -/
structure InStep (t : Table) (pool : Pool) : Prop where
  bytes : t.bytes = pool.entries.toList.flatMap entryBytes
  next : t.next = pool.size + 1
  lookup : ∀ (r : Request) (i : UInt16), t.indexes.lookup r = some i ↔ r.Found pool i
  asked : pool.Asked

/-- A constant is found at one index only. -/
theorem InStep.eq_of_found (h : t.InStep pool) (hi : r.Found pool i) (hj : r.Found pool j) :
    i = j :=
  Option.some.inj (((h.lookup r i).mpr hi).symm.trans ((h.lookup r j).mpr hj))

theorem InStep.size_le (h : t.InStep pool) (hfit : t.next ≤ 65535) : pool.size ≤ 65534 := by
  have hnext : t.next = pool.size + 1 := h.next
  omega

theorem inStep_empty : empty.InStep .empty where
  bytes := rfl
  next := rfl
  lookup r i := by
    refine iff_of_false nofun fun h => ?_
    obtain ⟨e, he, -⟩ := h.exists_entry
    nomatch (entry?_eq_some_iff.mp he).2
  asked i e he := nomatch (entry?_eq_some_iff.mp he).2

theorem flatMap_slots (e : Entry) : e.slots.flatMap entryBytes = entryBytes e := by
  rw [Entry.slots, List.flatMap_cons]
  cases e.isWide with
  | false => exact List.append_nil _
  | true => exact List.append_nil _

/-- **One more entry.**  All three parts of the table follow the pool. -/
theorem InStep.add (h : t.InStep pool) (hnew : t.indexes.lookup r = none)
    (hr : r.Found (pool.push e) (.ofNat (pool.size + 1))) :
    ((Table.add r e).run t).1 = .ofNat (pool.size + 1) ∧
      ((Table.add r e).run t).2.InStep (pool.push e) := by
  have hindex : UInt16.ofNat t.next = .ofNat (pool.size + 1) := congrArg _ h.next
  have hrun : (Table.add r e).run t =
      (.ofNat (pool.size + 1), ⟨t.bytes ++ entryBytes e, t.next + e.width,
        (r, .ofNat (pool.size + 1)) :: t.indexes⟩) := by
    rw [← hindex]
    rfl
  rw [hrun]
  refine ⟨rfl, { bytes := ?bytes, next := ?next, lookup := ?lookup, asked := h.asked.push hr }⟩
  case bytes => rw [toList_push, List.flatMap_append, flatMap_slots, h.bytes]
  case next =>
    show t.next + e.width = _
    rw [size_push, h.next]
    omega
  case lookup =>
    intro s i
    rw [found_push_iff h.asked hr, List.lookup_cons]
    by_cases hs : s = r
    · subst hs
      rw [beq_self_eq_true, ← h.lookup, hnew]
      simp [eq_comm]
    · rw [beq_eq_false_iff_ne.mpr hs, ← h.lookup]
      simp [hs]

/-! ### Computations in step -/

/-- On a table and a pool that are in step, both computations give the same value and leave them in
step, if the slots fit.  The counter never goes back. -/
structure Mirrors {α : Type} (m : StateM Table α) (m' : Interning α) : Prop where
  grows : ∀ t : Table, t.next ≤ (m.run t).2.next
  same : ∀ {t : Table} {pool : Pool}, t.InStep pool → (m.run t).2.next ≤ 65535 →
    (m.run t).1 = (m'.run pool).1 ∧ (m.run t).2.InStep (m'.run pool).2

namespace Mirrors

variable {α β : Type} {m : StateM Table α} {m' : Interning α}

protected theorem pure (a : α) : Mirrors (pure a) (pure a) where
  grows _ := Nat.le_refl _
  same h _ := ⟨rfl, h⟩

/-- **Two steps.**  What fits after the second step fitted before it. -/
protected theorem bind {f : α → StateM Table β} {f' : α → Interning β} (hm : Mirrors m m')
    (hf : ∀ a, Mirrors (f a) (f' a)) : Mirrors (m >>= f) (m' >>= f') where
  grows t := Nat.le_trans (hm.grows t) ((hf _).grows _)
  same {t pool} h hfit := by
    obtain ⟨hv, hs⟩ := hm.same h (Nat.le_trans ((hf _).grows _) hfit)
    rw [show (m' >>= f').run pool = (f' (m'.run pool).1).run (m'.run pool).2 from rfl, ← hv]
    exact (hf (m.run t).1).same hs hfit

/-- A step for each item of a list. -/
protected theorem mapM {f : α → StateM Table β} {f' : α → Interning β}
    (hf : ∀ a, Mirrors (f a) (f' a)) (as : List α) : Mirrors (as.mapM f) (as.mapM f') := by
  induction as with
  | nil => exact .pure []
  | cons a as ih =>
    rw [List.mapM_cons, List.mapM_cons]
    exact (hf a).bind fun b => ih.bind fun bs => .pure (b :: bs)

end Mirrors

/-- A constant that is kept has been asked for, and asking the pool for it changes nothing; one that
is not kept is new to both. -/
theorem mirrors_keep {new : StateM Table UInt16} {m : Interning UInt16}
    (hgrows : ∀ t : Table, t.next ≤ (new.run t).2.next)
    (hold : ∀ {t : Table} {pool : Pool} {i : UInt16}, t.InStep pool → pool.size ≤ 65534 →
      r.Found pool i → ∃ j, m.run pool = (j, pool) ∧ r.Found pool j)
    (hnew : ∀ {t : Table} {pool : Pool}, t.InStep pool → t.indexes.lookup r = none →
      (new.run t).2.next ≤ 65535 →
        (new.run t).1 = (m.run pool).1 ∧ (new.run t).2.InStep (m.run pool).2) :
    Mirrors (keep r new) m := by
  have hrun (t : Table) : (keep r new).run t = match t.indexes.lookup r with
    | some index => (index, t)
    | none => new.run t := rfl
  refine { grows := fun t => ?grows, same := fun {t pool} h hfit => ?same }
  case grows =>
    rw [hrun]
    split
    · exact Nat.le_refl _
    · exact hgrows t
  case same =>
    rw [hrun] at hfit ⊢
    cases hl : t.indexes.lookup r with
    | some i =>
      rw [hl] at hfit
      have hi : r.Found pool i := (h.lookup r i).mp hl
      obtain ⟨j, hj, hat⟩ := hold h (h.size_le hfit) hi
      rw [hj]
      exact ⟨h.eq_of_found hi hat, h⟩
    | none =>
      rw [hl] at hfit
      exact hnew h hl hfit

theorem grows_add (r : Request) (e : Entry) (t : Table) : t.next ≤ ((add r e).run t).2.next :=
  Nat.le_add_right _ _

/-- A new entry is added to both. -/
theorem InStep.add_new (h : t.InStep pool) (hl : t.indexes.lookup r = none)
    (hfit : ((Table.add r e).run t).2.next ≤ 65535) (hno : ∀ i, pool.entry? i ≠ some e)
    (hr : Pool.entry? (pool.push e) (.ofNat (pool.size + 1)) = some e →
      r.Found (pool.push e) (.ofNat (pool.size + 1))) :
    ((Table.add r e).run t).1 = ((Pool.intern e).run pool).1 ∧
      ((Table.add r e).run t).2.InStep ((Pool.intern e).run pool).2 := by
  have hn : (pool.push e).size ≤ 65534 := by
    have hnext : t.next = pool.size + 1 := h.next
    change t.next + e.width ≤ _ at hfit
    rw [size_push]
    omega
  rw [run_intern_of_forall_ne hno (by rw [size_push] at hn; omega)]
  exact h.add hl (hr (entry?_push_new hn))

/-- A constant that is found wherever its entry is. -/
theorem mirrors_keep_add
    (hr : ∀ (pool : Pool) (i : UInt16), r.Found pool i ↔ pool.entry? i = some e) :
    Mirrors (keep r (add r e)) (Pool.intern e) := by
  refine mirrors_keep (grows_add r e) (fun {t pool i} _ hn hi => ?old)
    fun {t pool} h hl hfit => ?new
  case old =>
    obtain ⟨j, hj, hat⟩ := run_intern_of_entry? ((hr pool i).mp hi) hn
    exact ⟨j, hj, (hr pool j).mpr hat⟩
  case new =>
    refine h.add_new hl hfit (fun i hi => ?_) (hr _ _).mpr
    rw [(h.lookup r i).mpr ((hr pool i).mpr hi)] at hl
    nomatch hl

/-! ### Constants that refer to their text -/

theorem lookup_internText (text : String) (t : Table) :
    ((internText text).run t).2.indexes.lookup (.utf8 text) = some ((internText text).run t).1 := by
  show (keep _ _ t).2.indexes.lookup _ = some (keep _ _ t).1
  unfold keep
  split
  · next hl => exact hl
  · exact List.lookup_cons_self

theorem lookup_internText_of_ne {text : String} (hne : r ≠ .utf8 text) (t : Table) :
    ((internText text).run t).2.indexes.lookup r = t.indexes.lookup r := by
  show (keep _ _ t).2.indexes.lookup _ = _
  unfold keep
  split
  · rfl
  · show List.lookup r (_ :: t.indexes) = _
    rw [List.lookup_cons, beq_eq_false_iff_ne.mpr hne]

theorem mirrors_internText (text : String) : Mirrors (internText text) (Pool.internText text) :=
  mirrors_keep_add fun _ _ => Iff.rfl

/-- A constant that is found where an entry refers to its text. -/
theorem mirrors_keep_text {text : String} {ref : UInt16 → Entry} (hne : r ≠ .utf8 text)
    (hr : ∀ (pool : Pool) (i : UInt16),
      r.Found pool i ↔ ∃ k, pool.entry? i = some (ref k) ∧ pool.HasText k text) :
    Mirrors (keep r do add r (ref (← internText text)))
      (do Pool.intern (ref (← Pool.internText text))) := by
  have hrun (pool : Pool) : (do Pool.intern (ref (← Pool.internText text))).run pool =
      (Pool.intern (ref ((Pool.internText text).run pool).1)).run
        ((Pool.internText text).run pool).2 := rfl
  refine mirrors_keep (fun t => ?grows) (fun {t pool i} h hn hi => ?old)
    fun {t pool} h hl hfit => ?new
  case grows => exact Nat.le_trans ((mirrors_internText text).grows t) (grows_add r _ _)
  case old =>
    obtain ⟨k, hi, hk⟩ := (hr pool i).mp hi
    -- The text is asked for again, and only its own index is kept for it.
    obtain ⟨k', hk', hat⟩ := run_intern_of_entry? hk hn
    obtain rfl : k = k' := h.eq_of_found (r := .utf8 text) hk hat
    obtain ⟨j, hj, hat⟩ := run_intern_of_entry? hi hn
    refine ⟨j, ?_, (hr pool j).mpr ⟨k, hat, hk⟩⟩
    rw [hrun, show (Pool.internText text).run pool = (k, pool) from hk']
    exact hj
  case new =>
    obtain ⟨hv, hs⟩ := (mirrors_internText text).same h (Nat.le_trans (grows_add r _ _) hfit)
    have hk := (hs.lookup _ _).mp (lookup_internText text t)
    -- Asking for the text first keeps nothing for the constant itself.
    have hl' := (lookup_internText_of_ne hne t).trans hl
    rw [hrun, ← hv]
    refine hs.add_new hl' hfit (fun i hi => ?_) fun hat =>
      (hr _ _).mpr ⟨_, hat, Extends.entry? (extends_push _ _) hk⟩
    rw [(hs.lookup r i).mpr ((hr _ i).mpr ⟨_, hi, hk⟩)] at hl'
    nomatch hl'

/-! ### Requests, one after the other -/

theorem mirrors_intern (r : Request) : Mirrors (intern r) r.index := by
  cases r with
  | utf8 text => exact mirrors_internText text
  | classRef | string => exact mirrors_keep_text nofun fun _ _ => Iff.rfl
  | integer | long | float | double => exact mirrors_keep_add fun _ _ => Iff.rfl

/-- **The table follows the pool.**  While the slots fit, requests get the same indexes from both,
and both hold the same constants after them. -/
theorem serve_inStep {rs : List Request} (hfit : (serve rs).2.next ≤ 65535) :
    (serve rs).1 = ((rs.mapM Request.index).run .empty).1 ∧
      (serve rs).2.InStep (Pool.empty.after rs) :=
  (Mirrors.mapM mirrors_intern rs).same inStep_empty hfit

/-- Later requests do not take the counter back. -/
theorem next_serve_le (earlier later : List Request) :
    (serve earlier).2.next ≤ (serve (earlier ++ later)).2.next := by
  have happend : (serve (earlier ++ later)).2 = ((later.mapM intern).run (serve earlier).2).2 := by
    unfold serve
    rw [List.mapM_append]
    rfl
  rw [happend]
  exact (Mirrors.mapM mirrors_intern later).grows _

theorem InStep.layout_eq (h : t.InStep pool) :
    Bytes.u2 (.ofNat t.next) ++ t.bytes = pool.layout fun text => Utf8.encode text.toList := by
  rw [h.next, h.bytes]
  rfl

/-- **The interning table is faithful.**  Let constants be asked for whose texts are short, and let
their slots fit.  The bytes of the table, under its counter, are read to their end as the pool that
the same requests fill, and are the bytes of this pool; it has a slot for each index below the
counter.  Each index that was handed out leads there to the constant that was asked for, also after
the `later` ones, and two constants got the same index exactly if they are equal. -/
theorem serve_faithful (earlier later : List Request)
    (hshort : ∀ r ∈ earlier ++ later, r.isShort = true)
    (hfit : (serve (earlier ++ later)).2.next ≤ 65535) :
    (∀ rest, reader.run (Bytes.u2 (.ofNat (serve (earlier ++ later)).2.next) ++
        (serve (earlier ++ later)).2.bytes ++ rest) =
      .ok (Pool.empty.after (earlier ++ later), rest)) ∧
    Bytes.u2 (.ofNat (serve (earlier ++ later)).2.next) ++ (serve (earlier ++ later)).2.bytes =
      (Pool.empty.after (earlier ++ later)).layout (fun text => Utf8.encode text.toList) ∧
    (Pool.empty.after (earlier ++ later)).size + 1 = (serve (earlier ++ later)).2.next ∧
    (serve earlier).1 = ((earlier.mapM Request.index).run .empty).1 ∧
    List.Forall₂ (fun r i => r.Found (Pool.empty.after (earlier ++ later)) i) earlier
      (serve earlier).1 ∧
    ∀ r i s j, (r, i) ∈ earlier.zip (serve earlier).1 → (s, j) ∈ earlier.zip (serve earlier).1 →
      (i = j ↔ r = s) := by
  obtain ⟨hindexes, -⟩ := serve_inStep (Nat.le_trans (next_serve_le earlier later) hfit)
  obtain ⟨-, hs⟩ := serve_inStep hfit
  have hn : (Pool.empty.after (earlier ++ later)).size ≤ 65534 := hs.size_le hfit
  have hsound : (Pool.empty.after (earlier ++ later)).Sound := sound_empty.after hshort
  obtain ⟨hearlier, hlater⟩ := List.forall_mem_append.mp hshort
  have hfound : List.Forall₂ (fun r i => r.Found (Pool.empty.after (earlier ++ later)) i) earlier
      (serve earlier).1 := by
    rw [hindexes, after_append]
    rw [after_append] at hn
    exact (Request.yields_indexes hearlier .empty sound_empty).2.2 _
      ((sound_empty.after hearlier).extends_after hlater) hn
  refine ⟨fun rest => ?read, hs.layout_eq, hs.next.symm, hindexes, hfound,
    fun r i s j hr hs' => ?same⟩
  case read =>
    rw [hs.layout_eq]
    exact hsound.run_reader_layout hn rest
  case same =>
    have hi := (List.forall₂_iff_zip.mp hfound).2 hr
    have hj := (List.forall₂_iff_zip.mp hfound).2 hs'
    constructor
    · rintro rfl
      exact hi.unique hj
    · rintro rfl
      exact hs.eq_of_found hi hj

/-- Requests for a class, a text and a string of one name, a repetition, and numbers. -/
def mixedRequests : List Request :=
  [.classRef "a", .long 7, .utf8 "a", .string "a", .classRef "a", .float 0x7FC00000]

theorem serve_faithful_mixed :
    (serve mixedRequests).1 = [2, 3, 1, 5, 2, 6] ∧
      (serve (mixedRequests ++ [.double 0])).2.next = 9 ∧
      List.Forall₂ (fun r i => r.Found (Pool.empty.after (mixedRequests ++ [.double 0])) i)
        mixedRequests [2, 3, 1, 5, 2, 6] := by
  have hindexes : (serve mixedRequests).1 = [2, 3, 1, 5, 2, 6] := by decide
  have hnext : (serve (mixedRequests ++ [.double 0])).2.next = 9 := by decide
  obtain ⟨-, -, -, -, hfound, -⟩ := serve_faithful mixedRequests [.double 0]
    (by decide) (by rw [hnext]; decide)
  exact ⟨hindexes, hnext, hindexes ▸ hfound⟩

end Table

end Pool

end JvmOutline
