import JvmOutline.Assembly.Assembler
import JvmOutline.Proofs.Cache.Runs
import JvmOutline.Proofs.Reading.Outcome
import Mathlib.Data.List.Nodup

/-!
# What is resident

A cache holds no more outlines than its capacity allows, and no two for one location
(`Cache.Bounded`).  Each request keeps this, so it holds throughout a run.

It decides what a request changes.  A full cache has no more than it may, so to make room it drops
one outline and no second one (`Cache.Bounded.makeRoomWithin_of_crowded`); and then the outline of
a new location takes the place of the dropped one (`Cache.Bounded.admits_keep`).  The law of
residency gathers what holds of every cache of a run (**`Cache.run_residency`**).
-/

namespace JvmOutline

variable {L : Type}

namespace Victim

variable {victim : Victim L} {locations : List L} {chosen : L}

theorem mem_of_choose? (h : victim.choose? locations = some chosen) : chosen ∈ locations :=
  List.mem_of_getElem? h

theorem exists_choose? (victim : Victim L) (h : locations ≠ []) :
    ∃ chosen, victim.choose? locations = some chosen := by
  have hlt := Nat.mod_lt (victim locations) (List.length_pos_iff.mpr h)
  exact ⟨_, List.getElem?_eq_getElem hlt⟩

end Victim

namespace Cache

variable {c : Cache L} {location : L} {held : Held}

/-! ### Bounded caches -/

/-- The caches differ in what is resident at most. -/
structure Alike (after before : Cache L) : Prop where
  capacity : after.capacity = before.capacity
  fetches : after.fetches = before.fetches

theorem alike_refl (c : Cache L) : Alike c c := ⟨rfl, rfl⟩

theorem Alike.trans {last after before : Cache L} (h : Alike last after) (h' : Alike after before) :
    Alike last before :=
  ⟨h.capacity.trans h'.capacity, h.fetches.trans h'.fetches⟩

/-- No more is resident than the capacity allows, and no location twice. -/
structure Bounded (c : Cache L) : Prop where
  size_le : c.size ≤ c.capacity
  nodup : c.locations.Nodup

theorem bounded_empty (capacity : Nat) : (empty capacity : Cache L).Bounded :=
  ⟨Nat.zero_le capacity, List.nodup_nil⟩

/-- Dropping outlines keeps the bound. -/
theorem Bounded.of_sublist {after : Cache L} (h : c.Bounded)
    (hsub : after.entries.Sublist c.entries) (hcapacity : after.capacity = c.capacity) :
    after.Bounded :=
  ⟨hcapacity ▸ Nat.le_trans hsub.length_le h.size_le, h.nodup.sublist (hsub.map Prod.fst)⟩

variable [DecidableEq L]

/-! ### Resident locations -/

theorem find?_eq_none_iff : c.find? location = none ↔ location ∉ c.locations := by
  rw [find?, Option.map_eq_none_iff, List.find?_eq_none, locations, List.mem_map]
  constructor
  · rintro h ⟨e, he, hl⟩
    exact h e he (decide_eq_true hl)
  · intro h e he hl
    exact h ⟨e, he, of_decide_eq_true hl⟩

theorem contains_iff : c.contains location = true ↔ location ∈ c.locations := by
  rw [contains, Option.isSome_iff_ne_none, ne_eq, find?_eq_none_iff, not_not]

theorem exists_find?_of_mem (h : location ∈ c.locations) : ∃ held, c.find? location = some held :=
  Option.isSome_iff_exists.mp (contains_iff.mpr h)

theorem erase_of_not_mem (h : location ∉ c.locations) : c.erase location = c := by
  have hall : ∀ e ∈ c.entries, e.1 ≠ location := fun e he hl => h (hl ▸ List.mem_map_of_mem he)
  rw [erase, List.filter_eq_self.mpr fun e he => decide_eq_true (hall e he)]

theorem size_erase_lt (h : location ∈ c.locations) : (c.erase location).size < c.size := by
  obtain ⟨e, he, hl⟩ := List.mem_map.mp h
  exact List.length_filter_lt_length_iff_exists.mpr ⟨e, he, by simpa using hl⟩

theorem insert_of_not_mem (h : location ∉ c.locations) :
    c.insert location held = { c with entries := c.entries ++ [(location, held)] } := by
  rw [insert, erase_of_not_mem h]

/-- The outline of a location stands at one place, and only there does dropping it leave a gap. -/
theorem Bounded.exists_split (h : c.Bounded) (hmem : location ∈ c.locations) :
    ∃ front dropped back, dropped.1 = location ∧ c.entries = front ++ dropped :: back ∧
      (c.erase location).entries = front ++ back := by
  obtain ⟨dropped, hdropped, rfl⟩ := List.mem_map.mp hmem
  obtain ⟨front, back, hsplit⟩ := List.append_of_mem hdropped
  refine ⟨front, dropped, back, rfl, hsplit, ?_⟩
  have hnodup := h.nodup
  rw [locations, hsplit, List.map_append, List.map_cons, List.nodup_middle, ← List.map_append,
    List.nodup_cons] at hnodup
  have hrest : ∀ e ∈ front ++ back, e.1 ≠ dropped.1 := fun e he hl =>
    hnodup.1 (hl ▸ List.mem_map_of_mem he)
  rw [List.forall_mem_append] at hrest
  rw [erase, hsplit, List.filter_append, List.filter_cons_of_neg (by simp),
    List.filter_eq_self.mpr fun e he => decide_eq_true (hrest.1 e he),
    List.filter_eq_self.mpr fun e he => decide_eq_true (hrest.2 e he)]

theorem Bounded.find?_of_mem (h : c.Bounded) (hmem : (location, held) ∈ c.entries) :
    c.find? location = some held := by
  obtain ⟨found, hfind⟩ := exists_find?_of_mem (List.mem_map_of_mem hmem)
  have heq := List.inj_on_of_nodup_map h.nodup (mem_of_find? hfind) hmem rfl
  rw [hfind, (Prod.mk.inj heq).2]

/-! ### Room -/

/-- There is no room for an outline of a location that is not resident. -/
def Crowded (c : Cache L) (location : L) : Prop :=
  c.capacity ≤ c.size ∧ location ∉ c.locations

theorem crowded_iff :
    (c.capacity ≤ c.size ∧ (!c.contains location) = true) ↔ c.Crowded location := by
  rw [Bool.not_eq_true', ← Bool.not_eq_true, contains_iff, Crowded]

/-- Without one outline there is room. -/
theorem Bounded.not_crowded_erase (h : c.Bounded) {chosen : L} (hmem : chosen ∈ c.locations) :
    ¬ (c.erase chosen).Crowded location := fun hcrowded =>
  Nat.not_le_of_lt (Nat.lt_of_lt_of_le (size_erase_lt hmem) h.size_le) hcrowded.1

/-! ### Dropping an outline -/

variable [LogText L]

theorem evict_of_mem (h : location ∈ c.locations) :
    c.evict location = ⟨[.evicted (LogText.text location)], true, c.erase location⟩ := by
  rw [evict, if_pos (contains_iff.mpr h)]

theorem evict_of_not_mem (h : location ∉ c.locations) : c.evict location = ⟨[], false, c⟩ := by
  rw [evict, if_neg (mt contains_iff.mp h)]

/-! ### Only what is resident changes -/

theorem alike_evict : Alike (c.evict location).cache c := by
  unfold evict
  split <;> exact ⟨rfl, rfl⟩

theorem alike_makeRoomWithin (victim : Victim L) (location : L) (rounds : Nat) (c : Cache L) :
    Alike (makeRoomWithin victim location rounds c).cache c := by
  induction rounds generalizing c with
  | zero => exact alike_refl c
  | succ rounds ih =>
    unfold makeRoomWithin
    split
    · split
      · exact alike_refl c
      · exact (ih _).trans alike_evict
    · exact alike_refl c

theorem alike_keep (victim : Victim L) : Alike (c.keep victim location held).cache c := by
  unfold keep
  split
  · exact alike_refl c
  · have hroom := alike_makeRoomWithin victim location c.size c
    exact ⟨hroom.capacity, hroom.fetches⟩

theorem capacity_get (source : Source L) (victim : Victim L) :
    (c.get source victim location).cache.capacity = c.capacity := by
  rcases get_cases source victim location c with ⟨_, -, hget⟩ | ⟨-, _, -, hget⟩ | ⟨-, _, -, hget⟩
  · rw [hget]
  · rw [hget]
  · rw [hget]
    exact (alike_keep victim).capacity

theorem capacity_serve (sources : Nat → Source L) (request : Request L) :
    (c.serve sources request).cache.capacity = c.capacity := by
  cases request with
  | get victim location => exact capacity_get _ victim
  | evict location => exact alike_evict.capacity
  | clear => rfl

/-! ### Making room -/

/-- The loop that makes room, with the number of its rounds.  It is left when there is room, and
when there is nothing to drop; each round before that drops a chosen outline. -/
inductive MakesRoom (victim : Victim L) (location : L) : Nat → Cache L → Cache L → Prop where
  | room {c : Cache L} : ¬ c.Crowded location → MakesRoom victim location 0 c c
  | bare {c : Cache L} : victim.choose? c.locations = none → MakesRoom victim location 0 c c
  | drop {rounds : Nat} {c last : Cache L} {chosen : L} : c.Crowded location →
      victim.choose? c.locations = some chosen →
      MakesRoom victim location rounds (c.evict chosen).cache last →
      MakesRoom victim location (rounds + 1) c last

variable {victim : Victim L}

theorem makeRoomWithin_of_not_crowded (h : ¬ c.Crowded location) (rounds : Nat) :
    makeRoomWithin victim location rounds c = ⟨[], (), c⟩ := by
  cases rounds with
  | zero => rfl
  | succ rounds => rw [makeRoomWithin, if_neg (mt crowded_iff.mp h)]

namespace Bounded

/-- **One round.**  Where there is no room, one outline is dropped, however many more rounds are
allowed. -/
theorem makeRoomWithin_of_crowded (h : c.Bounded) (hcrowded : c.Crowded location)
    {chosen : L} (hchosen : victim.choose? c.locations = some chosen) (rounds : Nat) :
    makeRoomWithin victim location (rounds + 1) c =
      ⟨[.evicted (LogText.text chosen)], (), c.erase chosen⟩ := by
  have hmem := Victim.mem_of_choose? hchosen
  have hroom : ¬ (c.erase chosen).Crowded location := h.not_crowded_erase hmem
  rw [makeRoomWithin, if_pos (crowded_iff.mpr hcrowded)]
  simp only [hchosen, evict_of_mem hmem, makeRoomWithin_of_not_crowded hroom, List.append_nil]

theorem makesRoom (h : c.Bounded) (victim : Victim L) (location : L) :
    ∃ rounds ≤ 1, MakesRoom victim location rounds c (c.makeRoom victim location).cache := by
  by_cases hcrowded : c.Crowded location
  · cases hchosen : victim.choose? c.locations with
    | none =>
      have hnil : c.entries = [] := by
        by_contra hne
        obtain ⟨chosen, hsome⟩ :=
          victim.exists_choose? (mt List.map_eq_nil_iff.mp hne : c.locations ≠ [])
        rw [hchosen] at hsome
        nomatch hsome
      have hmake : c.makeRoom victim location = ⟨[], (), c⟩ := by
        rw [makeRoom, size, hnil]
        rfl
      exact ⟨0, Nat.zero_le 1, hmake ▸ .bare hchosen⟩
    | some chosen =>
      have hmem := Victim.mem_of_choose? hchosen
      obtain ⟨rest, hsize⟩ := Nat.exists_eq_add_one_of_ne_zero
        (Nat.ne_of_gt (Nat.zero_lt_of_lt (size_erase_lt hmem)))
      have hmake : (c.makeRoom victim location).cache = (c.evict chosen).cache := by
        rw [makeRoom, hsize, h.makeRoomWithin_of_crowded hcrowded hchosen, evict_of_mem hmem]
      have hroom : ¬ (c.evict chosen).cache.Crowded location := by
        rw [evict_of_mem hmem]
        exact h.not_crowded_erase hmem
      exact ⟨1, Nat.le_refl 1, hmake ▸ .drop hcrowded hchosen (.room hroom)⟩
  · refine ⟨0, Nat.zero_le 1, ?_⟩
    rw [makeRoom, makeRoomWithin_of_not_crowded hcrowded]
    exact .room hcrowded

end Bounded

/-! ### Taking an outline in -/

/-- The outline of a new location is taken in.  If the cache was full, one other outline goes, and
otherwise none. -/
inductive Admits (capacity : Nat) (location : L) (held : Held)
    (before after : List (L × Held)) : Prop where
  | room : before.length < capacity → after = before ++ [(location, held)] →
      Admits capacity location held before after
  | full {front back : List (L × Held)} {dropped : L × Held} :
      before.length = capacity → before = front ++ dropped :: back → dropped.1 ≠ location →
      after = front ++ back ++ [(location, held)] → Admits capacity location held before after

namespace Bounded

theorem admits_keep (h : c.Bounded) (hnew : location ∉ c.locations) (hpos : 1 ≤ c.capacity)
    (victim : Victim L) (held : Held) :
    Admits c.capacity location held c.entries (c.keep victim location held).cache.entries := by
  rw [keep, if_neg (Nat.ne_of_gt hpos)]
  by_cases hfull : c.size = c.capacity
  · have hcrowded : c.Crowded location := ⟨Nat.le_of_eq hfull.symm, hnew⟩
    obtain ⟨rest, hsize⟩ := Nat.exists_eq_add_one_of_ne_zero (hfull ▸ Nat.ne_of_gt hpos)
    have hne : c.locations ≠ [] := by
      intro hnil
      have hzero : c.size = 0 := by rw [size, List.map_eq_nil_iff.mp hnil, List.length_nil]
      omega
    obtain ⟨chosen, hchosen⟩ := victim.exists_choose? hne
    obtain ⟨front, dropped, back, rfl, hsplit, herase⟩ :=
      h.exists_split (Victim.mem_of_choose? hchosen)
    have hdropped : dropped.1 ≠ location := fun hl => hnew (hl ▸ Victim.mem_of_choose? hchosen)
    have hnew' : location ∉ (c.erase dropped.1).locations := fun hmem =>
      hnew ((entries_erase_sublist.map Prod.fst).subset hmem)
    refine .full hfull hsplit hdropped ?_
    rw [makeRoom, hsize, h.makeRoomWithin_of_crowded hcrowded hchosen, ← herase]
    exact congrArg entries (insert_of_not_mem hnew')
  · have hlt : c.size < c.capacity := Nat.lt_of_le_of_ne h.size_le hfull
    refine .room hlt ?_
    rw [makeRoom, makeRoomWithin_of_not_crowded fun hcrowded => Nat.not_le_of_lt hlt hcrowded.1]
    exact congrArg entries (insert_of_not_mem hnew)

omit [DecidableEq L] [LogText L] in
theorem of_admits {after : Cache L} (h : c.Bounded) (hnew : location ∉ c.locations)
    (hcapacity : after.capacity = c.capacity)
    (ha : Admits c.capacity location held c.entries after.entries) : after.Bounded := by
  cases ha with
  | room hlt hafter =>
    refine ⟨?_, ?_⟩
    · rw [size, hafter, List.length_append, List.length_singleton, hcapacity]
      exact hlt
    · rw [locations, hafter, List.map_append, List.map_singleton]
      exact List.nodup_append.mpr ⟨h.nodup, List.nodup_singleton _, by
        rintro l hl _ (_ | ⟨_, ⟨⟩⟩) rfl
        exact hnew hl⟩
  | @full front back dropped hfull hsplit hdropped hafter =>
    have hsub : (front ++ back).Sublist c.entries := by
      rw [hsplit]
      exact (List.sublist_cons_self dropped back).append_left front
    refine ⟨?_, ?_⟩
    · rw [size, hafter, hcapacity, ← hfull, hsplit]
      simp only [List.length_append, List.length_cons, List.length_nil]
      omega
    · rw [locations, hafter, List.map_append, List.map_singleton]
      exact List.nodup_append.mpr ⟨h.nodup.sublist (hsub.map Prod.fst), List.nodup_singleton _, by
        rintro l hl _ (_ | ⟨_, ⟨⟩⟩) rfl
        exact hnew ((hsub.map Prod.fst).subset hl)⟩

/-! ### Requests -/

theorem admits_get (h : c.Bounded) {source : Source L} (hnew : location ∉ c.locations)
    (hpos : 1 ≤ c.capacity) (hanswer : (c.get source victim location).answer = .ok held) :
    Admits c.capacity location held c.entries (c.get source victim location).cache.entries := by
  rcases get_cases source victim location c with
    ⟨found, hfind, -⟩ | ⟨-, e, -, hget⟩ | ⟨-, outline, -, hget⟩
  · rw [find?_eq_none_iff.mpr hnew] at hfind
    nomatch hfind
  · rw [hget] at hanswer
    nomatch hanswer
  · rw [hget] at hanswer ⊢
    cases hanswer
    have hcounted : Bounded { c with fetches := c.fetches + 1 } := ⟨h.size_le, h.nodup⟩
    exact hcounted.admits_keep hnew hpos victim _

theorem get (h : c.Bounded) (source : Source L) (victim : Victim L) (location : L) :
    (c.get source victim location).cache.Bounded := by
  rcases get_cases source victim location c with
    ⟨held, -, hget⟩ | ⟨-, e, -, hget⟩ | ⟨hfind, outline, -, hget⟩
  · rw [hget]
    exact h
  · rw [hget]
    exact ⟨h.size_le, h.nodup⟩
  · by_cases hzero : c.capacity = 0
    · rw [hget]
      simp only [keep, if_pos hzero]
      exact ⟨h.size_le, h.nodup⟩
    · have hnew := find?_eq_none_iff.mp hfind
      exact h.of_admits hnew (capacity_get source victim)
        (h.admits_get hnew (Nat.pos_of_ne_zero hzero) (congrArg Step.answer hget))

theorem serve (h : c.Bounded) (sources : Nat → Source L) (request : Request L) :
    (c.serve sources request).cache.Bounded := by
  cases request with
  | get victim location => exact h.get (sources c.fetches) victim location
  | evict location => exact h.of_sublist entries_evict_sublist alike_evict.capacity
  | clear => exact h.of_sublist (List.nil_sublist _) rfl

end Bounded

/-- A cache is bounded throughout a run. -/
theorem bounded_of_mem_states {capacity : Nat} {sources : Nat → Source L}
    {requests : List (Request L)} (h : c ∈ (empty capacity).states sources requests) :
    c.capacity = capacity ∧ c.Bounded :=
  (forall₂_run (I := fun c => c.capacity = capacity ∧ c.Bounded) (R := fun _ _ => True)
    (fun _ request hc => ⟨trivial, (capacity_serve sources request).trans hc.1,
      hc.2.serve sources request⟩)
    ⟨rfl, bounded_empty capacity⟩ requests).2 c h

/-! ### The law of residency -/

/-- What is resident in a cache of the given capacity, and what a request changes in it. -/
structure Residency (capacity : Nat) (c : Cache L) : Prop where
  size_le : c.size ≤ capacity
  nodup : c.locations.Nodup
  /-- A cache without capacity keeps nothing. -/
  bare : capacity = 0 → c.entries = []
  /-- A request for a resident outline changes nothing. -/
  hit : ∀ source victim location, location ∈ c.locations →
    (c.get source victim location).cache = c
  /-- A new outline is taken in. -/
  admits : ∀ source victim location held, location ∉ c.locations → 1 ≤ capacity →
    (c.get source victim location).answer = .ok held →
      Admits capacity location held c.entries (c.get source victim location).cache.entries
  /-- Only the outline that is to be dropped is dropped. -/
  evict : ∀ location, (c.evict location).answer = decide (location ∈ c.locations) ∧
    (c.evict location).cache.entries = c.entries.filter fun e => e.1 ≠ location
  /-- Making room comes to its end, after one round at most. -/
  makesRoom : ∀ victim location,
    ∃ rounds ≤ 1, MakesRoom victim location rounds c (c.makeRoom victim location).cache

theorem answer_evict : (c.evict location).answer = decide (location ∈ c.locations) ∧
    (c.evict location).cache.entries = c.entries.filter fun e => e.1 ≠ location := by
  by_cases h : location ∈ c.locations
  · rw [evict_of_mem h, decide_eq_true h]
    exact ⟨rfl, rfl⟩
  · rw [evict_of_not_mem h, decide_eq_false h]
    exact ⟨rfl, (congrArg entries (erase_of_not_mem h)).symm⟩

/-- **Residency.**  Every cache of a run that begins with an empty one obeys the law of residency,
whatever the source answers and whatever is chosen to be dropped. -/
theorem run_residency (capacity : Nat) (sources : Nat → Source L) (requests : List (Request L))
    {c : Cache L} (h : c ∈ (empty capacity).states sources requests) : c.Residency capacity := by
  obtain ⟨rfl, hbounded⟩ := bounded_of_mem_states h
  refine ⟨hbounded.size_le, hbounded.nodup, fun hzero => ?_, fun source victim location hmem => ?_,
    fun _ _ _ _ hnew hpos hanswer => hbounded.admits_get hnew hpos hanswer,
    fun _ => answer_evict, hbounded.makesRoom⟩
  · exact List.length_eq_zero_iff.mp (Nat.le_zero.mp (hzero ▸ hbounded.size_le))
  · obtain ⟨held, hfind⟩ := exists_find?_of_mem hmem
    rw [get_of_hit hfind]

/-- A source that has the same class for every location. -/
def sampleSource : Source String := fun _ => .ok (ClassDraft.ofName "p/Shape").assemble

/-- A cache for one outline, after it was asked for one. -/
def sample : Cache := ((empty 1).serve (fun _ => sampleSource) (.get .oldest "a")).cache

theorem run_residency_sample :
    sample ∈ (empty 1).states (fun _ => sampleSource) [.get .oldest "a"] ∧
      sample.locations = ["a"] ∧ ∃ held,
        Admits 1 "b" held sample.entries (sample.get sampleSource .oldest "b").cache.entries := by
  have hmem : sample ∈ (empty 1).states (fun _ => sampleSource) [.get .oldest "a"] :=
    .tail _ (.head _)
  have hok : verdict (sample.get sampleSource .oldest "b").answer = .ok () := by decide +kernel
  have hlocations : sample.locations = ["a"] := by decide +kernel
  obtain ⟨held, hheld⟩ := verdict_eq_ok_iff.mp hok
  exact ⟨hmem, hlocations, held, (run_residency 1 _ _ hmem).admits _ _ "b" held
    (hlocations ▸ by decide) (Nat.le_refl 1) hheld⟩

end Cache

end JvmOutline
