import JvmOutline.Proofs.Cache.Residency

/-!
# What a cache asks its source for

A request for an outline asks the source if the location is not resident, and then once; a failure
leaves what is resident as it was (`Cache.Accounts`).

So a run asks its source as often as a location was asked for that was not resident
(`Cache.missed`), and its course is settled by the answers for these locations.  While an outline
stays resident the source is not asked for it, and a request for it is answered with that outline
(**`Cache.run_accounting`**).
-/

namespace JvmOutline.Cache

variable {L : Type} [DecidableEq L] [LogText L] {c : Cache L} {location : L} {held : Held}
  {victim : Victim L}

/-! ### One request -/

/-- What a request for an outline asks the source, and what it leaves if it fails. -/
structure Accounts (source : Source L) (victim : Victim L) (location : L) (c : Cache L) : Prop where
  /-- The source is asked once if the location is not resident, and not at all if it is. -/
  fetches : (c.get source victim location).cache.fetches =
    c.fetches + if location ∈ c.locations then 0 else 1
  /-- If the location is resident, any source will do. -/
  hit : location ∈ c.locations →
    ∀ other, c.get other victim location = c.get source victim location
  /-- If it is not, the source matters for no other location. -/
  miss : location ∉ c.locations → ∀ other : Source L, other location = source location →
    c.get other victim location = c.get source victim location
  /-- A failure leaves what is resident as it was. -/
  failure : ∀ e, (c.get source victim location).answer = .error e →
    (c.get source victim location).cache.entries = c.entries

theorem fetches_get (source : Source L) (victim : Victim L) (location : L) (c : Cache L) :
    (c.get source victim location).cache.fetches =
      c.fetches + if location ∈ c.locations then 0 else 1 := by
  rcases get_cases source victim location c with
    ⟨held, hfind, hget⟩ | ⟨hfind, e, -, hget⟩ | ⟨hfind, outline, -, hget⟩
  · have hmem : location ∈ c.locations := List.mem_map_of_mem (mem_of_find? hfind)
    rw [hget, if_pos hmem, Nat.add_zero]
  · rw [hget, if_neg (find?_eq_none_iff.mp hfind)]
  · rw [hget, if_neg (find?_eq_none_iff.mp hfind)]
    exact (alike_keep victim).fetches

theorem entries_get_of_error {source : Source L} {e : OutlineError}
    (h : (c.get source victim location).answer = .error e) :
    (c.get source victim location).cache.entries = c.entries := by
  rcases get_cases source victim location c with
    ⟨held, -, hget⟩ | ⟨-, e, -, hget⟩ | ⟨-, outline, -, hget⟩
  · rw [hget]
  · rw [hget]
  · rw [hget] at h
    nomatch h

theorem accounts (source : Source L) (victim : Victim L) (location : L) (c : Cache L) :
    c.Accounts source victim location := by
  refine ⟨fetches_get source victim location c, fun hmem other => ?_, fun hnew other hother => ?_,
    fun _ => entries_get_of_error⟩
  · obtain ⟨held, hfind⟩ := exists_find?_of_mem hmem
    rw [get_of_hit hfind, get_of_hit hfind]
  · simp only [get, find?_eq_none_iff.mpr hnew, compute, hother]

/-! ### Runs -/

/-- The locations that a request asks for while they are not resident. -/
def Request.missed (c : Cache L) : Request L → List L
  | .get _ location => if location ∈ c.locations then [] else [location]
  | .evict _ => []
  | .clear => []

/-- The locations that the requests of a run ask for while they are not resident, in order. -/
def missed (sources : Nat → Source L) (c : Cache L) : List (Request L) → List L
  | [] => []
  | request :: rest =>
    request.missed c ++ missed sources (c.serve sources request).cache rest

/-- The cache after serving requests one after the other. -/
def after (sources : Nat → Source L) (c : Cache L) : List (Request L) → Cache L
  | [] => c
  | request :: rest => after sources (c.serve sources request).cache rest

variable {sources others : Nat → Source L}

theorem fetches_serve (sources : Nat → Source L) (c : Cache L) (request : Request L) :
    (c.serve sources request).cache.fetches = c.fetches + (request.missed c).length := by
  cases request with
  | get victim location =>
    rw [Request.missed]
    refine (accounts (sources c.fetches) victim location c).fetches.trans ?_
    split <;> rfl
  | evict location => exact alike_evict.fetches
  | clear => rfl

theorem fetches_after (c : Cache L) (requests : List (Request L)) :
    (c.after sources requests).fetches =
      c.fetches + (c.missed sources requests).length := by
  induction requests generalizing c with
  | nil => rfl
  | cons request rest ih =>
    rw [after, ih, fetches_serve, missed, List.length_append, Nat.add_assoc]

theorem serve_congr {request : Request L}
    (h : ∀ location ∈ request.missed c, others c.fetches location = sources c.fetches location) :
    c.serve others request = c.serve sources request := by
  cases request with
  | get victim location =>
    refine congrArg (Step.map Answer.outline) ?_
    have haccounts := accounts (sources c.fetches) victim location c
    by_cases hmem : location ∈ c.locations
    · exact haccounts.hit hmem _
    · refine haccounts.miss hmem _ (h location ?_)
      rw [Request.missed, if_neg hmem]
      exact List.mem_singleton_self location
  | evict location | clear => rfl

/-- **The course of a run.**  Sources that answer alike for what is asked lead to the same run. -/
theorem run_congr {requests : List (Request L)}
    (h : ∀ n location, (c.missed sources requests)[n]? = some location →
      others (c.fetches + n) location = sources (c.fetches + n) location) :
    c.run others requests = c.run sources requests := by
  induction requests generalizing c with
  | nil => rfl
  | cons request rest ih =>
    have hserve : c.serve others request = c.serve sources request := by
      refine serve_congr fun location hmem => h 0 location ?_
      -- A request misses one location at most, so what it misses is the first miss of the run.
      cases request with
      | get victim l =>
        rw [missed]
        rw [Request.missed] at hmem ⊢
        split at hmem
        · nomatch hmem
        · next hl =>
          rw [if_neg hl, List.mem_singleton.mp hmem]
          rfl
      | evict | clear => nomatch hmem
    rw [run, run, hserve]
    refine congrArg _ (ih fun n location hn => ?_)
    have hshift := h ((request.missed c).length + n) location (by
      rw [missed, List.getElem?_append_right (Nat.le_add_right ..), Nat.add_sub_cancel_left, hn])
    rwa [← Nat.add_assoc, ← fetches_serve sources] at hshift

/-! ### Outlines that stay -/

/-- What is resident after a request was resident before, or is new. -/
theorem mem_serve {request : Request L} {e : L × Held}
    (h : e ∈ (c.serve sources request).cache.entries) : e ∈ c.entries ∨ e.1 ∉ c.locations := by
  cases request with
  | get victim location =>
    change e ∈ (c.get (sources c.fetches) victim location).cache.entries at h
    rcases get_cases (sources c.fetches) victim location c with
      ⟨held, -, hget⟩ | ⟨-, error, -, hget⟩ | ⟨hfind, outline, -, hget⟩
    · rw [hget] at h
      exact .inl h
    · rw [hget] at h
      exact .inl h
    · rw [hget] at h
      rcases mem_keep h with h | rfl
      · exact .inl h
      · exact .inr (find?_eq_none_iff.mp hfind)
  | evict location => exact .inl (entries_evict_sublist.subset h)
  | clear => nomatch h

/-- An outline that is not dropped is not replaced either. -/
theorem Bounded.find?_serve (h : c.Bounded) (hfind : c.find? location = some held)
    {request : Request L} (hmem : location ∈ (c.serve sources request).cache.locations) :
    (c.serve sources request).cache.find? location = some held := by
  obtain ⟨e, he, rfl⟩ := List.mem_map.mp hmem
  have hbefore := mem_of_find? hfind
  rcases mem_serve he with hold | hnew
  · have heq : e = (e.1, held) := List.inj_on_of_nodup_map h.nodup hold hbefore rfl
    exact (h.serve sources request).find?_of_mem (heq ▸ he)
  · exact absurd (List.mem_map_of_mem hbefore) hnew

theorem Bounded.find?_after (h : c.Bounded) (hfind : c.find? location = some held)
    {requests : List (Request L)}
    (hstays : ∀ c' ∈ c.states sources requests, location ∈ c'.locations) :
    (c.after sources requests).find? location = some held := by
  induction requests generalizing c with
  | nil => exact hfind
  | cons request rest ih =>
    have hnext : ∀ c' ∈ (c.serve sources request).cache.states sources rest,
        location ∈ c'.locations := fun c' hc' => hstays c' (.tail _ hc')
    exact ih (h.serve sources request) (h.find?_serve hfind (hnext _ (.head _))) hnext

theorem not_mem_missed {requests : List (Request L)}
    (hstays : ∀ c' ∈ c.states sources requests, location ∈ c'.locations) :
    location ∉ c.missed sources requests := by
  induction requests generalizing c with
  | nil => exact List.not_mem_nil
  | cons request rest ih =>
    rw [missed, List.mem_append, not_or]
    refine ⟨?_, ih fun c' hc' => hstays c' (.tail _ hc')⟩
    have hmem : location ∈ c.locations := hstays c (.head _)
    cases request with
    | get victim l =>
      rw [Request.missed]
      split
      · exact List.not_mem_nil
      · next hl => exact fun h => hl (List.mem_singleton.mp h ▸ hmem)
    | evict | clear => exact List.not_mem_nil

/-- A successful request leaves its answer resident, if it leaves its location resident. -/
theorem Bounded.find?_get (h : c.Bounded) {source : Source L}
    (hanswer : (c.get source victim location).answer = .ok held)
    (hmem : location ∈ (c.get source victim location).cache.locations) :
    (c.get source victim location).cache.find? location = some held := by
  have hafter := h.get source victim location
  rcases get_cases source victim location c with
    ⟨found, hfind, hget⟩ | ⟨-, e, -, hget⟩ | ⟨hfind, outline, -, hget⟩
  · rw [hget] at hanswer ⊢
    cases hanswer
    exact hfind
  · rw [hget] at hanswer
    nomatch hanswer
  · obtain ⟨e, he, rfl⟩ := List.mem_map.mp hmem
    refine hafter.find?_of_mem ?_
    rw [hget] at hanswer he ⊢
    cases hanswer
    rcases mem_keep he with hold | hnew
    · exact absurd (List.mem_map_of_mem hold) (find?_eq_none_iff.mp hfind)
    · exact hnew ▸ he

/-! ### The account of a run -/

/-- **Accounting.**  In a run that begins with an empty cache, the source is asked once for each
request that finds its location not resident, and for that location.  From every cache of the run
on, each request keeps its account; and while the outline of a successful request stays resident,
its location is not asked for, and the next request for it is answered with the same outline. -/
theorem run_accounting (capacity : Nat) (sources : Nat → Source L) (requests : List (Request L)) :
    ((empty capacity).after sources requests).fetches =
        ((empty capacity).missed sources requests).length ∧
      (∀ others : Nat → Source L,
        (∀ n location, ((empty capacity).missed sources requests)[n]? = some location →
          others n location = sources n location) →
        (empty capacity).run others requests = (empty capacity).run sources requests) ∧
      ∀ c ∈ (empty capacity).states sources requests,
        (∀ source victim location, c.Accounts source victim location) ∧
        ∀ victim location held between,
          let first := c.get (sources c.fetches) victim location
          first.answer = .ok held →
          (∀ c' ∈ first.cache.states sources between, location ∈ c'.locations) →
          location ∉ first.cache.missed sources between ∧
            let last := first.cache.after sources between
            ∀ source victim, last.get source victim location =
              ⟨[.hit (LogText.text location)], .ok held, last⟩ := by
  refine ⟨?_, fun others h => run_congr fun n location hn => ?_, fun c hc =>
    ⟨fun source victim location => accounts source victim location c,
      fun victim location held between => ?_⟩⟩
  · exact (fetches_after (empty capacity) requests).trans (Nat.zero_add _)
  · rw [show (empty capacity).fetches + n = n from Nat.zero_add n]
    exact h n location hn
  · intro first hanswer hstays
    refine ⟨not_mem_missed hstays, ?_⟩
    obtain ⟨-, hbounded⟩ := bounded_of_mem_states hc
    have hfirst := hbounded.find?_get hanswer (hstays _ (.head _))
    have hlast := (hbounded.get _ victim location).find?_after hfirst hstays
    exact fun _ _ => get_of_hit hlast

end JvmOutline.Cache
