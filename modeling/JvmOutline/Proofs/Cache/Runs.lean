import JvmOutline.Cache
import Mathlib.Data.List.Forall2

/-!
# Runs of a cache

A run serves requests one after the other (`Cache.run`).  The source may answer differently each
time it is asked, so a run is given a source for each fetch, counted from the first one; and each
request for an outline brings its own choice of what is dropped to make room.

**Runs** (`Cache.forall₂_run`).  What each request keeps holds of every cache of a run
(`Cache.states`), and what each request answers from such a cache holds of every answer.
-/

namespace JvmOutline.Cache

variable {L : Type}

/-- The step with another answer. -/
def Step.map {α β : Type} (f : α → β) (step : Step L α) : Step L β :=
  ⟨step.log, f step.answer, step.cache⟩

/-- What a cache is asked for. -/
inductive Request (L : Type) where
  /-- The outline for a location; `victim` chooses what is dropped to make room for it. -/
  | get (victim : Victim L) (location : L)
  | evict (location : L)
  | clear

/-- What a request is answered. -/
inductive Answer where
  | outline (outcome : Except OutlineError Held)
  | evicted (found : Bool)
  | cleared

/-! ### What a look-up finds and erasing leaves -/

section

variable [DecidableEq L] {c : Cache L} {location : L}

theorem mem_of_find? {held : Held} (h : c.find? location = some held) :
    (location, held) ∈ c.entries := by
  obtain ⟨⟨l, _⟩, hfind, rfl⟩ := Option.map_eq_some_iff.mp h
  obtain rfl : l = location := by simpa using List.find?_some hfind
  exact List.mem_of_find?_eq_some hfind

theorem entries_erase_sublist : (c.erase location).entries.Sublist c.entries :=
  List.filter_sublist

end

/-! ### Serving requests -/

variable [DecidableEq L] [LogText L]

/-- Serves a request; `sources n` is what the fetch after `n` others asks. -/
def serve (sources : Nat → Source L) (c : Cache L) : Request L → Step L Answer
  | .get victim location => (c.get (sources c.fetches) victim location).map .outline
  | .evict location => (c.evict location).map .evicted
  | .clear => c.clear.map fun _ => .cleared

/-- The steps of serving requests one after the other. -/
def run (sources : Nat → Source L) (c : Cache L) : List (Request L) → List (Step L Answer)
  | [] => []
  | request :: rest =>
    let step := c.serve sources request
    step :: run sources step.cache rest

/-- The caches of a run: the first one, and the one after each request. -/
def states (sources : Nat → Source L) (c : Cache L) (requests : List (Request L)) :
    List (Cache L) :=
  c :: (c.run sources requests).map Step.cache

section

variable {sources : Nat → Source L} {I : Cache L → Prop} {R : Request L → Step L Answer → Prop}

/-- **Runs.**  If each request keeps an invariant and is answered rightly where the invariant
holds, then all requests of a run are, and the invariant holds throughout. -/
theorem forall₂_run
    (hserve : ∀ c request, I c →
      R request (c.serve sources request) ∧ I (c.serve sources request).cache)
    {c : Cache L} (hc : I c) (requests : List (Request L)) :
    List.Forall₂ R requests (c.run sources requests) ∧
      ∀ state ∈ c.states sources requests, I state := by
  induction requests generalizing c with
  | nil => exact ⟨.nil, List.forall_mem_singleton.mpr hc⟩
  | cons request rest ih =>
    obtain ⟨hanswer, hnext⟩ := hserve c request hc
    obtain ⟨hanswers, hstates⟩ := ih hnext
    exact ⟨.cons hanswer hanswers, List.forall_mem_cons.mpr ⟨hc, hstates⟩⟩

end

/-! ### The three ways of a request for an outline -/

variable {c : Cache L} {location : L}

section

variable {source : Source L} {victim : Victim L}

theorem get_of_hit {held : Held} (h : c.find? location = some held) :
    c.get source victim location = ⟨[.hit (LogText.text location)], .ok held, c⟩ := by
  rw [get, h]

theorem get_of_failure {e : OutlineError} (hfind : c.find? location = none)
    (h : (compute source location).result = .error e) :
    c.get source victim location =
      ⟨.miss (LogText.text location) :: (compute source location).log, .error e,
        { c with fetches := c.fetches + 1 }⟩ := by
  simp only [get, hfind, h]

theorem get_of_success {outline : ClassOutline} (hfind : c.find? location = none)
    (h : (compute source location).result = .ok outline) :
    c.get source victim location =
      let held : Held := ⟨outline, c.fetches + 1⟩
      let kept := { c with fetches := c.fetches + 1 }.keep victim location held
      ⟨.miss (LogText.text location) :: (compute source location).log ++ kept.log, .ok held,
        kept.cache⟩ := by
  simp only [get, hfind, h]

/-- A request is answered by what is resident, or fails, or leads to a new outline. -/
theorem get_cases (source : Source L) (victim : Victim L) (location : L) (c : Cache L) :
    (∃ held, c.find? location = some held ∧
      c.get source victim location = ⟨[.hit (LogText.text location)], .ok held, c⟩) ∨
    (c.find? location = none ∧ ∃ e, (compute source location).result = .error e ∧
      c.get source victim location =
        ⟨.miss (LogText.text location) :: (compute source location).log, .error e,
          { c with fetches := c.fetches + 1 }⟩) ∨
    (c.find? location = none ∧ ∃ outline, (compute source location).result = .ok outline ∧
      c.get source victim location =
        let held : Held := ⟨outline, c.fetches + 1⟩
        let kept := { c with fetches := c.fetches + 1 }.keep victim location held
        ⟨.miss (LogText.text location) :: (compute source location).log ++ kept.log, .ok held,
          kept.cache⟩) := by
  cases hfind : c.find? location with
  | some held => exact .inl ⟨held, rfl, get_of_hit hfind⟩
  | none =>
    cases hcompute : (compute source location).result with
    | error e => exact .inr (.inl ⟨rfl, e, rfl, get_of_failure hfind hcompute⟩)
    | ok outline => exact .inr (.inr ⟨rfl, outline, rfl, get_of_success hfind hcompute⟩)

end

/-! ### What an operation leaves of the entries -/

theorem entries_evict_sublist : (c.evict location).cache.entries.Sublist c.entries := by
  unfold evict
  split
  · exact entries_erase_sublist
  · exact .refl _

/-- Making room only drops entries, whichever are chosen. -/
theorem entries_makeRoomWithin_sublist (victim : Victim L) (rounds : Nat) (c : Cache L) :
    (makeRoomWithin victim location rounds c).cache.entries.Sublist c.entries := by
  induction rounds generalizing c with
  | zero => exact .refl _
  | succ rounds ih =>
    unfold makeRoomWithin
    split
    · split
      · exact .refl _
      · exact (ih _).trans entries_evict_sublist
    · exact .refl _

theorem entries_makeRoom_sublist (victim : Victim L) :
    (c.makeRoom victim location).cache.entries.Sublist c.entries :=
  entries_makeRoomWithin_sublist victim _ c

/-- What is resident after an outline is kept was resident before, or is the outline. -/
theorem mem_keep {victim : Victim L} {held : Held} {e : L × Held}
    (h : e ∈ (c.keep victim location held).cache.entries) :
    e ∈ c.entries ∨ e = (location, held) := by
  unfold keep at h
  split at h
  · exact .inl h
  · rcases List.mem_append.mp h with h | h
    · exact .inl ((entries_makeRoom_sublist victim).subset (entries_erase_sublist.subset h))
    · exact .inr (List.mem_singleton.mp h)

end JvmOutline.Cache
