import JvmOutline.Proofs.Cache.Runs

/-!
# A cache is transparent

Without a cache, the outline for a location comes from the bytes that the source has for it
(`Source.outlineAt`).  A cache over a source that always answers the same changes nothing in that:
in every run, whatever is dropped and whenever, each request for an outline is answered as without
the cache (**`Cache.run_transparent`**).

The invariant is that each resident outline is the one that its own location has without the cache
(`Cache.Faithful`).  Dropping entries keeps it, and only an outline that was just computed is added.
-/

namespace JvmOutline

variable {L : Type}

/-- The outline for a location without a cache: the failure of the source, or what comes of the
bytes. -/
def Source.outlineAt (source : Source L) (location : L) : Except OutlineError ClassOutline :=
  match source location with
  | .error reason => .error (.unreadable reason)
  | .ok bytes => (ClassOutline.ofBytes bytes).result

namespace Cache

variable {source : Source L} {c : Cache L} {location : L}

theorem result_compute : (compute source location).result = source.outlineAt location := by
  unfold compute Source.outlineAt
  cases source location <;> rfl

/-- Each resident outline is the one that its location has without the cache. -/
def Faithful (source : Source L) (c : Cache L) : Prop :=
  ∀ e ∈ c.entries, source.outlineAt e.1 = .ok e.2.outline

/-- The request is answered as without the cache. -/
def Request.AnsweredBy (source : Source L) : Request L → Answer → Prop
  | .get _ location, .outline outcome => outcome.map Held.outline = source.outlineAt location
  | .evict _, .evicted _ => True
  | .clear, .cleared => True
  | _, _ => False

variable [DecidableEq L] [LogText L]

/-- A request for an outline is answered as without the cache, and what it leaves resident is
right. -/
theorem Faithful.get (h : c.Faithful source) (victim : Victim L) :
    (c.get source victim location).answer.map Held.outline = source.outlineAt location ∧
      (c.get source victim location).cache.Faithful source := by
  rw [← result_compute]
  cases hfind : c.find? location with
  | some held =>
    rw [get_of_hit hfind, result_compute]
    exact ⟨(h _ (mem_of_find? hfind)).symm, h⟩
  | none =>
    cases hcompute : (compute source location).result with
    | error e =>
      rw [get_of_failure hfind hcompute]
      exact ⟨rfl, h⟩
    | ok outline =>
      rw [get_of_success hfind hcompute]
      refine ⟨rfl, fun e he => ?_⟩
      rcases mem_keep he with he | rfl
      · exact h e he
      · exact result_compute.symm.trans hcompute

theorem Faithful.serve (h : c.Faithful source) (request : Request L) :
    request.AnsweredBy source (c.serve (fun _ => source) request).answer ∧
      (c.serve (fun _ => source) request).cache.Faithful source := by
  cases request with
  | get victim location => exact h.get victim
  | evict location => exact ⟨trivial, fun e he => h e (entries_evict_sublist.subset he)⟩
  | clear => exact ⟨trivial, nofun⟩

/-- **Transparency.**  In a run that begins with the empty cache of any capacity, each request for
an outline is answered as without the cache, and each resident outline is at all times the one that
its own location has without the cache. -/
theorem run_transparent (capacity : Nat) (source : Source L) (requests : List (Request L)) :
    List.Forall₂ (fun request step => request.AnsweredBy source step.answer) requests
        ((empty capacity).run (fun _ => source) requests) ∧
      ∀ state ∈ (empty capacity).states (fun _ => source) requests,
        ∀ e ∈ state.entries, source.outlineAt e.1 = .ok e.2.outline :=
  forall₂_run (I := Faithful source)
    (R := fun request step => request.AnsweredBy source step.answer)
    (fun _ request h => h.serve request) (fun _ he => absurd he List.not_mem_nil) requests

end Cache

end JvmOutline
