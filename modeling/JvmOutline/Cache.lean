import JvmOutline.Outline.Class
import JvmOutline.Source.Basic

/-!
# The cache — outlines by location

A cache keeps the outlines that were asked for, up to a capacity.  `Cache.get` answers from the
cache if it can, and otherwise fetches the bytes and outlines them; only a success is kept, and
room is made for it only then.  `Cache.evict` and `Cache.clear` drop outlines.

What a location is, is left open, as long as locations can be told apart and have a text in the log.
Which outline has to go when the cache is full is left open as well: it is the choice of a `Victim`.

A cache counts its fetches, and an outline carries the number of the fetch that it comes from
(`Held.fetch`).  So two answers come from one fetch exactly when their numbers are equal.
-/

namespace JvmOutline

/-- An outline, and the number of the fetch that it comes from. -/
structure Held where
  outline : ClassOutline
  fetch : Nat

/-- A choice among resident locations: a number that selects one of them, counted around. -/
abbrev Victim (L : Type) := List L → Nat

namespace Victim

variable {L : Type}

/-- The location that has been resident longest. -/
def oldest : Victim L := fun _ => 0

/-- The chosen location, if any is resident. -/
def choose? (v : Victim L) (locations : List L) : Option L :=
  locations[v locations % locations.length]?

end Victim

/-- A cache: its capacity, what is resident in the order of arrival, and the fetches so far.  The
locations are names where nothing else is said. -/
structure Cache (L : Type := String) where
  capacity : Nat
  entries : List (L × Held)
  fetches : Nat

namespace Cache

variable {L : Type}

/-- The capacity of a cache for which none is given. -/
def defaultCapacity : Nat := 4096

/-- The cache in which nothing is resident. -/
def empty (capacity : Nat) : Cache L := ⟨capacity, [], 0⟩

/-- The number of resident outlines. -/
def size (c : Cache L) : Nat := c.entries.length

/-- Whether nothing is resident. -/
def isEmpty (c : Cache L) : Bool := c.entries.isEmpty

/-- The resident locations. -/
def locations (c : Cache L) : List L := c.entries.map Prod.fst

/-- What an operation reports and answers, and the cache after it. -/
structure Step (L α : Type) where
  log : List LogEvent
  answer : α
  cache : Cache L

/-- Drops every outline. -/
def clear (c : Cache L) : Step L Unit := ⟨[.clearing c.size], (), { c with entries := [] }⟩

/-- The outline for a location, from the bytes that a source has for it. -/
def compute (source : Source L) (location : L) : Logged ClassOutline := do
  let bytes ← Logged.check ((source location).mapError .unreadable)
  ClassOutline.ofBytes bytes

variable [DecidableEq L]

/-- The resident outline for a location. -/
def find? (c : Cache L) (location : L) : Option Held :=
  (c.entries.find? fun e => e.1 = location).map Prod.snd

/-- Whether an outline for a location is resident. -/
def contains (c : Cache L) (location : L) : Bool := (c.find? location).isSome

/-- The cache without a location. -/
def erase (c : Cache L) (location : L) : Cache L :=
  { c with entries := c.entries.filter fun e => e.1 ≠ location }

/-- The cache with an outline for a location, in place of an earlier one. -/
def insert (c : Cache L) (location : L) (held : Held) : Cache L :=
  { c with entries := (c.erase location).entries ++ [(location, held)] }

variable [LogText L]

/-- Drops the outline for a location and answers whether there was one. -/
def evict (c : Cache L) (location : L) : Step L Bool :=
  if c.contains location then ⟨[.evicted (LogText.text location)], true, c.erase location⟩
  else ⟨[], false, c⟩

/-- Drops chosen outlines, at most `rounds` of them, until there is room for `location`. -/
def makeRoomWithin (victim : Victim L) (location : L) : Nat → Cache L → Step L Unit
  | 0, c => ⟨[], (), c⟩
  | rounds + 1, c =>
    if c.capacity ≤ c.size ∧ !c.contains location then
      match victim.choose? c.locations with
      | none => ⟨[], (), c⟩
      | some chosen =>
        let dropped := c.evict chosen
        let rest := makeRoomWithin victim location rounds dropped.cache
        ⟨dropped.log ++ rest.log, (), rest.cache⟩
    else ⟨[], (), c⟩

/-- Drops chosen outlines until there is room for `location`.  Each round drops one, so there are
no more rounds than outlines. -/
def makeRoom (c : Cache L) (victim : Victim L) (location : L) : Step L Unit :=
  makeRoomWithin victim location c.size c

/-- Keeps an outline for a location, if the cache keeps any. -/
def keep (c : Cache L) (victim : Victim L) (location : L) (held : Held) : Step L Unit :=
  if c.capacity = 0 then ⟨[], (), c⟩
  else
    let room := c.makeRoom victim location
    ⟨room.log, (), room.cache.insert location held⟩

/-- The outline for a location: the resident one, or else a new one. -/
def get (c : Cache L) (source : Source L) (victim : Victim L) (location : L) :
    Step L (Except OutlineError Held) :=
  match c.find? location with
  | some held => ⟨[.hit (LogText.text location)], .ok held, c⟩
  | none =>
    let computed := compute source location
    let counted := { c with fetches := c.fetches + 1 }
    match computed.result with
    | .error e => ⟨.miss (LogText.text location) :: computed.log, .error e, counted⟩
    | .ok outline =>
      let held : Held := ⟨outline, counted.fetches⟩
      let kept := counted.keep victim location held
      ⟨.miss (LogText.text location) :: computed.log ++ kept.log, .ok held, kept.cache⟩

end Cache

end JvmOutline
