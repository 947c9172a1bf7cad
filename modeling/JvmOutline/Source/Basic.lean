import JvmOutline.Bytes

/-!
# Sources — where class files come from

A source answers a location with the bytes of a class file, or with the reason why it has none.
What a location is, is left open.  `MemorySource` is a table of names; its newest row for a location
counts.
-/

namespace JvmOutline

/-- What answers a location with bytes or a reason. -/
abbrev Source (L : Type) := L → Except String Bytes

/-- A table of locations and answers. -/
structure MemorySource where
  rows : List (String × Except String Bytes)

namespace MemorySource

/-- The answer for a location; one without a row is not found. -/
def fetch (s : MemorySource) : Source String := fun location =>
  match s.rows.find? fun row => row.1 = location with
  | some (_, answer) => answer
  | none => .error ("not found: " ++ location)

/-- Gives a location an answer. -/
def set (s : MemorySource) (location : String) (answer : Except String Bytes) : MemorySource :=
  ⟨(location, answer) :: s.rows.filter fun row => row.1 ≠ location⟩

/-- Takes the answer of a location away. -/
def remove (s : MemorySource) (location : String) : MemorySource :=
  ⟨s.rows.filter fun row => row.1 ≠ location⟩

end MemorySource

end JvmOutline
