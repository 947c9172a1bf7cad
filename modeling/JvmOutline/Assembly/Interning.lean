import JvmOutline.Pool.Basic

/-!
# Interning — a pool without duplicates

While a class is assembled, its constants are asked for one by one.  A constant that is already in
the pool keeps its index, and a new one is put at the end (`Pool.intern`).  A class or a string
refers to its text, so the text is asked for first.
-/

namespace JvmOutline

/-- A computation that asks for constants. -/
abbrev Interning := StateM Pool

namespace Pool

/-- Puts an entry at the end; a wide one takes two slots. -/
def push (pool : Pool) (e : Entry) : Pool :=
  if e.isWide then ⟨(pool.entries.push e).push .unusable⟩ else ⟨pool.entries.push e⟩

/-- The index of an entry, which is put at the end if the pool does not hold it. -/
def intern (e : Entry) : Interning UInt16 := fun pool =>
  match pool.entries.findIdx? (· = e) with
  | some i => (.ofNat (i + 1), pool)
  | none => (.ofNat (pool.size + 1), pool.push e)

/-- The index of a text. -/
def internText (text : String) : Interning UInt16 := intern (.utf8 text)

/-- The index of a class. -/
def internClass (name : String) : Interning UInt16 := do
  intern (.classRef (← internText name))

/-- The index of a string. -/
def internString (text : String) : Interning UInt16 := do
  intern (.string (← internText text))

/-- The index of what `internName` asks for, or 0 for nothing. -/
def internOptional (internName : String → Interning UInt16) : Option String → Interning UInt16
  | some name => internName name
  | none => return 0

end Pool

end JvmOutline
