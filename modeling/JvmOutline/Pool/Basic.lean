import JvmOutline.FormatError

/-!
# The constant pool — looking entries up

A pool is a table of entries whose first index is 1.  `Pool.entry` looks an index up, and the
other look-ups ask for an entry of one kind: they fail when the index leads nowhere and when it
leads to an entry of another kind.  The optional look-ups read index 0 as "none".
-/

namespace JvmOutline

/-- A constant pool. -/
structure Pool where
  entries : Array Entry

namespace Pool

/-- The pool without entries. -/
def empty : Pool := ⟨#[]⟩

/-- The number of slots. -/
def size (pool : Pool) : Nat := pool.entries.size

/-- The entry at an index, if there is one. -/
def entry? (pool : Pool) (index : UInt16) : Option Entry :=
  if index = 0 then none else pool.entries[index.toNat - 1]?

/-- The entry at an index. -/
def entry (pool : Pool) (index : UInt16) : Except FormatError Entry :=
  match pool.entry? index with
  | some e => .ok e
  | none => .error (.noEntry index)

/-- What `pick` takes from the entry at an index; the entry has to be of the kind for which `pick`
has an answer. -/
def expect {α : Type} (pool : Pool) (kind : EntryKind) (pick : Entry → Option α) (index : UInt16) :
    Except FormatError α :=
  match pool.entry index with
  | .error e => .error e
  | .ok found =>
    match pick found with
    | some a => .ok a
    | none => .error (.wrongEntry kind found)

/-- The text at an index. -/
def utf8 (pool : Pool) : UInt16 → Except FormatError String :=
  pool.expect .utf8 fun | .utf8 text => some text | _ => none

/-- The whole number of 32 bits at an index. -/
def integer (pool : Pool) : UInt16 → Except FormatError Int32 :=
  pool.expect .integer fun | .integer value => some value | _ => none

/-- The floating-point number of 32 bits at an index. -/
def float (pool : Pool) : UInt16 → Except FormatError UInt32 :=
  pool.expect .float fun | .float bits => some bits | _ => none

/-- The whole number of 64 bits at an index. -/
def long (pool : Pool) : UInt16 → Except FormatError Int64 :=
  pool.expect .long fun | .long value => some value | _ => none

/-- The floating-point number of 64 bits at an index. -/
def double (pool : Pool) : UInt16 → Except FormatError UInt64 :=
  pool.expect .double fun | .double bits => some bits | _ => none

/-- The index of the name of the class entry at an index. -/
def classRef (pool : Pool) : UInt16 → Except FormatError UInt16 :=
  pool.expect .classRef fun | .classRef name => some name | _ => none

/-- The internal name of the class at an index. -/
def className (pool : Pool) (index : UInt16) : Except FormatError String := do
  pool.utf8 (← pool.classRef index)

/-- The text at an index, or none at index 0. -/
def optionalUtf8 (pool : Pool) (index : UInt16) : Except FormatError (Option String) :=
  if index = 0 then .ok none else some <$> pool.utf8 index

/-- The internal name of the class at an index, or none at index 0. -/
def optionalClassName (pool : Pool) (index : UInt16) : Except FormatError (Option String) :=
  if index = 0 then .ok none else some <$> pool.className index

/-! ### When a look-up fails -/

theorem entry_eq_ok_iff {pool : Pool} {index : UInt16} {e : Entry} :
    pool.entry index = .ok e ↔ pool.entry? index = some e := by
  unfold entry
  split <;> simp_all

theorem expect_eq_ok_iff {α : Type} {pool : Pool} {kind : EntryKind} {pick : Entry → Option α}
    {index : UInt16} {a : α} :
    pool.expect kind pick index = .ok a ↔ ∃ e, pool.entry? index = some e ∧ pick e = some a := by
  unfold expect entry
  cases pool.entry? index with
  | none => simp
  | some e => cases h : pick e <;> simp [h]

end Pool

end JvmOutline
