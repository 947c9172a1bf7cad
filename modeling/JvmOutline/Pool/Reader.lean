import JvmOutline.Pool.Basic
import JvmOutline.Reader
import JvmOutline.Text.ModifiedUtf8

/-!
# Reading a constant pool

An entry is a tag byte and the fields that the tag announces.  The pool is preceded by a count
that is one more than the number of its slots; a count of 0 announces no slot, as a count of 1
does.

A wide entry also fills the slot after its own, and so it does at the end of the table: there it
adds a slot that was not announced.
-/

namespace JvmOutline

/-- An entry: a tag and the fields that it announces. -/
def Entry.reader : Reader Entry := do
  let tag ← Reader.u1
  match tag.toNat with
  | 1 => do
    let length ← Reader.u2
    return .utf8 (ModifiedUtf8.decode (← Reader.take length.toNat))
  | 3 => return .integer (← Reader.u4).toInt32
  | 4 => return .float (← Reader.u4)
  | 5 => return .long (← Reader.u8).toInt64
  | 6 => return .double (← Reader.u8)
  | 7 => return .classRef (← Reader.u2)
  | 8 => return .string (← Reader.u2)
  | 9 => return .fieldRef (← Reader.u2) (← Reader.u2)
  | 10 => return .methodRef (← Reader.u2) (← Reader.u2)
  | 11 => return .interfaceMethodRef (← Reader.u2) (← Reader.u2)
  | 12 => return .nameAndType (← Reader.u2) (← Reader.u2)
  | 15 => return .methodHandle (← Reader.u1) (← Reader.u2)
  | 16 => return .methodType (← Reader.u2)
  | 17 => return .dynamic (← Reader.u2) (← Reader.u2)
  | 18 => return .invokeDynamic (← Reader.u2) (← Reader.u2)
  | 19 => return .moduleRef (← Reader.u2)
  | 20 => return .packageRef (← Reader.u2)
  | _ => Reader.fail (.unknownEntryTag tag)

namespace Pool

/-- Fills the next `n` slots after those of `filled`; `half` says that a wide entry has taken the
first of them. -/
def slotsFrom (filled : Array Entry) (half : Bool) : Nat → Reader (Array Entry)
  | 0 => pure (if half then filled.push .unusable else filled)
  | n + 1 =>
    if half then slotsFrom (filled.push .unusable) false n
    else do
      let entry ← Entry.reader
      slotsFrom (filled.push entry) entry.isWide n

/-- A pool: its count, then its entries. -/
def reader : Reader Pool := do
  let count ← Reader.u2
  return ⟨← slotsFrom #[] false (count.toNat - 1)⟩

end Pool

end JvmOutline
