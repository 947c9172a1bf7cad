import JvmOutline.Pool.Entry

/-!
# Format errors — why bytes are no class file

Reading a class file can fail for the reasons that `FormatError` lists; `FormatError.message` is
the text of each.
-/

namespace JvmOutline

/-- The causes for which reading a class file fails. -/
inductive FormatError where
  /-- The input ends inside a number, a text or a table. -/
  | endOfInput
  /-- The input ends before an attribute's declared length. -/
  | shortBody
  /-- An index leads to an entry of another kind than the expected one. -/
  | wrongEntry (expected : EntryKind) (found : Entry)
  /-- An index leads to no entry. -/
  | noEntry (index : UInt16)
  /-- A byte begins no kind of constant. -/
  | unknownEntryTag (tag : UInt8)
  /-- The input does not begin as a class file does. -/
  | wrongMagic (found : UInt32)
  /-- A byte names no kind of place for a type annotation. -/
  | unknownTarget (tag : UInt8)
  /-- A byte begins no kind of annotation value. -/
  | unknownValueTag (tag : UInt8)
  /-- An attribute's body goes on after its contents. -/
  | trailingBytes (name : String)
  /-- Values are nested more deeply than the budget of the reader allows. -/
  | budgetSpent
  deriving DecidableEq

/-- The text of an error. -/
def FormatError.message : FormatError → String
  | endOfInput => "failed to fill whole buffer"
  | shortBody => "unexpected end of file"
  | wrongEntry expected found => "Expected " ++ expected.name ++ ", found " ++ found.describe
  | noEntry index => "Invalid constant pool index: " ++ toString index.toNat
  | unknownEntryTag tag => "Invalid cp info tag: " ++ toString tag.toNat
  | wrongMagic found => "Invalid magic identifier: 0x" ++ hexUpper found.toNat
  | unknownTarget tag => "Invalid type annotation target type: 0x" ++ hexUpper tag.toNat
  | unknownValueTag tag =>
    "Unknown element value tag: 0x" ++ (if tag < 16 then "0" else "") ++ hexUpper tag.toNat
  | trailingBytes name => "Attribute " ++ name ++ " is longer than its contents"
  | budgetSpent => "Values are nested too deeply"

end JvmOutline
