import JvmOutline.AccessFlags
import JvmOutline.Bytes
import JvmOutline.Pool.Basic
import JvmOutline.Text.Shown

/-!
# Class files — the tables as they are stored

A class file holds a constant pool and tables that refer to it by index.  Attributes are kept as
bytes here: what they say depends on their names, which are in the pool.
-/

namespace JvmOutline

/-- An attribute as stored: the index of its name, and its body. -/
structure RawAttribute where
  name : UInt16
  body : Bytes
  deriving DecidableEq

/-- A field or method as stored. -/
structure RawMember where
  flags : AccessFlags
  name : UInt16
  descriptor : UInt16
  attributes : List RawAttribute
  deriving DecidableEq

/-- A class file as stored. -/
structure ClassFile where
  major : UInt16
  minor : UInt16
  pool : Pool
  flags : AccessFlags
  thisClass : UInt16
  superClass : UInt16
  interfaces : List UInt16
  fields : List RawMember
  methods : List RawMember
  attributes : List RawAttribute

/-- The first four bytes of every class file, as a number. -/
def ClassFile.magic : UInt32 := 0xCAFEBABE

/-- The text that shows a stored attribute, its body by the number of bytes only. -/
def RawAttribute.describe (a : RawAttribute) : String :=
  recordText "Attribute" [("attribute_name_index", toString a.name.toNat),
    ("info", quoted ("(" ++ toString a.body.length ++ " bytes)"))]

end JvmOutline
