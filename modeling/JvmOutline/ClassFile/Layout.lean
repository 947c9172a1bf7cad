import JvmOutline.ClassFile.Basic

/-!
# The layout of a class file

`ClassFile.layout` writes a class file as bytes: every table is preceded by its count, every
attribute body by its length, and numbers are big-endian.  Texts are spelled by a function that is
left open, since one text has several spellings.

A count is written in the bytes that it has, so a table that is too long for its count is written
with a count that is too small.
-/

namespace JvmOutline

/-- The number of items of a list, in two bytes. -/
def count2 {α : Type} (items : List α) : Bytes := Bytes.u2 (.ofNat items.length)

/-- The number of items of a list, in one byte. -/
def count1 {α : Type} (items : List α) : Bytes := Bytes.u1 (.ofNat items.length)

/-- The bytes of an entry; the second slot of a wide entry has none. -/
def Entry.layout (spell : String → Bytes) : Entry → Bytes
  | utf8 text => 1 :: count2 (spell text) ++ spell text
  | integer value => 3 :: Bytes.u4 value.toUInt32
  | float bits => 4 :: Bytes.u4 bits
  | long value => 5 :: Bytes.u8 value.toUInt64
  | double bits => 6 :: Bytes.u8 bits
  | classRef name => 7 :: Bytes.u2 name
  | string text => 8 :: Bytes.u2 text
  | fieldRef owner nat => 9 :: Bytes.u2 owner ++ Bytes.u2 nat
  | methodRef owner nat => 10 :: Bytes.u2 owner ++ Bytes.u2 nat
  | interfaceMethodRef owner nat => 11 :: Bytes.u2 owner ++ Bytes.u2 nat
  | nameAndType name descriptor => 12 :: Bytes.u2 name ++ Bytes.u2 descriptor
  | methodHandle kind target => 15 :: kind :: Bytes.u2 target
  | methodType descriptor => 16 :: Bytes.u2 descriptor
  | dynamic bootstrap nat => 17 :: Bytes.u2 bootstrap ++ Bytes.u2 nat
  | invokeDynamic bootstrap nat => 18 :: Bytes.u2 bootstrap ++ Bytes.u2 nat
  | moduleRef name => 19 :: Bytes.u2 name
  | packageRef name => 20 :: Bytes.u2 name
  | unusable => []

/-- The bytes of a pool: one more than the number of slots, then the entries. -/
def Pool.layout (spell : String → Bytes) (pool : Pool) : Bytes :=
  Bytes.u2 (.ofNat (pool.size + 1)) ++ pool.entries.toList.flatMap (Entry.layout spell)

/-- The bytes of an attribute. -/
def RawAttribute.layout (a : RawAttribute) : Bytes :=
  Bytes.u2 a.name ++ Bytes.u4 (.ofNat a.body.length) ++ a.body

/-- The bytes of a table of attributes. -/
def RawAttribute.layoutAll (as : List RawAttribute) : Bytes :=
  count2 as ++ as.flatMap layout

/-- The bytes of a field or method. -/
def RawMember.layout (m : RawMember) : Bytes :=
  Bytes.u2 m.flags.bits ++ Bytes.u2 m.name ++ Bytes.u2 m.descriptor ++
    RawAttribute.layoutAll m.attributes

/-- The bytes of a table of fields or methods. -/
def RawMember.layoutAll (ms : List RawMember) : Bytes := count2 ms ++ ms.flatMap layout

/-- The bytes of a class file. -/
def ClassFile.layout (spell : String → Bytes) (file : ClassFile) : Bytes :=
  Bytes.u4 magic ++ Bytes.u2 file.minor ++ Bytes.u2 file.major ++ file.pool.layout spell ++
    Bytes.u2 file.flags.bits ++ Bytes.u2 file.thisClass ++ Bytes.u2 file.superClass ++
    count2 file.interfaces ++ file.interfaces.flatMap Bytes.u2 ++
    RawMember.layoutAll file.fields ++ RawMember.layoutAll file.methods ++
    RawAttribute.layoutAll file.attributes

end JvmOutline
