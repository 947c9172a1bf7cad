import JvmOutline.ClassFile.Basic
import JvmOutline.Pool.Reader

/-!
# Reading a class file

A class file is read front to back: magic number, version, constant pool, header, interfaces,
fields, methods and attributes, each table preceded by its count.  No index is looked up, and no
attribute is interpreted.  `ClassFile.parse` reads one class file from the front of a byte string
and disregards what follows it.
-/

namespace JvmOutline

/-- An attribute: the index of its name, the length of its body in four bytes, and the body. -/
def RawAttribute.reader : Reader RawAttribute := do
  let name ← Reader.u2
  let length ← Reader.u4
  return ⟨name, ← Reader.takeOr .shortBody length.toNat⟩

/-- A field or method. -/
def RawMember.reader : Reader RawMember := do
  let flags ← Reader.u2
  let name ← Reader.u2
  let descriptor ← Reader.u2
  return ⟨⟨flags⟩, name, descriptor, ← Reader.counted2 RawAttribute.reader⟩

namespace ClassFile

/-- The magic number. -/
def magicReader : Reader Unit := do
  let found ← Reader.u4
  if found = magic then pure () else Reader.fail (.wrongMagic found)

/-- A class file. -/
def reader : Reader ClassFile := do
  magicReader
  let minor ← Reader.u2
  let major ← Reader.u2
  let pool ← Pool.reader
  let flags ← Reader.u2
  let thisClass ← Reader.u2
  let superClass ← Reader.u2
  let interfaces ← Reader.counted2 Reader.u2
  let fields ← Reader.counted2 RawMember.reader
  let methods ← Reader.counted2 RawMember.reader
  let attributes ← Reader.counted2 RawAttribute.reader
  return { major, minor, pool, flags := ⟨flags⟩, thisClass, superClass, interfaces, fields, methods,
           attributes }

/-- The class file at the front of a byte string. -/
def parse (bytes : Bytes) : Except FormatError ClassFile :=
  match reader.run bytes with
  | .ok (file, _) => .ok file
  | .error e => .error e

end ClassFile

end JvmOutline
