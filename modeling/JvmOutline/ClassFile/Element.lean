import JvmOutline.Attribute.Reader

/-!
# Elements — a class file as a stream

`ClassFile.elements` presents a class file as the stream of its parts in file order, with every
name resolved and every attribute decoded: access flags, superclass if there is one, interfaces,
fields, methods, class attributes.  A field or method carries a stream of its own.

A stream can also be made by hand.  Nothing in its type keeps it from repeating parts that a
class file holds once.

The stream is composed of the accessors `ClassFile.superName`, `ClassFile.interfaceNames`,
`RawMember.nameIn`, `RawMember.descriptorIn` and `RawAttribute.decode`; it fails as soon as one of
them does.
-/

namespace JvmOutline

/-- A part of a field or method. -/
inductive MemberElement where
  | flags (flags : AccessFlags)
  | attr (a : Attribute)

/-- A field or method: its name, its descriptor and the stream of its parts. -/
structure Member where
  name : String
  descriptor : String
  elements : List MemberElement

/-- A part of a class. -/
inductive Element where
  | flags (flags : AccessFlags)
  /-- The internal name of the superclass. -/
  | superclass (name : String)
  /-- The internal names of the interfaces. -/
  | interfaces (names : List String)
  | field (f : Member)
  | method (m : Member)
  | attr (a : Attribute)

namespace RawMember

/-- The name of a field or method. -/
def nameIn (m : RawMember) (pool : Pool) : Except FormatError String := pool.utf8 m.name

/-- The descriptor of a field or method. -/
def descriptorIn (m : RawMember) (pool : Pool) : Except FormatError String :=
  pool.utf8 m.descriptor

/-- A field or method with its stream: its flags, then its attributes in order. -/
def resolve (pool : Pool) (m : RawMember) : Except FormatError Member := do
  let name ← m.nameIn pool
  let descriptor ← m.descriptorIn pool
  let attributes ← m.attributes.mapM (RawAttribute.decode pool)
  return ⟨name, descriptor, .flags m.flags :: attributes.map .attr⟩

end RawMember

namespace ClassFile

/-- The internal name of the class. -/
def className (file : ClassFile) : Except FormatError String := file.pool.className file.thisClass

/-- The internal name of the superclass; index 0 stands for none. -/
def superName (file : ClassFile) : Except FormatError (Option String) :=
  file.pool.optionalClassName file.superClass

/-- The internal names of the interfaces. -/
def interfaceNames (file : ClassFile) : Except FormatError (List String) :=
  file.interfaces.mapM file.pool.className

/-- The stream of a class file. -/
def elements (file : ClassFile) : Except FormatError (List Element) := do
  let superName ← file.superName
  let interfaces ← file.interfaceNames
  let fields ← file.fields.mapM (RawMember.resolve file.pool)
  let methods ← file.methods.mapM (RawMember.resolve file.pool)
  let attributes ← file.attributes.mapM (RawAttribute.decode file.pool)
  return .flags file.flags :: superName.toList.map .superclass ++ .interfaces interfaces ::
    fields.map .field ++ methods.map .method ++ attributes.map .attr

end ClassFile

end JvmOutline
