import JvmOutline.Assembly.Draft
import JvmOutline.Assembly.Interning
import JvmOutline.Attribute.Basic
import JvmOutline.ClassFile.Layout
import JvmOutline.Text.Utf8

/-!
# Assembling a class file

`ClassDraft.assemble` turns a draft into bytes.  The constants of the draft are interned in the
order in which they are met: header, interfaces, fields, methods and attributes, and the contents
of an attribute before its name.  The pool that results stands in front of all that refers to it.

Texts are spelled in UTF-8.
-/

namespace JvmOutline

/-! ### Annotations -/

/-- The tag of an element value, as a byte. -/
def ElementValue.tagByte (tag : Char) : UInt8 := .ofNat tag.toNat

/-- A tag and an index. -/
def tagAndIndex (tag : Char) (index : UInt16) : Bytes :=
  ElementValue.tagByte tag :: Bytes.u2 index

mutual

/-- The bytes of a value. -/
def ValueDraft.write : ValueDraft → Interning Bytes
  | .boolean value => tagAndIndex 'Z' <$> Pool.intern (.integer (if value then 1 else 0))
  | .byte value => tagAndIndex 'B' <$> Pool.intern (.integer value.toInt32)
  | .char unit => tagAndIndex 'C' <$> Pool.intern (.integer unit.toUInt32.toInt32)
  | .short value => tagAndIndex 'S' <$> Pool.intern (.integer value.toInt32)
  | .int value => tagAndIndex 'I' <$> Pool.intern (.integer value)
  | .long value => tagAndIndex 'J' <$> Pool.intern (.long value)
  | .float bits => tagAndIndex 'F' <$> Pool.intern (.float bits)
  | .double bits => tagAndIndex 'D' <$> Pool.intern (.double bits)
  | .string text => tagAndIndex 's' <$> Pool.internText text
  | .classLit descriptor => tagAndIndex 'c' <$> Pool.internText descriptor
  | .enumConst descriptor constant => do
    let descriptor ← Pool.internText descriptor
    let constant ← Pool.internText constant
    return tagAndIndex 'e' descriptor ++ Bytes.u2 constant
  | .annot a => do
    return ElementValue.tagByte '@' :: (← a.write)
  | .array values => do
    return ElementValue.tagByte '[' :: count2 values ++ (← ValueDraft.writeList values)
  | .indexed tag index => return tag :: Bytes.u2 index
  | .bare tag => return [tag]

/-- The bytes of an annotation. -/
def AnnotDraft.write : AnnotDraft → Interning Bytes
  | ⟨descriptor, members⟩ => do
    let descriptor ← Pool.internText descriptor
    return Bytes.u2 descriptor ++ count2 members ++ (← ValueDraft.writeMembers members)

/-- The bytes of members. -/
def ValueDraft.writeMembers : List (String × ValueDraft) → Interning Bytes
  | [] => return []
  | (name, value) :: rest => do
    let name ← Pool.internText name
    let value ← value.write
    return Bytes.u2 name ++ value ++ (← ValueDraft.writeMembers rest)

/-- The bytes of values. -/
def ValueDraft.writeList : List ValueDraft → Interning Bytes
  | [] => return []
  | value :: rest => do
    let value ← value.write
    return value ++ (← ValueDraft.writeList rest)

end

/-- The bytes of a list: its count, then each item. -/
def writeCounted {α : Type} (write : α → Interning Bytes) (items : List α) : Interning Bytes := do
  return count2 items ++ (← items.mapM write).flatten

/-- The bytes of the annotations of parameters. -/
def AnnotDraft.writeParameters (as : List (List AnnotDraft)) : Interning Bytes := do
  return count1 as ++ (← as.mapM (writeCounted AnnotDraft.write)).flatten

/-- The bytes of a type annotation. -/
def TypeAnnotDraft.write (a : TypeAnnotDraft) : Interning Bytes := do
  let path := a.path.flatMap fun (kind, index) => [kind, index]
  return a.target :: a.info ++ count1 a.path ++ path ++ (← a.annot.write)

/-! ### Parameters, nested classes, constants -/

/-- The bytes of the index of a class. -/
def writeClass (name : String) : Interning Bytes := Bytes.u2 <$> Pool.internClass name

/-- The bytes of a formal parameter. -/
def writeParameter : Option String × AccessFlags → Interning Bytes
  | (name, flags) => do
    return Bytes.u2 (← Pool.internOptional Pool.internText name) ++ Bytes.u2 flags.bits

/-- The bytes of a row of the table of nested classes. -/
def InnerClassDraft.write (row : InnerClassDraft) : Interning Bytes := do
  let inner ← Pool.internClass row.inner
  let outer ← Pool.internOptional Pool.internClass row.outer
  let simpleName ← Pool.internOptional Pool.internText row.simpleName
  return Bytes.u2 inner ++ Bytes.u2 outer ++ Bytes.u2 simpleName ++ Bytes.u2 row.flags.bits

/-- The index of the constant of a field. -/
def ConstantDraft.intern : ConstantDraft → Interning UInt16
  | int value => Pool.intern (.integer value)
  | long value => Pool.intern (.long value)
  | float bits => Pool.intern (.float bits)
  | double bits => Pool.intern (.double bits)
  | string text => Pool.internString text
  | classRef name => Pool.internClass name

/-! ### Attributes -/

/-- The name under which an attribute is stored. -/
def AttributeDraft.name : AttributeDraft → String
  | .signature _ => AttributeKind.signature.name
  | .exceptions _ => AttributeKind.exceptions.name
  | .permittedSubclasses _ => AttributeKind.permittedSubclasses.name
  | .constant _ => AttributeKind.constantValue.name
  | .visibleAnnots _ => (AttributeKind.annots .visible).name
  | .invisibleAnnots _ => (AttributeKind.annots .invisible).name
  | .visibleParameterAnnots _ => (AttributeKind.parameterAnnots .visible).name
  | .invisibleParameterAnnots _ => (AttributeKind.parameterAnnots .invisible).name
  | .visibleTypeAnnots _ => (AttributeKind.typeAnnots .visible).name
  | .invisibleTypeAnnots _ => (AttributeKind.typeAnnots .invisible).name
  | .annotDefault _ => AttributeKind.annotDefault.name
  | .methodParameters _ => AttributeKind.methodParameters.name
  | .innerClasses _ => AttributeKind.innerClasses.name
  | .record _ => AttributeKind.record.name
  | .raw name _ => name

mutual

/-- The contents of an attribute. -/
def AttributeDraft.contents : AttributeDraft → Interning Bytes
  | .signature text => Bytes.u2 <$> Pool.internText text
  | .exceptions names => writeCounted writeClass names
  | .permittedSubclasses names => writeCounted writeClass names
  | .constant c => Bytes.u2 <$> c.intern
  | .visibleAnnots as => writeCounted AnnotDraft.write as
  | .invisibleAnnots as => writeCounted AnnotDraft.write as
  | .visibleParameterAnnots as => AnnotDraft.writeParameters as
  | .invisibleParameterAnnots as => AnnotDraft.writeParameters as
  | .visibleTypeAnnots as => writeCounted TypeAnnotDraft.write as
  | .invisibleTypeAnnots as => writeCounted TypeAnnotDraft.write as
  | .annotDefault value => value.write
  | .methodParameters ps => do
    return count1 ps ++ (← ps.mapM writeParameter).flatten
  | .innerClasses rows => writeCounted InnerClassDraft.write rows
  | .record components => do
    return count2 components ++ (← ComponentDraft.writeList components)
  | .raw _ body => return body

/-- The bytes of record components. -/
def ComponentDraft.writeList : List ComponentDraft → Interning Bytes
  | [] => return []
  | ⟨name, descriptor, attributes⟩ :: rest => do
    let name ← Pool.internText name
    let descriptor ← Pool.internText descriptor
    let attributes ← AttributeDraft.storeList attributes
    return Bytes.u2 name ++ Bytes.u2 descriptor ++ RawAttribute.layoutAll attributes ++
      (← ComponentDraft.writeList rest)

/-- Attributes as they are stored: the contents are met before the name. -/
def AttributeDraft.storeList : List AttributeDraft → Interning (List RawAttribute)
  | [] => return []
  | a :: rest => do
    let body ← a.contents
    let name ← Pool.internText a.name
    let rest ← AttributeDraft.storeList rest
    return ⟨name, body⟩ :: rest

end

/-! ### Members and classes -/

/-- A field or method as it is stored. -/
def MemberDraft.store (m : MemberDraft) : Interning RawMember := do
  let name ← Pool.internText m.name
  let descriptor ← Pool.internText m.descriptor
  return ⟨m.flags, name, descriptor, ← AttributeDraft.storeList m.attributes⟩

namespace ClassDraft

/-- The version of assembled class files. -/
def majorVersion : UInt16 := 61

/-- A class as it is stored, without its pool. -/
def store (d : ClassDraft) : Interning ClassFile := do
  let thisClass ← Pool.internClass d.name
  let superClass ← Pool.internOptional Pool.internClass d.superName
  let interfaces ← d.interfaces.mapM Pool.internClass
  let fields ← d.fields.mapM MemberDraft.store
  let methods ← d.methods.mapM MemberDraft.store
  let attributes ← AttributeDraft.storeList d.attributes
  return { major := majorVersion, minor := 0, pool := .empty, flags := d.flags, thisClass,
           superClass, interfaces, fields, methods, attributes }

/-- The class file of a draft. -/
def toClassFile (d : ClassDraft) : ClassFile :=
  let (file, pool) := d.store.run .empty
  { file with pool := pool }

/-- The bytes of the class file of a draft. -/
def assemble (d : ClassDraft) : Bytes :=
  d.toClassFile.layout fun text => Utf8.encode text.toList

end ClassDraft

end JvmOutline
