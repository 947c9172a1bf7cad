import JvmOutline.Attribute.Basic
import JvmOutline.ClassFile.Reader

/-!
# Reading attributes

The body of an attribute is laid out according to the attribute's name.  Every index that it holds
is looked up as soon as it is read, and the body has to end where the contents end.  An attribute
of an unknown name is not read at all.

Element values nest in arrays and annotations, and attributes nest in the components of a record.
Each level takes one unit of a budget.  A nested value begins at least one byte after the value
around it, and a nested body is shorter than the body around it; so the budget that
`Attribute.reader` starts with, two more than the number of bytes, outlasts the input.
-/

namespace JvmOutline

namespace Pool

/-- An index and the text at it. -/
def textReader (pool : Pool) : Reader String := do
  Reader.check (pool.utf8 (← Reader.u2))

/-- An index and the text at it, or none for index 0. -/
def optionalTextReader (pool : Pool) : Reader (Option String) := do
  Reader.check (pool.optionalUtf8 (← Reader.u2))

/-- An index and the name of the class at it. -/
def classNameReader (pool : Pool) : Reader String := do
  Reader.check (pool.className (← Reader.u2))

/-- An index and the name of the class at it, or none for index 0. -/
def optionalClassNameReader (pool : Pool) : Reader (Option String) := do
  Reader.check (pool.optionalClassName (← Reader.u2))

end Pool

/-! ### Annotations -/

/-- An annotation whose values are read by `value`. -/
def Annot.reader (pool : Pool) (value : Reader ElementValue) : Reader Annot := do
  let descriptor ← pool.textReader
  let members ← Reader.counted2 do
    let name ← pool.textReader
    return (name, ← value)
  return ⟨descriptor, members⟩

/-- An element value; values nested in it have one unit of the budget less. -/
def ElementValue.reader (pool : Pool) : Nat → Reader ElementValue
  | 0 => Reader.fail .budgetSpent
  | budget + 1 => do
    let tag ← Reader.u1
    match tagChar tag with
    | 'e' => return .enumConst (← pool.textReader) (← pool.textReader)
    | 'c' => return .classLit (← pool.textReader)
    | '@' => return .annot (← Annot.reader pool (reader pool budget))
    | '[' => return .array (← Reader.counted2 (reader pool budget))
    | 'B' | 'C' | 'D' | 'F' | 'I' | 'J' | 'S' | 'Z' | 's' => return .const tag (← Reader.u2)
    | _ => Reader.fail (.unknownValueTag tag)

/-- How the place of a type annotation is described: by a fixed number of bytes, or by a counted
table of local variables. -/
inductive TargetShape where
  | fixed (size : Nat)
  | table
  deriving DecidableEq

namespace TargetShape

/-- The shape that belongs to a kind of place. -/
def ofByte? (target : UInt8) : Option TargetShape :=
  match target.toNat with
  | 0x13 | 0x14 | 0x15 => some (.fixed 0)
  | 0x00 | 0x01 | 0x16 => some (.fixed 1)
  | 0x10 | 0x11 | 0x12 | 0x17 | 0x42 | 0x43 | 0x44 | 0x45 | 0x46 => some (.fixed 2)
  | 0x47 | 0x48 | 0x49 | 0x4A | 0x4B => some (.fixed 3)
  | 0x40 | 0x41 => some .table
  | _ => none

/-- Steps over a description of this shape.  A row of a table takes six bytes. -/
def skip : TargetShape → Reader Unit
  | fixed size => Reader.skip size
  | table => do
    let rows ← Reader.u2
    Reader.skip (6 * rows.toNat)

end TargetShape

/-- A type annotation whose values are read by `value`; the description of its place is not
kept. -/
def TypeAnnot.reader (pool : Pool) (value : Reader ElementValue) : Reader TypeAnnot := do
  let target ← Reader.u1
  match TargetShape.ofByte? target with
  | none => Reader.fail (.unknownTarget target)
  | some shape => do
    shape.skip
    let path ← Reader.counted1 do return (← Reader.u1, ← Reader.u1)
    return ⟨target, path, ← Annot.reader pool value⟩

/-! ### Parameters, nested classes, record components -/

/-- A formal parameter. -/
def Parameter.reader (pool : Pool) : Reader Parameter := do
  let name ← pool.optionalTextReader
  return ⟨name, ⟨← Reader.u2⟩⟩

/-- A row of the table of nested classes. -/
def InnerClass.reader (pool : Pool) : Reader InnerClass := do
  let inner ← pool.classNameReader
  let outer ← pool.optionalClassNameReader
  let simpleName ← pool.optionalTextReader
  return ⟨inner, outer, simpleName, ⟨← Reader.u2⟩⟩

/-- A record component.  All its attributes are read as stored before `decode` reads the contents
of the first. -/
def Component.reader (pool : Pool) (decode : RawAttribute → Except FormatError Attribute) :
    Reader Component := do
  let name ← pool.textReader
  let descriptor ← pool.textReader
  let stored ← Reader.counted2 RawAttribute.reader
  return ⟨name, descriptor, ← Reader.check (stored.mapM decode)⟩

/-! ### Attributes -/

namespace Attribute

/-- The contents of an attribute of a known kind, with a reader for the values and a decoder for
the attributes nested in it. -/
def contentsReader (pool : Pool) (value : Reader ElementValue)
    (decode : RawAttribute → Except FormatError Attribute) : AttributeKind → Reader Attribute
  | .signature => .signature <$> pool.textReader
  | .constantValue => .constantValue <$> Reader.u2
  | .exceptions => .exceptions <$> Reader.counted2 pool.classNameReader
  | .permittedSubclasses => .permittedSubclasses <$> Reader.counted2 pool.classNameReader
  | .annots v => .annots v <$> Reader.counted2 (Annot.reader pool value)
  | .parameterAnnots v =>
    .parameterAnnots v <$> Reader.counted1 (Reader.counted2 (Annot.reader pool value))
  | .typeAnnots v => .typeAnnots v <$> Reader.counted2 (TypeAnnot.reader pool value)
  | .annotDefault => .annotDefault <$> value
  | .methodParameters => .methodParameters <$> Reader.counted1 (Parameter.reader pool)
  | .innerClasses => .innerClasses <$> Reader.counted2 (InnerClass.reader pool)
  | .record => .record <$> Reader.counted2 (Component.reader pool decode)

/-- Refuses input that goes on after the contents of the attribute `name`. -/
def endOf (name : String) : Reader Unit := fun input =>
  if input.isEmpty then .ok ((), input) else .error (.trailingBytes name)

/-- An attribute; what is nested in it has one unit of the budget less. -/
def readerWithin (pool : Pool) : Nat → String → Reader Attribute
  | 0, _ => Reader.fail .budgetSpent
  | budget + 1, name =>
    match AttributeKind.ofName? name with
    | none => pure (.other name)
    | some kind => do
      let decode (stored : RawAttribute) : Except FormatError Attribute := do
        let nested ← pool.utf8 stored.name
        let (a, _) ← (readerWithin pool budget nested).run stored.body
        return a
      let a ← contentsReader pool (ElementValue.reader pool budget) decode kind
      endOf name
      return a

/-- The attribute `name`, whose body is the whole input. -/
def reader (pool : Pool) (name : String) : Reader Attribute := fun input =>
  readerWithin pool (input.length + 2) name input

/-- The attribute that a name and a body make. -/
def decode (pool : Pool) (name : String) (body : Bytes) : Except FormatError Attribute :=
  match (reader pool name).run body with
  | .ok (a, _) => .ok a
  | .error e => .error e

end Attribute

/-- The contents of a stored attribute. -/
def RawAttribute.decode (pool : Pool) (stored : RawAttribute) : Except FormatError Attribute := do
  let name ← pool.utf8 stored.name
  Attribute.decode pool name stored.body

end JvmOutline
