import JvmOutline.ClassFile.Element
import JvmOutline.Proofs.Attribute.Grammar
import JvmOutline.Proofs.Reading.Errors

/-!
# The errors of class files

Reading a class file as it is stored fails only where the bytes end or a number is none of those
that are allowed there (`FormatError.Storage`); a look-up in the pool fails only at its index
(`FormatError.Lookup`).

A tag is called unknown only by the reader of element values, and only if it is unknown
(`FormatError.TagIsUnknown`).  So **the stream of a class file fails with an unknown tag only if no
element value has that tag** (`ClassFile.failsIn_elements`).
-/

namespace JvmOutline

open Reader

/-! ### Stored class files -/

/-- The errors of reading a class file as it is stored. -/
inductive FormatError.Storage : FormatError → Prop where
  | endOfInput : Storage .endOfInput
  | shortBody : Storage .shortBody
  | unknownEntryTag (tag : UInt8) : Storage (.unknownEntryTag tag)
  | wrongMagic (found : UInt32) : Storage (.wrongMagic found)

open FormatError (Storage)

theorem Entry.failsWith_reader : FailsWith Storage reader := by
  have h1 : FailsWith Storage u1 := .u1 .endOfInput
  have h2 : FailsWith Storage u2 := .u2 .endOfInput
  have h4 : FailsWith Storage u4 := .u4 .endOfInput
  have h8 : FailsWith Storage u8 := .u8 .endOfInput
  have hpair (f : UInt16 → UInt16 → Entry) : FailsWith Storage (do return f (← u2) (← u2)) :=
    h2.bind fun a => h2.bind_pure (f a)
  refine h1.bind fun tag => ?_
  split
  · exact h2.bind fun length => (FailsWith.take .endOfInput length.toNat).bind_pure _
  · exact h4.bind_pure _
  · exact h4.bind_pure _
  · exact h8.bind_pure _
  · exact h8.bind_pure _
  · exact h2.bind_pure _
  · exact h2.bind_pure _
  · exact hpair .fieldRef
  · exact hpair .methodRef
  · exact hpair .interfaceMethodRef
  · exact hpair .nameAndType
  · exact h1.bind fun kind => h2.bind_pure _
  · exact h2.bind_pure _
  · exact hpair .dynamic
  · exact hpair .invokeDynamic
  · exact h2.bind_pure _
  · exact h2.bind_pure _
  · exact .fail (.unknownEntryTag tag)

theorem Pool.failsWith_slotsFrom (n : Nat) (filled : Array Entry) (half : Bool) :
    FailsWith Storage (slotsFrom filled half n) := by
  induction n generalizing filled half with
  | zero => exact .pure _
  | succ n ih =>
    rw [slotsFrom]
    split
    · exact ih _ _
    · exact Entry.failsWith_reader.bind fun e => ih _ _

theorem Pool.failsWith_reader : FailsWith Storage reader :=
  (FailsWith.u2 .endOfInput).bind fun _ => (failsWith_slotsFrom _ _ _).bind_pure _

/-- A stored attribute fails only where the bytes end. -/
theorem RawAttribute.failsWith_reader {E : FormatError → Prop} (hend : E .endOfInput)
    (hbody : E .shortBody) : FailsWith E reader :=
  (FailsWith.u2 hend).bind fun _ => (FailsWith.u4 hend).bind fun length =>
    (FailsWith.takeOr hbody length.toNat).bind_pure _

theorem RawMember.failsWith_reader : FailsWith Storage reader :=
  have h2 : FailsWith Storage u2 := .u2 .endOfInput
  h2.bind fun _ => h2.bind fun _ => h2.bind fun _ =>
    (FailsWith.counted2 .endOfInput
      (RawAttribute.failsWith_reader .endOfInput .shortBody)).bind_pure _

namespace ClassFile

theorem failsWith_magicReader : FailsWith Storage magicReader := by
  refine (FailsWith.u4 .endOfInput).bind fun found => ?_
  split
  · exact .pure _
  · exact .fail (.wrongMagic found)

theorem failsWith_reader : FailsWith Storage reader := by
  have h2 : FailsWith Storage u2 := .u2 .endOfInput
  have hmembers : FailsWith Storage (counted2 RawMember.reader) :=
    .counted2 .endOfInput RawMember.failsWith_reader
  have hattributes : FailsWith Storage (counted2 RawAttribute.reader) :=
    .counted2 .endOfInput (RawAttribute.failsWith_reader .endOfInput .shortBody)
  exact failsWith_magicReader.bind fun _ => h2.bind fun _ => h2.bind fun _ =>
    Pool.failsWith_reader.bind fun _ => h2.bind fun _ => h2.bind fun _ => h2.bind fun _ =>
    (FailsWith.counted2 .endOfInput h2).bind fun _ => hmembers.bind fun _ => hmembers.bind fun _ =>
    hattributes.bind_pure _

/-- Parsing fails only where the bytes end or a number is not allowed. -/
theorem failsIn_parse (bytes : Bytes) : FailsIn Storage (parse bytes) := by
  have h := failsWith_reader bytes
  unfold parse
  split
  · trivial
  · next hrun => rwa [hrun] at h

end ClassFile

/-! ### Look-ups -/

/-- The errors of looking an index up. -/
inductive FormatError.Lookup : FormatError → Prop where
  | noEntry (index : UInt16) : Lookup (.noEntry index)
  | wrongEntry (expected : EntryKind) (found : Entry) : Lookup (.wrongEntry expected found)

open FormatError (Lookup)

namespace Pool

variable (pool : Pool) (index : UInt16)

theorem failsIn_entry : FailsIn Lookup (pool.entry index) := by
  unfold entry
  split
  · trivial
  · exact .noEntry index

theorem failsIn_expect {α : Type} (kind : EntryKind) (pick : Entry → Option α) :
    FailsIn Lookup (pool.expect kind pick index) := by
  have h := failsIn_entry pool index
  unfold expect
  split
  · next he => rwa [he] at h
  · split
    · trivial
    · exact .wrongEntry _ _

theorem failsIn_className : FailsIn Lookup (pool.className index) :=
  Ends.bind (failsIn_expect pool index ..) fun _ _ => failsIn_expect pool _ ..

theorem failsIn_optional {find : UInt16 → Except FormatError String}
    (h : ∀ index, FailsIn Lookup (find index)) :
    FailsIn Lookup (if index = 0 then .ok none else some <$> find index) := by
  split
  · trivial
  · have hfind := h index
    cases hx : find index with
    | error e => rwa [hx] at hfind
    | ok text => trivial

end Pool

/-! ### Unknown tags -/

/-- The tags of element values: of numbers and texts, enumeration constants, class literals, nested
annotations and arrays. -/
def ElementValue.tags : List Char := constTags ++ ['e', 'c', '@', '[']

/-- An error that calls a tag unknown is right about it. -/
def FormatError.TagIsUnknown : FormatError → Prop
  | .unknownValueTag tag => ElementValue.tagChar tag ∉ ElementValue.tags
  | _ => True

open FormatError (TagIsUnknown)

theorem FormatError.Lookup.tagIsUnknown {e : FormatError} (h : Lookup e) : TagIsUnknown e := by
  cases h <;> trivial

/-- A look-up calls no tag unknown. -/
theorem FailsIn.tagIsUnknown {α : Type} {x : Except FormatError α} (h : FailsIn Lookup x) :
    FailsIn TagIsUnknown x :=
  h.mono fun _ he => he.tagIsUnknown

variable {pool : Pool}

namespace Pool

/-- An index and what is found at it. -/
theorem failsWith_find {α : Type} {find : UInt16 → Except FormatError α}
    (h : ∀ index, FailsIn Lookup (find index)) :
    FailsWith TagIsUnknown (u2 >>= fun index => check (find index)) :=
  (FailsWith.u2 trivial).bind fun index => .check (h index).tagIsUnknown

theorem failsWith_textReader : FailsWith TagIsUnknown pool.textReader :=
  failsWith_find fun index => failsIn_expect pool index ..

theorem failsWith_optionalTextReader : FailsWith TagIsUnknown pool.optionalTextReader :=
  failsWith_find fun index => failsIn_optional index fun i => failsIn_expect pool i ..

theorem failsWith_classNameReader : FailsWith TagIsUnknown pool.classNameReader :=
  failsWith_find (failsIn_className pool)

theorem failsWith_optionalClassNameReader : FailsWith TagIsUnknown pool.optionalClassNameReader :=
  failsWith_find fun index => failsIn_optional index (failsIn_className pool)

end Pool

theorem Annot.failsWith_reader {value : Reader ElementValue} (h : FailsWith TagIsUnknown value) :
    FailsWith TagIsUnknown (reader pool value) :=
  Pool.failsWith_textReader.bind fun _ => (FailsWith.counted2 trivial
    (Pool.failsWith_textReader.bind fun name => h.bind_pure (Prod.mk name))).bind_pure _

/-- The reader of element values calls a tag unknown only if no form has it. -/
theorem ElementValue.failsWith_reader (budget : Nat) :
    FailsWith TagIsUnknown (reader pool budget) := by
  induction budget with
  | zero => exact .fail trivial
  | succ budget ih =>
    refine (FailsWith.u1 trivial).bind fun tag => ?_
    split
    · exact Pool.failsWith_textReader.bind fun _ => Pool.failsWith_textReader.bind_pure _
    · exact Pool.failsWith_textReader.bind_pure _
    · exact (Annot.failsWith_reader ih).bind_pure _
    · exact (FailsWith.counted2 trivial ih).bind_pure _
    -- The nine tags of constants.
    iterate 9
      · exact (FailsWith.u2 trivial).bind_pure _
    · refine .fail ?_
      simp_all [TagIsUnknown, tags, constTags]

theorem TargetShape.failsWith_skip (shape : TargetShape) : FailsWith TagIsUnknown shape.skip := by
  cases shape with
  | fixed size => exact .skip trivial size
  | table => exact (FailsWith.u2 trivial).bind fun rows => .skip trivial (6 * rows.toNat)

theorem TypeAnnot.failsWith_reader {value : Reader ElementValue}
    (h : FailsWith TagIsUnknown value) : FailsWith TagIsUnknown (reader pool value) := by
  have h1 : FailsWith TagIsUnknown u1 := .u1 trivial
  refine h1.bind fun target => ?_
  split
  · exact .fail trivial
  · next shape _ =>
    exact shape.failsWith_skip.bind fun _ =>
      (FailsWith.counted1 trivial (h1.bind fun kind => h1.bind_pure (Prod.mk kind))).bind
        fun _ => (Annot.failsWith_reader h).bind_pure _

theorem Parameter.failsWith_reader : FailsWith TagIsUnknown (reader pool) :=
  Pool.failsWith_optionalTextReader.bind fun _ => (FailsWith.u2 trivial).bind_pure _

theorem InnerClass.failsWith_reader : FailsWith TagIsUnknown (reader pool) :=
  Pool.failsWith_classNameReader.bind fun _ => Pool.failsWith_optionalClassNameReader.bind fun _ =>
    Pool.failsWith_optionalTextReader.bind fun _ => (FailsWith.u2 trivial).bind_pure _

theorem Component.failsWith_reader {decode : RawAttribute → Except FormatError Attribute}
    (h : ∀ stored, FailsIn TagIsUnknown (decode stored)) :
    FailsWith TagIsUnknown (reader pool decode) :=
  Pool.failsWith_textReader.bind fun _ => Pool.failsWith_textReader.bind fun _ =>
    (FailsWith.counted2 trivial (RawAttribute.failsWith_reader trivial trivial)).bind fun _ =>
      (FailsWith.check (FailsIn.mapM fun stored _ => h stored)).bind_pure _

namespace Attribute

theorem failsWith_contentsReader {value : Reader ElementValue}
    {decode : RawAttribute → Except FormatError Attribute} (hv : FailsWith TagIsUnknown value)
    (hd : ∀ stored, FailsIn TagIsUnknown (decode stored)) (kind : AttributeKind) :
    FailsWith TagIsUnknown (contentsReader pool value decode kind) := by
  have hannots : FailsWith TagIsUnknown (counted2 (Annot.reader pool value)) :=
    .counted2 trivial (Annot.failsWith_reader hv)
  have hclasses : FailsWith TagIsUnknown (counted2 pool.classNameReader) :=
    .counted2 trivial Pool.failsWith_classNameReader
  cases kind with
  | signature => exact Pool.failsWith_textReader.map _
  | constantValue => exact (FailsWith.u2 trivial).map _
  | exceptions => exact hclasses.map _
  | permittedSubclasses => exact hclasses.map _
  | annots v => exact hannots.map _
  | parameterAnnots v => exact (FailsWith.counted1 trivial hannots).map _
  | typeAnnots v => exact (FailsWith.counted2 trivial (TypeAnnot.failsWith_reader hv)).map _
  | annotDefault => exact hv.map _
  | methodParameters => exact (FailsWith.counted1 trivial Parameter.failsWith_reader).map _
  | innerClasses => exact (FailsWith.counted2 trivial InnerClass.failsWith_reader).map _
  | record => exact (FailsWith.counted2 trivial (Component.failsWith_reader hd)).map _

theorem failsWith_readerWithin (budget : Nat) (name : String) :
    FailsWith TagIsUnknown (readerWithin pool budget name) := by
  induction budget generalizing name with
  | zero => exact .fail trivial
  | succ budget ih =>
    rw [readerWithin]
    split
    · exact .pure _
    · refine (failsWith_contentsReader (ElementValue.failsWith_reader budget) ?_ _).bind fun a => ?_
      · intro stored
        exact (Pool.failsIn_expect pool stored.name ..).tagIsUnknown.bind fun nested _ =>
          (ih nested stored.body).bind_pure _
      · have hend : FailsWith TagIsUnknown (endOf name) := by
          intro input
          cases input with
          | nil => trivial
          | cons b rest => trivial
        exact hend.bind_pure _

theorem failsIn_decode (name : String) (body : Bytes) :
    FailsIn TagIsUnknown (decode pool name body) := by
  have h : FailsWith TagIsUnknown (readerWithin pool (body.length + 2) name) :=
    failsWith_readerWithin (body.length + 2) name
  have h := h body
  unfold decode
  split
  · trivial
  · next hrun =>
    simp only [StateT.run, reader] at hrun h
    rwa [hrun] at h

end Attribute

theorem RawAttribute.failsIn_decode (stored : RawAttribute) :
    FailsIn TagIsUnknown (stored.decode pool) :=
  (Pool.failsIn_expect pool stored.name ..).tagIsUnknown.bind fun _ _ =>
    Attribute.failsIn_decode _ _

theorem RawMember.failsIn_resolve (m : RawMember) : FailsIn TagIsUnknown (m.resolve pool) := by
  have htext (index : UInt16) : FailsIn TagIsUnknown (pool.utf8 index) :=
    (Pool.failsIn_expect pool index ..).tagIsUnknown
  exact (htext m.name).bind fun _ _ => (htext m.descriptor).bind fun _ _ =>
    (FailsIn.mapM fun stored _ => RawAttribute.failsIn_decode stored).bind_pure _

/-- **The stream.**  It fails with an unknown tag only if no element value has that tag. -/
theorem ClassFile.failsIn_elements (file : ClassFile) : FailsIn TagIsUnknown file.elements := by
  have hclass (index : UInt16) : FailsIn Lookup (file.pool.className index) :=
    Pool.failsIn_className file.pool index
  have hsuper : FailsIn TagIsUnknown file.superName :=
    FailsIn.tagIsUnknown (Pool.failsIn_optional _ hclass)
  have hinterfaces : FailsIn TagIsUnknown file.interfaceNames :=
    FailsIn.mapM fun index _ => (hclass index).tagIsUnknown
  have hmembers (ms : List RawMember) :
      FailsIn TagIsUnknown (ms.mapM (RawMember.resolve file.pool)) :=
    FailsIn.mapM fun m _ => RawMember.failsIn_resolve m
  exact hsuper.bind fun _ _ => hinterfaces.bind fun _ _ =>
    (hmembers file.fields).bind fun _ _ => (hmembers file.methods).bind fun _ _ =>
      (FailsIn.mapM fun stored _ => RawAttribute.failsIn_decode stored).bind_pure _

end JvmOutline
