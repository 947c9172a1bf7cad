import JvmOutline.Assembly.Draft
import JvmOutline.Attribute.Reader
import JvmOutline.Proofs.Assembly.Interning
import JvmOutline.Proofs.Outline.ParameterAnnots

/-!
# What a draft says

A draft names its texts and constants directly, so its outline can be read off it without a pool
and without bytes (`ClassDraft.outline`).

`fits` says of each part of a draft that it can be assembled: its texts are short, its lists fit
their counts, each value has a constant of its own, and each place of a type is described in the
shape that belongs to it.  `ClassDraft.fits` asks besides that no part is repeated where an
outline has room for one.
-/

namespace JvmOutline

/-! ### Annotations -/

mutual

/-- Whether a value can be assembled. -/
def ValueDraft.fits : ValueDraft → Bool
  | .string text => Utf8.isShort text
  | .classLit descriptor => Utf8.isShort descriptor
  | .enumConst descriptor constant => Utf8.isShort descriptor && Utf8.isShort constant
  | .annot a => a.fits
  | .array values => values.length < 65536 && ValueDraft.fitAll values
  | .indexed _ _ => false
  | .bare _ => false
  | _ => true

/-- Whether an annotation can be assembled. -/
def AnnotDraft.fits : AnnotDraft → Bool
  | ⟨descriptor, members⟩ =>
    Utf8.isShort descriptor && (members.length < 65536 && ValueDraft.fitMembers members)

/-- Whether members can be assembled. -/
def ValueDraft.fitMembers : List (String × ValueDraft) → Bool
  | [] => true
  | (name, value) :: rest => Utf8.isShort name && (value.fits && ValueDraft.fitMembers rest)

/-- Whether values can be assembled. -/
def ValueDraft.fitAll : List ValueDraft → Bool
  | [] => true
  | value :: rest => value.fits && ValueDraft.fitAll rest

end

mutual

/-- The outline of a value; a value that does not fit has none, and gets an empty array here. -/
def ValueDraft.outline : ValueDraft → AnnotValue
  | .boolean value => .boolean value
  | .byte value => .byte value
  | .char unit => .char unit
  | .short value => .short value
  | .int value => .int value
  | .long value => .long value
  | .float bits => .float bits
  | .double bits => .double bits
  | .string text => .string text
  | .classLit descriptor => .type descriptor
  | .enumConst descriptor constant => .enum descriptor constant
  | .annot a => .annot a.outline
  | .array values => .array (ValueDraft.outlineList values)
  | .indexed _ _ => .array []
  | .bare _ => .array []

/-- The outline of an annotation. -/
def AnnotDraft.outline : AnnotDraft → AnnotOutline
  | ⟨descriptor, members⟩ => ValueDraft.outlineMembers (.ofDescriptor descriptor) members

/-- Puts members into an annotation, in order. -/
def ValueDraft.outlineMembers (a : AnnotOutline) : List (String × ValueDraft) → AnnotOutline
  | [] => a
  | (name, value) :: rest => ValueDraft.outlineMembers (a.insert name value.outline) rest

/-- The outlines of values. -/
def ValueDraft.outlineList : List ValueDraft → List AnnotValue
  | [] => []
  | value :: rest => value.outline :: ValueDraft.outlineList rest

end

/-- Whether bytes describe a place in this shape. -/
def TargetShape.accepts : TargetShape → Bytes → Bool
  | fixed size, info => info.length = size
  | table, info => info.length = 2 + 6 * Bytes.toNat (info.take 2)

/-- Whether a type annotation can be assembled. -/
def TypeAnnotDraft.fits (a : TypeAnnotDraft) : Bool :=
  (TargetShape.ofByte? a.target).any (fun shape => shape.accepts a.info) &&
    (a.path.length < 256 && a.annot.fits)

/-! ### Attributes -/

/-- Whether a list that is counted in two bytes can be assembled. -/
def fits2 {α : Type} (fits : α → Bool) (items : List α) : Bool :=
  items.length < 65536 && items.all fits

/-- Whether a list that is counted in one byte can be assembled. -/
def fits1 {α : Type} (fits : α → Bool) (items : List α) : Bool :=
  items.length < 256 && items.all fits

/-- Whether a name that may be missing can be assembled. -/
def fitsOptional (name : Option String) : Bool := name.all Utf8.isShort

/-- Whether a row of the table of nested classes can be assembled. -/
def InnerClassDraft.fits (row : InnerClassDraft) : Bool :=
  Utf8.isShort row.inner && (fitsOptional row.outer && fitsOptional row.simpleName)

namespace ConstantDraft

/-- Whether a constant can be assembled. -/
def fits : ConstantDraft → Bool
  | string text => Utf8.isShort text
  | classRef name => Utf8.isShort name
  | _ => true

/-- The constant value of a field; a class is none. -/
def value? : ConstantDraft → Option ConstantValue
  | int value => some (.int value)
  | long value => some (.long value)
  | float bits => some (.float bits)
  | double bits => some (.double bits)
  | string text => some (.string text)
  | classRef _ => none

end ConstantDraft

namespace AttributeDraft

/-- The generic signature, if the attribute is one. -/
def signature? : AttributeDraft → Option String
  | signature text => some text
  | _ => none

/-- The constant of a field, if the attribute is one. -/
def constant? : AttributeDraft → Option ConstantDraft
  | constant c => some c
  | _ => none

/-- The annotations of a visibility, if the attribute holds them. -/
def annots? : Visibility → AttributeDraft → Option (List AnnotDraft)
  | .visible, visibleAnnots as => some as
  | .invisible, invisibleAnnots as => some as
  | _, _ => none

/-- The default value, if the attribute is one. -/
def default? : AttributeDraft → Option ValueDraft
  | annotDefault value => some value
  | _ => none

/-- The annotations of parameters of either visibility, if the attribute holds them. -/
def parameterAnnots? : AttributeDraft → Option (List (List AnnotDraft))
  | visibleParameterAnnots as => some as
  | invisibleParameterAnnots as => some as
  | _ => none

/-- The parameters, if the attribute lists them. -/
def parameters? : AttributeDraft → Option (List (Option String × AccessFlags))
  | methodParameters ps => some ps
  | _ => none

/-- The annotations of either visibility, if the attribute holds them. -/
def anyAnnots? : AttributeDraft → Option (List AnnotDraft)
  | visibleAnnots as => some as
  | invisibleAnnots as => some as
  | _ => none

/-- The type annotations of either visibility, if the attribute holds them. -/
def anyTypeAnnots? : AttributeDraft → Option (List AnnotDraft)
  | visibleTypeAnnots as => some (as.map TypeAnnotDraft.annot)
  | invisibleTypeAnnots as => some (as.map TypeAnnotDraft.annot)
  | _ => none

/-- The declared exceptions that the attribute lists. -/
def exceptionNames : AttributeDraft → List String
  | exceptions names => names
  | _ => []

/-- The permitted subclasses that the attribute lists. -/
def permittedNames : AttributeDraft → List String
  | permittedSubclasses names => names
  | _ => []

/-- The rows of the table of nested classes that the attribute holds. -/
def innerRows : AttributeDraft → List InnerClassDraft
  | innerClasses rows => rows
  | _ => []

/-- The record components that the attribute lists. -/
def components : AttributeDraft → List ComponentDraft
  | record components => components
  | _ => []

/-- Whether at most one attribute of a list has an answer. -/
def atMostOne {α : Type} (pick : AttributeDraft → Option α) (as : List AttributeDraft) : Bool :=
  (as.filterMap pick).length ≤ 1

end AttributeDraft

mutual

/-- Whether an attribute can be assembled. -/
def AttributeDraft.fits : AttributeDraft → Bool
  | .signature text => Utf8.isShort text
  | .exceptions names => fits2 Utf8.isShort names
  | .permittedSubclasses names => fits2 Utf8.isShort names
  | .constant c => c.fits
  | .visibleAnnots as => fits2 AnnotDraft.fits as
  | .invisibleAnnots as => fits2 AnnotDraft.fits as
  | .visibleParameterAnnots as => fits1 (fits2 AnnotDraft.fits) as
  | .invisibleParameterAnnots as => fits1 (fits2 AnnotDraft.fits) as
  | .visibleTypeAnnots as => fits2 TypeAnnotDraft.fits as
  | .invisibleTypeAnnots as => fits2 TypeAnnotDraft.fits as
  | .annotDefault value => value.fits
  | .methodParameters ps => fits1 (fun p => fitsOptional p.1) ps
  | .innerClasses rows => fits2 InnerClassDraft.fits rows
  | .record components => components.length < 65536 && ComponentDraft.fitAll components
  | .raw name _ => Utf8.isShort name && (AttributeKind.ofName? name).isNone

/-- Whether record components can be assembled, with no more than one signature each. -/
def ComponentDraft.fitAll : List ComponentDraft → Bool
  | [] => true
  | ⟨name, descriptor, attributes⟩ :: rest =>
    (Utf8.isShort name && Utf8.isShort descriptor) &&
      ((attributes.length < 65536 && AttributeDraft.fitAll attributes) &&
        (AttributeDraft.atMostOne AttributeDraft.signature? attributes &&
          ComponentDraft.fitAll rest))

/-- Whether attributes can be assembled. -/
def AttributeDraft.fitAll : List AttributeDraft → Bool
  | [] => true
  | a :: rest => a.fits && AttributeDraft.fitAll rest

end

namespace AttributeDraft

/-- The annotations of both visibilities, the visible ones first. -/
def outlineAnnots (as : List AttributeDraft) : List AnnotOutline :=
  ((as.filterMap (annots? .visible)).flatten ++
    (as.filterMap (annots? .invisible)).flatten).map AnnotDraft.outline

/-- The lists that attributes hold, one after the other, if any attribute holds one. -/
def gather {α : Type} (pick : AttributeDraft → Option (List α)) (as : List AttributeDraft) :
    Option (List α) :=
  match as.filterMap pick with
  | [] => none
  | found => some found.flatten

/-- The annotations at a parameter, over all attributes in order. -/
def annotsAt (as : List AttributeDraft) (position : Nat) : List AnnotOutline :=
  (as.filterMap parameterAnnots?).flatMap fun lists =>
    (lists[position]?.getD []).map AnnotDraft.outline

/-- The annotations of the parameters by position; there is no place for a parameter without
annotations, and no map without a place.  No attribute counts more than 255 parameters. -/
def outlineParameters (as : List AttributeDraft) : Option ParameterAnnots :=
  ParameterAnnots.ofPositions 256 (annotsAt as)

end AttributeDraft

/-- The outline of a record component. -/
def ComponentDraft.outline (c : ComponentDraft) : ComponentOutline where
  name := c.name
  descriptor := c.descriptor
  signature := (c.attributes.filterMap AttributeDraft.signature?).head?
  annots := (AttributeDraft.gather AttributeDraft.anyAnnots? c.attributes).map
    (List.map AnnotDraft.outline)
  typeAnnots := (AttributeDraft.gather AttributeDraft.anyTypeAnnots? c.attributes).map
    (List.map AnnotDraft.outline)

/-! ### Members -/

namespace MemberDraft

/-- Whether a field or method can be assembled. -/
def fits (m : MemberDraft) : Bool :=
  (Utf8.isShort m.name && Utf8.isShort m.descriptor) &&
    (m.attributes.length < 65536 && AttributeDraft.fitAll m.attributes)

/-- Whether no part is repeated that fields and methods have once. -/
def sharedOnce (m : MemberDraft) : Bool :=
  AttributeDraft.atMostOne AttributeDraft.signature? m.attributes &&
    (AttributeDraft.atMostOne (AttributeDraft.annots? .visible) m.attributes &&
      AttributeDraft.atMostOne (AttributeDraft.annots? .invisible) m.attributes)

/-- Whether a field can be assembled and has no repeated part, and no class as its constant. -/
def fitsField (f : MemberDraft) : Bool :=
  (f.fits && f.sharedOnce) &&
    (AttributeDraft.atMostOne AttributeDraft.constant? f.attributes &&
      (f.attributes.filterMap AttributeDraft.constant?).all fun c => c.value?.isSome)

/-- Whether a method can be assembled and has no repeated part. -/
def fitsMethod (m : MemberDraft) : Bool :=
  (m.fits && m.sharedOnce) && AttributeDraft.atMostOne AttributeDraft.default? m.attributes

/-- The outline of a field. -/
def outlineField (f : MemberDraft) : FieldOutline where
  name := f.name
  flags := f.flags.ofField
  descriptor := f.descriptor
  signature := (f.attributes.filterMap AttributeDraft.signature?).head?
  value := (f.attributes.filterMap AttributeDraft.constant?).head?.bind ConstantDraft.value?
  annots := AttributeDraft.outlineAnnots f.attributes

/-- The outline of a method. -/
def outlineMethod (m : MemberDraft) : MethodOutline where
  name := m.name
  flags := m.flags.ofMethod
  descriptor := m.descriptor
  signature := (m.attributes.filterMap AttributeDraft.signature?).head?
  exceptions := (m.attributes.flatMap AttributeDraft.exceptionNames).map ClassName.qualified
  parameterAnnots := AttributeDraft.outlineParameters m.attributes
  parameterNames := (AttributeDraft.gather AttributeDraft.parameters? m.attributes).map
    (List.map Prod.fst)
  default := (m.attributes.filterMap AttributeDraft.default?).head?.map ValueDraft.outline
  annots := AttributeDraft.outlineAnnots m.attributes

end MemberDraft

/-! ### Classes -/

namespace ClassDraft

/-- Whether a class can be assembled and has no repeated part; nothing is asked of the parts of a
static initializer, which has no outline. -/
def fits (d : ClassDraft) : Bool :=
  (d.name ≠ "" && (Utf8.isShort d.name && fitsOptional d.superName)) &&
    (fits2 Utf8.isShort d.interfaces && (fits2 MemberDraft.fitsField d.fields &&
      (fits2 (fun m => m.fits && (m.name = staticInitializer || m.fitsMethod)) d.methods &&
        ((d.attributes.length < 65536 && AttributeDraft.fitAll d.attributes) &&
          (AttributeDraft.atMostOne AttributeDraft.signature? d.attributes &&
            (AttributeDraft.atMostOne (AttributeDraft.annots? .visible) d.attributes &&
              AttributeDraft.atMostOne (AttributeDraft.annots? .invisible) d.attributes))))))

/-- The declared modifiers of a nested class: those in the first row that names the class. -/
def innerFlags (d : ClassDraft) : Option AccessFlags :=
  ((d.attributes.flatMap AttributeDraft.innerRows).find? fun row =>
    ClassName.qualified row.inner = ClassName.qualified d.name).map fun row =>
      row.flags.ofInnerClass

/-- The outline of a class, read off its draft. -/
def outline (d : ClassDraft) : ClassOutline where
  name := ClassName.qualified d.name
  flags := d.flags.ofClass
  signature := (d.attributes.filterMap AttributeDraft.signature?).head?
  superName := d.superName.map ClassName.qualified
  interfaces := d.interfaces.map ClassName.qualified
  methods := nonempty? ((d.methods.filter fun m => m.name ≠ staticInitializer).map
    MemberDraft.outlineMethod)
  fields := nonempty? (d.fields.map MemberDraft.outlineField)
  permittedSubclasses :=
    (d.attributes.flatMap AttributeDraft.permittedNames).map ClassName.qualified
  components := (d.attributes.flatMap AttributeDraft.components).map ComponentDraft.outline
  innerFlags := d.innerFlags
  annots := AttributeDraft.outlineAnnots d.attributes

end ClassDraft

end JvmOutline
