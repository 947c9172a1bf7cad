import JvmOutline.AccessFlags

/-!
# Attributes — what a class file says about a declaration

`Attribute` holds the contents of the attributes that matter to an outline.  Names and texts are
resolved; numbers inside annotations are still indexes into the constant pool (`ElementValue`).
An attribute of any other name is `Attribute.other`.

Annotations come in two visibilities: those that are kept for reflection, and those that are not.
-/

namespace JvmOutline

mutual

/-- A value of an annotation member. -/
inductive ElementValue where
  /-- A number or text, by its tag and the index of its constant. -/
  | const (tag : UInt8) (index : UInt16)
  /-- A constant of an enumeration. -/
  | enumConst (descriptor constant : String)
  /-- A class literal. -/
  | classLit (descriptor : String)
  /-- A nested annotation. -/
  | annot (a : Annot)
  | array (values : List ElementValue)

/-- An annotation: its type, and its members in order. -/
structure Annot where
  descriptor : String
  members : List (String × ElementValue)

end

/-- The character that stands for the tag of an element value: its code point is the tag. -/
def ElementValue.tagChar (tag : UInt8) : Char := .ofNat tag.toNat

/-- An annotation of a use of a type. -/
structure TypeAnnot where
  /-- The kind of place where the type is used. -/
  target : UInt8
  /-- The steps from the type there to the annotated part of it. -/
  path : List (UInt8 × UInt8)
  annot : Annot

/-- A formal parameter; a parameter may have no name. -/
structure Parameter where
  name : Option String
  flags : AccessFlags
  deriving DecidableEq

/-- A row of the table of nested classes. -/
structure InnerClass where
  inner : String
  outer : Option String
  simpleName : Option String
  flags : AccessFlags
  deriving DecidableEq

/-- Whether annotations are kept for reflection. -/
inductive Visibility where
  | visible
  | invisible
  deriving DecidableEq

/-- The kinds of attributes whose contents are understood. -/
inductive AttributeKind where
  | signature
  | constantValue
  | exceptions
  | permittedSubclasses
  | annots (v : Visibility)
  | parameterAnnots (v : Visibility)
  | typeAnnots (v : Visibility)
  | annotDefault
  | methodParameters
  | innerClasses
  | record
  deriving DecidableEq

namespace AttributeKind

/-- Every kind. -/
def all : List AttributeKind :=
  [signature, constantValue, exceptions, permittedSubclasses, annots .visible, annots .invisible,
    parameterAnnots .visible, parameterAnnots .invisible, typeAnnots .visible,
    typeAnnots .invisible, annotDefault, methodParameters, innerClasses, record]

/-- The name under which a class file stores attributes of a kind. -/
def name : AttributeKind → String
  | signature => "Signature"
  | constantValue => "ConstantValue"
  | exceptions => "Exceptions"
  | permittedSubclasses => "PermittedSubclasses"
  | annots .visible => "RuntimeVisibleAnnotations"
  | annots .invisible => "RuntimeInvisibleAnnotations"
  | parameterAnnots .visible => "RuntimeVisibleParameterAnnotations"
  | parameterAnnots .invisible => "RuntimeInvisibleParameterAnnotations"
  | typeAnnots .visible => "RuntimeVisibleTypeAnnotations"
  | typeAnnots .invisible => "RuntimeInvisibleTypeAnnotations"
  | annotDefault => "AnnotationDefault"
  | methodParameters => "MethodParameters"
  | innerClasses => "InnerClasses"
  | record => "Record"

/-- The kind of the attributes stored under a name. -/
def ofName? (name : String) : Option AttributeKind := all.find? fun kind => kind.name = name

theorem ofName?_name (kind : AttributeKind) : ofName? kind.name = some kind := by
  cases kind with
  | annots v | parameterAnnots v | typeAnnots v => cases v <;> decide
  | _ => decide

theorem name_of_ofName? {name : String} {kind : AttributeKind} (h : ofName? name = some kind) :
    kind.name = name := by
  simpa using List.find?_some h

end AttributeKind

mutual

/-- The contents of an attribute. -/
inductive Attribute where
  | signature (text : String)
  /-- The index of a field's constant. -/
  | constantValue (index : UInt16)
  | exceptions (names : List String)
  | permittedSubclasses (names : List String)
  | annots (v : Visibility) (as : List Annot)
  /-- One list of annotations for each parameter. -/
  | parameterAnnots (v : Visibility) (as : List (List Annot))
  | typeAnnots (v : Visibility) (as : List TypeAnnot)
  | annotDefault (value : ElementValue)
  | methodParameters (parameters : List Parameter)
  | innerClasses (rows : List InnerClass)
  | record (components : List Component)
  /-- An attribute that is not understood, by its name. -/
  | other (name : String)

/-- A component of a record class. -/
structure Component where
  name : String
  descriptor : String
  attributes : List Attribute

end

/-- The name under which a class file stores an attribute. -/
def Attribute.name : Attribute → String
  | signature _ => AttributeKind.signature.name
  | constantValue _ => AttributeKind.constantValue.name
  | exceptions _ => AttributeKind.exceptions.name
  | permittedSubclasses _ => AttributeKind.permittedSubclasses.name
  | annots v _ => (AttributeKind.annots v).name
  | parameterAnnots v _ => (AttributeKind.parameterAnnots v).name
  | typeAnnots v _ => (AttributeKind.typeAnnots v).name
  | annotDefault _ => AttributeKind.annotDefault.name
  | methodParameters _ => AttributeKind.methodParameters.name
  | innerClasses _ => AttributeKind.innerClasses.name
  | record _ => AttributeKind.record.name
  | other name => name

end JvmOutline
