import JvmOutline.AccessFlags
import JvmOutline.Bytes

/-!
# Drafts — a class before it is assembled

A draft says what a class file is to contain, with texts and numbers in place of indexes.  Nothing
keeps a draft from being wrong: a value can have any tag, an attribute any body, and the same
attribute can occur twice.
-/

namespace JvmOutline

mutual

/-- The value of an annotation member. -/
inductive ValueDraft where
  | boolean (value : Bool)
  | byte (value : Int8)
  | char (unit : UInt16)
  | short (value : Int16)
  | int (value : Int32)
  | long (value : Int64)
  | float (bits : UInt32)
  | double (bits : UInt64)
  | string (text : String)
  | classLit (descriptor : String)
  | enumConst (descriptor constant : String)
  | annot (a : AnnotDraft)
  | array (values : List ValueDraft)
  /-- Any tag, and an index. -/
  | indexed (tag : UInt8) (index : UInt16)
  /-- Any tag, and nothing after it. -/
  | bare (tag : UInt8)

/-- An annotation: the descriptor of its type, and its members. -/
structure AnnotDraft where
  descriptor : String
  members : List (String × ValueDraft)

end

/-- An annotation of a use of a type. -/
structure TypeAnnotDraft where
  target : UInt8
  /-- The description of the place, in bytes. -/
  info : Bytes
  path : List (UInt8 × UInt8)
  annot : AnnotDraft

/-- A row of the table of nested classes. -/
structure InnerClassDraft where
  inner : String
  outer : Option String
  simpleName : Option String
  flags : AccessFlags

/-- The constant of a field; no field may have a class as its constant. -/
inductive ConstantDraft where
  | int (value : Int32)
  | long (value : Int64)
  | float (bits : UInt32)
  | double (bits : UInt64)
  | string (text : String)
  | classRef (name : String)

mutual

/-- An attribute. -/
inductive AttributeDraft where
  | signature (text : String)
  | exceptions (names : List String)
  | permittedSubclasses (names : List String)
  | constant (c : ConstantDraft)
  | visibleAnnots (as : List AnnotDraft)
  | invisibleAnnots (as : List AnnotDraft)
  | visibleParameterAnnots (as : List (List AnnotDraft))
  | invisibleParameterAnnots (as : List (List AnnotDraft))
  | visibleTypeAnnots (as : List TypeAnnotDraft)
  | invisibleTypeAnnots (as : List TypeAnnotDraft)
  | annotDefault (value : ValueDraft)
  | methodParameters (ps : List (Option String × AccessFlags))
  | innerClasses (rows : List InnerClassDraft)
  | record (components : List ComponentDraft)
  /-- An attribute of any name and body. -/
  | raw (name : String) (body : Bytes)

/-- A component of a record class. -/
structure ComponentDraft where
  name : String
  descriptor : String
  attributes : List AttributeDraft

end

/-- A field or method. -/
structure MemberDraft where
  flags : AccessFlags
  name : String
  descriptor : String
  attributes : List AttributeDraft

/-- A class; its own name and all others are internal. -/
structure ClassDraft where
  name : String
  flags : AccessFlags
  superName : Option String
  interfaces : List String
  fields : List MemberDraft
  methods : List MemberDraft
  attributes : List AttributeDraft

/-- The flags of a class for which none are given. -/
def ClassDraft.defaultFlags : AccessFlags := .ofFlags [.accPublic, .accSuper]

/-- The superclass of a class for which none is given. -/
def ClassDraft.defaultSuperName : String := "java/lang/Object"

/-- A public class with the default superclass, and nothing in it. -/
def ClassDraft.ofName (name : String) : ClassDraft :=
  ⟨name, defaultFlags, some defaultSuperName, [], [], [], []⟩

/-- An annotation of the type of a field or record component. -/
def TypeAnnotDraft.ofField (a : AnnotDraft) : TypeAnnotDraft := ⟨0x13, [], [], a⟩

end JvmOutline
