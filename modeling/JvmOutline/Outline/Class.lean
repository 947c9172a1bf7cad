import JvmOutline.Outline.Member

/-!
# Outlining a class

A class is outlined in two phases.  First its stream is read for the parts that it has once
(`HeaderParts.accept`), and a repeated one is refused.  Static initializers, and attributes that a
class has no use for, are reported and left out.  Then the access flags have to be there, and the
methods, the fields, the annotations and the record components are outlined, in this order.

So a repeated part of the class itself decides the error before any fault of a member, and the
views on the stream (`Element.method?`, `Element.field?`, `Element.permitted`,
`Element.components`, `Element.innerClasses`) say which elements the second phase works on.

The modifiers in the header of a nested class are not the declared ones.  Those are in the table
of nested classes, in the first row that names the class itself (`InnerClass.flagsOf?`).
-/

namespace JvmOutline

/-! ### Views on the stream -/

/-- The name of the static initializer, which is no method of an outline. -/
def staticInitializer : String := "<clinit>"

namespace Element

/-- The method of an element; the static initializer is none. -/
def method? : Element → Option Member
  | .method m => if m.name = staticInitializer then none else some m
  | _ => none

/-- The field of an element. -/
def field? : Element → Option Member
  | .field f => some f
  | _ => none

/-- The qualified names of the permitted subclasses that an element lists. -/
def permitted : Element → List String
  | .attr (.permittedSubclasses names) => names.map ClassName.qualified
  | _ => []

/-- The record components that an element lists. -/
def components : Element → List Component
  | .attr (.record components) => components
  | _ => []

/-- The rows of the table of nested classes that an element lists. -/
def innerClasses : Element → List InnerClass
  | .attr (.innerClasses rows) => rows
  | _ => []

end Element

/-- The declared modifiers of the class of the given qualified name. -/
def InnerClass.flagsOf? (name : String) (rows : List InnerClass) : Option AccessFlags :=
  (rows.find? fun row => ClassName.qualified row.inner = name).map fun row => row.flags.ofInnerClass

/-! ### The header -/

/-- The parts that a class has once, as far as they are known. -/
structure HeaderParts where
  flags : Option AccessFlags
  superName : Option String
  interfaces : Option (List String)
  signature : Option String
  visible : Option (List Annot)
  invisible : Option (List Annot)

namespace HeaderParts

/-- Nothing is known. -/
def empty : HeaderParts := ⟨none, none, none, none, none, none⟩

/-- Takes in an attribute of the class in `scope`. -/
def acceptAttribute (scope : Scope) (p : HeaderParts) : Attribute → Logged HeaderParts
  | .signature text => .check do
    return { p with signature := ← (Part.attr .signature).once scope p.signature text }
  | .annots .visible as => .check do
    return { p with visible := ← (Part.attr (.annots .visible)).once scope p.visible as }
  | .annots .invisible as => .check do
    return { p with invisible := ← (Part.attr (.annots .invisible)).once scope p.invisible as }
  | .permittedSubclasses _ => return p
  | .record _ => return p
  | .innerClasses _ => return p
  | a => do
    Logged.report (.ignored scope a.name)
    return p

/-- Takes in an element of the class in `scope`. -/
def accept (scope : Scope) (p : HeaderParts) : Element → Logged HeaderParts
  | .flags flags => .check do
    return { p with flags := ← Part.flags.once scope p.flags flags }
  | .superclass name => .check do
    return { p with superName :=
      ← Part.superclass.once scope p.superName (ClassName.qualified name) }
  | .interfaces names => .check do
    return { p with interfaces :=
      ← Part.interfaces.once scope p.interfaces (names.map ClassName.qualified) }
  | .field _ => return p
  | .method m =>
    if m.name = staticInitializer then do
      Logged.report (.skippedInitializer scope)
      return p
    else return p
  | .attr a => acceptAttribute scope p a

end HeaderParts

/-! ### The class -/

/-- A list of members, or none if it is empty. -/
def nonempty? {α : Type} (as : List α) : Option (List α) := if as.isEmpty then none else some as

/-- Outlines annotations that may be absent. -/
def Annot.outlineOptional (pool : Pool) :
    Option (List Annot) → Except OutlineError (List AnnotOutline)
  | none => .ok []
  | some as => Annot.outlineAll pool as

namespace ClassOutline

/-- The outline of the class of the given qualified name, from its stream. -/
def compose (name : String) (pool : Pool) (stream : List Element) : Logged ClassOutline := do
  let scope := Scope.class name
  let header ← stream.foldlM (HeaderParts.accept scope) .empty
  let flags ← Logged.check (Part.flags.required scope header.flags)
  let methods ← (stream.filterMap Element.method?).mapM (MethodOutline.ofMember pool)
  let fields ← (stream.filterMap Element.field?).mapM (FieldOutline.ofMember pool)
  let visible ← Logged.check (Annot.outlineOptional pool header.visible)
  let invisible ← Logged.check (Annot.outlineOptional pool header.invisible)
  let components ← (stream.flatMap Element.components).mapM (ComponentOutline.ofComponent pool)
  return { name := name
           flags := flags.ofClass
           signature := header.signature
           superName := header.superName
           interfaces := header.interfaces.getD []
           methods := nonempty? methods
           fields := nonempty? fields
           permittedSubclasses := stream.flatMap Element.permitted
           components := components
           innerFlags := InnerClass.flagsOf? name (stream.flatMap Element.innerClasses)
           annots := visible ++ invisible }

/-- The outline of a class, from its qualified name and its stream; begin and end are reported. -/
def ofElements (name : String) (pool : Pool) (stream : List Element) : Logged ClassOutline := do
  Logged.report (.begun name)
  if name = "" then Logged.fail (.missing .className .classFile)
  else do
    let c ← compose name pool stream
    Logged.report (.done name c.methodCount c.fieldCount)
    return c

/-- The outline of the class whose class file the bytes are. -/
def ofBytes (bytes : Bytes) : Logged ClassOutline := do
  let file ← Logged.check (outlined (ClassFile.parse bytes))
  let name ← Logged.check (outlined file.className)
  let stream ← Logged.check (outlined file.elements)
  ofElements (ClassName.qualified name) file.pool stream

end ClassOutline

end JvmOutline
