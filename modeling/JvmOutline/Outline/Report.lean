import JvmOutline.Outline.Text

/-!
# The report — an outline as lines of text

A report begins with the annotations of the class and a line with its modifiers and its name.
Indented lines follow for what else there is to say, in a fixed order: signature, superclass,
interfaces, permitted subclasses, record components, fields and methods.  The annotations of a
field or method stand above it.
-/

namespace JvmOutline

namespace Report

/-- The indentation of all lines but the first ones. -/
def indent : String := "    "

/-- Names separated by commas. -/
def names (ns : List String) : String := ", ".intercalate ns

/-- One line for each annotation. -/
def annots (indentation : String) (as : List AnnotOutline) : List String :=
  as.map fun a =>
    indentation ++ "@" ++ a.descriptor ++ "(" ++
      names (a.members.map fun (name, value) => name ++ " = " ++ value.describe) ++ ")"

/-- A line for a text that may be absent. -/
def optional (word : String) (text : Option String) : List String :=
  text.toList.map fun t => indent ++ word ++ " " ++ t

/-- A line for names, if there are any. -/
def listing (word : String) (ns : List String) : List String :=
  if ns.isEmpty then [] else [indent ++ word ++ " " ++ names ns]

/-- The line of a record component. -/
def component (c : ComponentOutline) : String :=
  indent ++ "component " ++ c.name ++ " " ++ c.descriptor

/-- The lines of a field. -/
def field (f : FieldOutline) : List String :=
  annots indent f.annots ++
    [indent ++ f.flags.describe ++ " " ++ f.descriptor ++ " " ++ f.name ++
      (match f.value with
        | some value => " = " ++ value.describe
        | none => "")]

/-- The lines of a method. -/
def method (m : MethodOutline) : List String :=
  annots indent m.annots ++
    [indent ++ m.flags.describe ++ " " ++ m.name ++ m.descriptor ++
      (if m.exceptions.isEmpty then "" else " throws " ++ names m.exceptions) ++
      (match m.default with
        | some value => " default " ++ value.describe
        | none => "")]

/-- The lines of a class. -/
def lines (c : ClassOutline) : List String :=
  annots "" c.annots ++ [c.effectiveFlags.describe ++ " " ++ c.name] ++
    optional "signature" c.signature ++ optional "extends" c.superName ++
    listing "implements" c.interfaces ++ listing "permits" c.permittedSubclasses ++
    c.components.map component ++ (c.fields.getD []).flatMap field ++
    (c.methods.getD []).flatMap method

end Report

/-- The report of a class; every line ends with a line feed. -/
def ClassOutline.report (c : ClassOutline) : String :=
  String.join ((Report.lines c).map fun line => line ++ "\n")

end JvmOutline
