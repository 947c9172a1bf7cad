import JvmOutline.FormatError
import JvmOutline.Outline.Scope

/-!
# Outline errors — why a class has no outline

Outlining a class fails when its bytes cannot be had, when they are no class file, or when the
class file is not a well-formed class.  `OutlineError.message` is the text of each cause.

A format error becomes an outline error by `OutlineError.ofFormat`: a byte that begins no kind of
annotation value is a cause of its own, since a value can also be found unfit later.
-/

namespace JvmOutline

/-- The causes for which outlining a class fails. -/
inductive OutlineError where
  /-- The bytes of the class could not be had, for the given reason. -/
  | unreadable (reason : String)
  /-- The bytes are no class file. -/
  | format (cause : FormatError)
  /-- A declaration has a second part of a kind that occurs once. -/
  | repeated (part : Part) (scope : Scope)
  /-- A declaration lacks a part. -/
  | missing (part : Part) (scope : Scope)
  /-- No annotation value has this tag. -/
  | valueTag (tag : UInt8)
  /-- The constant of a field is of a kind that no field has. -/
  | constantKind (field : String) (found : EntryKind)
  deriving DecidableEq

namespace OutlineError

/-- The outline error for a format error. -/
def ofFormat : FormatError → OutlineError
  | .unknownValueTag tag => valueTag tag
  | e => format e

/-- The text of an error. -/
def message : OutlineError → String
  | unreadable reason => "Failed to read class bytes: " ++ reason
  | format cause => cause.message
  | repeated part scope => "More than one " ++ part.text ++ " in " ++ scope.text
  | missing part scope => "No " ++ part.text ++ " in " ++ scope.text
  | valueTag tag =>
    "Unsupported annotation value tag '" ++ String.singleton (ElementValue.tagChar tag) ++ "'"
  | constantKind field found =>
    "Unsupported constant value for field " ++ field ++ ": " ++ found.name

end OutlineError

/-- Brings the outcome of a look-up among the errors of outlining. -/
def outlined {α : Type} (x : Except FormatError α) : Except OutlineError α :=
  x.mapError OutlineError.ofFormat

/-- Stores the first value of a part; a second one is refused. -/
def Part.once {α : Type} (part : Part) (scope : Scope) (slot : Option α) (a : α) :
    Except OutlineError (Option α) :=
  match slot with
  | none => .ok (some a)
  | some _ => .error (.repeated part scope)

/-- The value of a part that has to be there. -/
def Part.required {α : Type} (part : Part) (scope : Scope) : Option α → Except OutlineError α
  | some a => .ok a
  | none => .error (.missing part scope)

end JvmOutline
