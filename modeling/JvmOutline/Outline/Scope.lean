import JvmOutline.Attribute.Basic

/-!
# Scopes — where in a class something is

An error or a log record says which declaration it is about (`Scope`), and an error about a
missing or repeated part says which part (`Part`).
-/

namespace JvmOutline

/-- The declaration that an error or a log record is about. -/
inductive Scope where
  | classFile
  | class (name : String)
  | method (name descriptor : String)
  | field (name : String)
  | component (name : String)
  deriving DecidableEq

/-- The text that names a scope. -/
def Scope.text : Scope → String
  | classFile => "class file"
  | .class name => "class " ++ name
  | method name descriptor => "method " ++ name ++ descriptor
  | field name => "field " ++ name
  | component name => "record component " ++ name

/-- A part of which a declaration has at most one. -/
inductive Part where
  | className
  | flags
  | superclass
  | interfaces
  | attr (kind : AttributeKind)
  deriving DecidableEq

/-- The text that names a part. -/
def Part.text : Part → String
  | className => "class name"
  | flags => "access flags"
  | superclass => "superclass"
  | interfaces => "interfaces"
  | attr kind => kind.name

end JvmOutline
