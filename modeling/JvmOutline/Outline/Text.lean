import JvmOutline.Decimal.Layout
import JvmOutline.Outline.Basic
import JvmOutline.Text.Shown

/-!
# The text of values

Every value is shown with its kind: `Int(1)`, `String("a")`.  Arrays, annotations and their
members nest in the same way, with elements between brackets and separated by commas.
-/

namespace JvmOutline

/-- The text of the constant value of a field. -/
def ConstantValue.describe : ConstantValue → String
  | int value => tagged "Int" (toString value.toInt)
  | long value => tagged "Long" (toString value.toInt)
  | float bits => tagged "Float" (singleText bits)
  | double bits => tagged "Double" (doubleText bits)
  | string text => tagged "String" (quoted text)

mutual

/-- The text of the value of an annotation member. -/
def AnnotValue.describe : AnnotValue → String
  | .boolean value => tagged "Boolean" (if value then "true" else "false")
  | .byte value => tagged "Byte" (toString value.toInt)
  | .char unit => tagged "Char" (toString unit.toNat)
  | .short value => tagged "Short" (toString value.toInt)
  | .int value => tagged "Int" (toString value.toInt)
  | .long value => tagged "Long" (toString value.toInt)
  | .float bits => tagged "Float" (singleText bits)
  | .double bits => tagged "Double" (doubleText bits)
  | .string text => tagged "String" (quoted text)
  | .type descriptor => tagged "Type" (recordText "TypeRef" [("descriptor", quoted descriptor)])
  | .enum descriptor constant =>
    tagged "Enum" (recordText "EnumRef"
      [("descriptor", quoted descriptor), ("constant", quoted constant)])
  | .annot a => tagged "Annotation" a.describe
  | .array values => tagged "Array" (listText (AnnotValue.describeList values))

/-- The text of an annotation as a value. -/
def AnnotOutline.describe : AnnotOutline → String
  | ⟨descriptor, members⟩ =>
    recordText "AnnotationStub"
      [("descriptor", quoted descriptor),
        ("members", listText (AnnotValue.describeMembers members))]

/-- The texts of members: a name and a value between parentheses. -/
def AnnotValue.describeMembers : List (String × AnnotValue) → List String
  | [] => []
  | (name, value) :: rest =>
    tagged "" (quoted name ++ ", " ++ value.describe) :: AnnotValue.describeMembers rest

/-- The texts of values. -/
def AnnotValue.describeList : List AnnotValue → List String
  | [] => []
  | value :: rest => value.describe :: AnnotValue.describeList rest

end

end JvmOutline
