import JvmOutline.Decimal.Layout
import JvmOutline.Text.Shown

/-!
# Pool entries — the constants of a class file

A constant pool is a table of slots.  An entry is a text, a number, or a bundle of indexes of
other entries.  A wide entry takes two slots, and `Entry.unusable` stands in the second one.

Floating-point numbers are held as bit patterns, so that entries are equal exactly when they hold
the same bits; `Entry.sameValue` compares them as numbers instead.
-/

namespace JvmOutline

/-- The kinds of entries. -/
inductive EntryKind where
  | utf8
  | integer
  | float
  | long
  | double
  | classRef
  | string
  | fieldRef
  | methodRef
  | interfaceMethodRef
  | nameAndType
  | methodHandle
  | methodType
  | dynamic
  | invokeDynamic
  | moduleRef
  | packageRef
  | unusable
  deriving DecidableEq

/-- The name of a kind. -/
def EntryKind.name : EntryKind → String
  | utf8 => "Utf8"
  | integer => "Integer"
  | float => "Float"
  | long => "Long"
  | double => "Double"
  | classRef => "Class"
  | string => "String"
  | fieldRef => "FieldRef"
  | methodRef => "MethodRef"
  | interfaceMethodRef => "InterfaceMethodRef"
  | nameAndType => "NameAndType"
  | methodHandle => "MethodHandle"
  | methodType => "MethodType"
  | dynamic => "Dynamic"
  | invokeDynamic => "InvokeDynamic"
  | moduleRef => "Module"
  | packageRef => "Package"
  | unusable => "Unusable"

/-- One slot of a constant pool. -/
inductive Entry where
  | utf8 (text : String)
  | integer (value : Int32)
  | float (bits : UInt32)
  | long (value : Int64)
  | double (bits : UInt64)
  | classRef (name : UInt16)
  | string (text : UInt16)
  | fieldRef (owner nameAndType : UInt16)
  | methodRef (owner nameAndType : UInt16)
  | interfaceMethodRef (owner nameAndType : UInt16)
  | nameAndType (name descriptor : UInt16)
  | methodHandle (kind : UInt8) (target : UInt16)
  | methodType (descriptor : UInt16)
  | dynamic (bootstrap nameAndType : UInt16)
  | invokeDynamic (bootstrap nameAndType : UInt16)
  | moduleRef (name : UInt16)
  | packageRef (name : UInt16)
  | unusable
  deriving DecidableEq

namespace Entry

/-- The kind of an entry. -/
def kind : Entry → EntryKind
  | utf8 _ => .utf8
  | integer _ => .integer
  | float _ => .float
  | long _ => .long
  | double _ => .double
  | classRef _ => .classRef
  | string _ => .string
  | fieldRef _ _ => .fieldRef
  | methodRef _ _ => .methodRef
  | interfaceMethodRef _ _ => .interfaceMethodRef
  | nameAndType _ _ => .nameAndType
  | methodHandle _ _ => .methodHandle
  | methodType _ => .methodType
  | dynamic _ _ => .dynamic
  | invokeDynamic _ _ => .invokeDynamic
  | moduleRef _ => .moduleRef
  | packageRef _ => .packageRef
  | unusable => .unusable

/-- Whether an entry takes two slots. -/
def isWide : Entry → Bool
  | long _ => true
  | double _ => true
  | _ => false

/-- Equality of entries whose floating-point numbers are compared as numbers. -/
def sameValue : Entry → Entry → Bool
  | float a, float b => Binary.single.equal a.toNat b.toNat
  | double a, double b => Binary.double.equal a.toNat b.toNat
  | a, b => a == b

/-! ### The text of an entry -/

/-- The text of an index. -/
private def indexText (index : UInt16) : String := toString index.toNat

/-- A record of indexes. -/
private def indexes (name : String) (fields : List (String × UInt16)) : String :=
  recordText name (fields.map fun (field, index) => (field, indexText index))

private def memberRef (owner nameAndType : UInt16) : String :=
  indexes "RefInfo" [("class_index", owner), ("name_and_type_index", nameAndType)]

private def dynamicRef (bootstrap nameAndType : UInt16) : String :=
  indexes "InvokeDynamicInfo"
    [("bootstrap_method_attr_index", bootstrap), ("name_and_type_index", nameAndType)]

/-- The text that shows an entry with all its parts. -/
def describe : Entry → String
  | utf8 text => tagged "Utf8" (quoted text)
  | integer value => tagged "Integer" (toString value.toInt)
  | float bits => tagged "Float" (singleText bits)
  | long value => tagged "Long" (toString value.toInt)
  | double bits => tagged "Double" (doubleText bits)
  | classRef name => tagged "Class" (indexes "ClassInfo" [("name_index", name)])
  | string text => indexes "String" [("string_index", text)]
  | fieldRef owner nat => tagged "FieldRef" (memberRef owner nat)
  | methodRef owner nat => tagged "MethodRef" (memberRef owner nat)
  | interfaceMethodRef owner nat => tagged "InterfaceMethodRef" (memberRef owner nat)
  | nameAndType name descriptor =>
    tagged "NameAndType" (indexes "NameAndTypeInfo"
      [("name_index", name), ("descriptor_index", descriptor)])
  | methodHandle kind target =>
    tagged "MethodHandle" (recordText "MethodHandleInfo"
      [("reference_kind", toString kind.toNat), ("reference_index", indexText target)])
  | methodType descriptor =>
    tagged "MethodType" (indexes "MethodTypeInfo" [("descriptor_index", descriptor)])
  | dynamic bootstrap nat => tagged "Dynamic" (dynamicRef bootstrap nat)
  | invokeDynamic bootstrap nat => tagged "InvokeDynamic" (dynamicRef bootstrap nat)
  | moduleRef name => indexes "Module" [("name_index", name)]
  | packageRef name => indexes "Package" [("name_index", name)]
  | unusable => "Unusable"

end Entry

end JvmOutline
