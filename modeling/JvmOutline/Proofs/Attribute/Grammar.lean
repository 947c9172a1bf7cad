import JvmOutline.Attribute.Reader
import JvmOutline.Proofs.Reading.Format
import Mathlib.Data.List.Forall2

/-!
# The grammar of attributes

`Attribute.Layout pool kind` says which bodies of attributes of a known kind are layouts of which
contents, if their indexes lead into `pool`.  It is written down without a budget and without an
order in which things are checked: one rule for each form that a value, a place of a type or an
attribute can have.

- `ElementValue.Layout` — the thirteen tags of element values, over any nesting.
- `TargetInfo` — the bytes that describe the place of a type annotation.
- `Attribute.Layout` and `Attribute.Stored` — the contents of attributes, and the attributes in
  the components of a record.
-/

namespace JvmOutline

/-! ### Indexes -/

namespace Pool

variable (pool : Pool)

/-- The index leads to a text. -/
def HasText (index : UInt16) (text : String) : Prop := pool.entry? index = some (.utf8 text)

/-- The index leads to a class of that name. -/
def HasClass (index : UInt16) (name : String) : Prop :=
  ∃ nameIndex, pool.entry? index = some (.classRef nameIndex) ∧ pool.HasText nameIndex name

/-- A text, by its index. -/
def TextLayout : Format String := fun bytes text =>
  ∃ index, pool.HasText index text ∧ bytes = Bytes.u2 index

/-- The name of a class, by its index. -/
def ClassLayout : Format String := fun bytes name =>
  ∃ index, pool.HasClass index name ∧ bytes = Bytes.u2 index

end Pool

namespace Format

variable {α β : Type}

/-- Something that may be missing; index 0 stands for that. -/
inductive Optional (L : Format α) : Format (Option α) where
  | none : Optional L (Bytes.u2 0) none
  | some {bytes : Bytes} {a : α} : L bytes a → Optional L bytes (some a)

/-- A layout of the first part of a pair, then one of the second. -/
inductive Pair (L : Format α) (M : Format β) : Format (α × β) where
  | intro {front back : Bytes} {a : α} {b : β} :
      L front a → M back b → Pair L M (front ++ back) (a, b)

end Format

/-! ### Annotations -/

/-- An annotation: its type, and its members after their number. -/
inductive Annot.Layout (pool : Pool) (value : Format ElementValue) : Format Annot where
  | intro {front back : Bytes} {descriptor : String} {members : List (String × ElementValue)} :
      pool.TextLayout front descriptor →
      Format.Counted2 (Format.Pair pool.TextLayout value) back members →
      Annot.Layout pool value (front ++ back) ⟨descriptor, members⟩

/-- The tags of numbers and texts. -/
def ElementValue.constTags : List Char := ['B', 'C', 'D', 'F', 'I', 'J', 'S', 'Z', 's']

/-- An element value: its tag, and what belongs to the tag. -/
inductive ElementValue.Layout (pool : Pool) : Format ElementValue where
  | const {tag : UInt8} {index : UInt16} :
      tagChar tag ∈ constTags → Layout pool (tag :: Bytes.u2 index) (.const tag index)
  | enumConst {tag : UInt8} {front back : Bytes} {descriptor constant : String} :
      tagChar tag = 'e' → pool.TextLayout front descriptor → pool.TextLayout back constant →
      Layout pool (tag :: (front ++ back)) (.enumConst descriptor constant)
  | classLit {tag : UInt8} {bytes : Bytes} {descriptor : String} :
      tagChar tag = 'c' → pool.TextLayout bytes descriptor →
      Layout pool (tag :: bytes) (.classLit descriptor)
  | annot {tag : UInt8} {bytes : Bytes} {a : Annot} :
      tagChar tag = '@' → Annot.Layout pool (Layout pool) bytes a →
      Layout pool (tag :: bytes) (.annot a)
  | array {tag : UInt8} {bytes : Bytes} {values : List ElementValue} :
      tagChar tag = '[' → Format.Counted2 (Layout pool) bytes values →
      Layout pool (tag :: bytes) (.array values)

/-- The bytes that describe the place of a type annotation, for each kind of place. -/
inductive TargetInfo : UInt8 → Bytes → Prop where
  | empty {target : UInt8} : target.toNat ∈ [0x13, 0x14, 0x15] → TargetInfo target []
  | one {target : UInt8} {bytes : Bytes} :
      target.toNat ∈ [0x00, 0x01, 0x16] → bytes.length = 1 → TargetInfo target bytes
  | two {target : UInt8} {bytes : Bytes} :
      target.toNat ∈ [0x10, 0x11, 0x12, 0x17, 0x42, 0x43, 0x44, 0x45, 0x46] → bytes.length = 2 →
      TargetInfo target bytes
  | three {target : UInt8} {bytes : Bytes} :
      target.toNat ∈ [0x47, 0x48, 0x49, 0x4A, 0x4B] → bytes.length = 3 → TargetInfo target bytes
  | table {target : UInt8} {rows : UInt16} {bytes : Bytes} :
      target.toNat ∈ [0x40, 0x41] → bytes.length = 6 * rows.toNat →
      TargetInfo target (Bytes.u2 rows ++ bytes)

/-- The steps to a part of a type, after their number. -/
def TypeAnnot.PathLayout : Format (List (UInt8 × UInt8)) :=
  Format.Counted1 (.ofFn fun step => [step.1, step.2])

/-- A type annotation: the place of the type, the part of it, and the annotation. -/
inductive TypeAnnot.Layout (pool : Pool) : Format TypeAnnot where
  | intro {target : UInt8} {info steps bytes : Bytes} {path : List (UInt8 × UInt8)} {a : Annot} :
      TargetInfo target info → PathLayout steps path →
      Annot.Layout pool (ElementValue.Layout pool) bytes a →
      Layout pool (target :: (info ++ (steps ++ bytes))) ⟨target, path, a⟩

/-! ### Parameters, nested classes, record components -/

/-- A formal parameter: its name, and its flags. -/
inductive Parameter.Layout (pool : Pool) : Format Parameter where
  | intro {bytes : Bytes} {name : Option String} {flags : UInt16} :
      Format.Optional pool.TextLayout bytes name →
      Layout pool (bytes ++ Bytes.u2 flags) ⟨name, ⟨flags⟩⟩

/-- A row of the table of nested classes. -/
inductive InnerClass.Layout (pool : Pool) : Format InnerClass where
  | intro {front mid back : Bytes} {inner : String} {outer simpleName : Option String}
      {flags : UInt16} :
      pool.ClassLayout front inner → Format.Optional pool.ClassLayout mid outer →
      Format.Optional pool.TextLayout back simpleName →
      Layout pool (front ++ (mid ++ (back ++ Bytes.u2 flags))) ⟨inner, outer, simpleName, ⟨flags⟩⟩

/-- A record component, whose stored attributes have the contents that `Stored` says. -/
inductive Component.Layout (pool : Pool) (Stored : RawAttribute → Attribute → Prop) :
    Format Component where
  | intro {front mid back : Bytes} {name descriptor : String} {stored : List RawAttribute}
      {attributes : List Attribute} :
      pool.TextLayout front name → pool.TextLayout mid descriptor →
      Format.Counted2 (.fits (fun a => a.body.length < 4294967296) RawAttribute.layout) back
        stored →
      List.Forall₂ Stored stored attributes →
      Layout pool Stored (front ++ (mid ++ back)) ⟨name, descriptor, attributes⟩

/-! ### Attributes -/

mutual

/-- The contents of an attribute of a known kind, from the first byte of its body to the last. -/
inductive Attribute.Layout (pool : Pool) : AttributeKind → Bytes → Attribute → Prop where
  | signature {bytes : Bytes} {text : String} : pool.TextLayout bytes text →
      Attribute.Layout pool .signature bytes (.signature text)
  | constantValue (index : UInt16) :
      Attribute.Layout pool .constantValue (Bytes.u2 index) (.constantValue index)
  | exceptions {bytes : Bytes} {names : List String} :
      Format.Counted2 pool.ClassLayout bytes names →
      Attribute.Layout pool .exceptions bytes (.exceptions names)
  | permittedSubclasses {bytes : Bytes} {names : List String} :
      Format.Counted2 pool.ClassLayout bytes names →
      Attribute.Layout pool .permittedSubclasses bytes (.permittedSubclasses names)
  | annots {v : Visibility} {bytes : Bytes} {as : List Annot} :
      Format.Counted2 (Annot.Layout pool (ElementValue.Layout pool)) bytes as →
      Attribute.Layout pool (.annots v) bytes (.annots v as)
  | parameterAnnots {v : Visibility} {bytes : Bytes} {as : List (List Annot)} :
      Format.Counted1 (Format.Counted2 (Annot.Layout pool (ElementValue.Layout pool))) bytes as →
      Attribute.Layout pool (.parameterAnnots v) bytes (.parameterAnnots v as)
  | typeAnnots {v : Visibility} {bytes : Bytes} {as : List TypeAnnot} :
      Format.Counted2 (TypeAnnot.Layout pool) bytes as →
      Attribute.Layout pool (.typeAnnots v) bytes (.typeAnnots v as)
  | annotDefault {bytes : Bytes} {value : ElementValue} : ElementValue.Layout pool bytes value →
      Attribute.Layout pool .annotDefault bytes (.annotDefault value)
  | methodParameters {bytes : Bytes} {parameters : List Parameter} :
      Format.Counted1 (Parameter.Layout pool) bytes parameters →
      Attribute.Layout pool .methodParameters bytes (.methodParameters parameters)
  | innerClasses {bytes : Bytes} {rows : List InnerClass} :
      Format.Counted2 (InnerClass.Layout pool) bytes rows →
      Attribute.Layout pool .innerClasses bytes (.innerClasses rows)
  | record {bytes : Bytes} {components : List Component} :
      Format.Counted2 (Component.Layout pool (Attribute.Stored pool)) bytes components →
      Attribute.Layout pool .record bytes (.record components)

/-- The contents of a stored attribute: a layout if its name is known, and otherwise the name. -/
inductive Attribute.Stored (pool : Pool) : RawAttribute → Attribute → Prop where
  | known {kind : AttributeKind} {stored : RawAttribute} {a : Attribute} :
      pool.HasText stored.name kind.name → Attribute.Layout pool kind stored.body a →
      Attribute.Stored pool stored a
  | other {name : String} {stored : RawAttribute} :
      pool.HasText stored.name name → (∀ kind : AttributeKind, kind.name ≠ name) →
      Attribute.Stored pool stored (.other name)

end

end JvmOutline
