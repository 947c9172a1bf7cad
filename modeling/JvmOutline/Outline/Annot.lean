import JvmOutline.Attribute.Basic
import JvmOutline.Outline.Basic
import JvmOutline.Outline.Error
import JvmOutline.Pool.Basic

/-!
# Outlining annotations

The numbers in an annotation are indexes of constants.  Outlining looks them up: the tag of a
value says which kind of constant its index has to lead to and what its value means.  Arrays keep
their elements and their order, nested annotations are outlined in turn, and enumeration constants
and class literals are taken over.

Values are outlined from left to right, depth first, and the first one that cannot be outlined
decides the error.  A member whose name occurs again later is outlined too, before its value is
replaced.
-/

namespace JvmOutline

/-- The number or text that a tag and the index of a constant stand for. -/
def AnnotValue.ofConst (pool : Pool) (tag : UInt8) (index : UInt16) :
    Except OutlineError AnnotValue :=
  match ElementValue.tagChar tag with
  | 'B' => outlined do return .byte (← pool.integer index).toInt8
  | 'C' => outlined do return .char (← pool.integer index).toUInt32.toUInt16
  | 'S' => outlined do return .short (← pool.integer index).toInt16
  | 'I' => outlined do return .int (← pool.integer index)
  | 'Z' => outlined do return .boolean ((← pool.integer index) != 0)
  | 'J' => outlined do return .long (← pool.long index)
  | 'F' => outlined do return .float (← pool.float index)
  | 'D' => outlined do return .double (← pool.double index)
  | 's' => outlined do return .string (← pool.utf8 index)
  | _ => .error (.valueTag tag)

mutual

/-- Outlines a value. -/
def ElementValue.outline (pool : Pool) : ElementValue → Except OutlineError AnnotValue
  | .const tag index => AnnotValue.ofConst pool tag index
  | .enumConst descriptor constant => .ok (.enum descriptor constant)
  | .classLit descriptor => .ok (.type descriptor)
  | .annot a => do return .annot (← a.outline pool)
  | .array values => do return .array (← ElementValue.outlineList pool values)

/-- Outlines an annotation. -/
def Annot.outline (pool : Pool) : Annot → Except OutlineError AnnotOutline
  | ⟨descriptor, members⟩ => ElementValue.outlineMembers pool (.ofDescriptor descriptor) members

/-- Outlines members and puts each into an annotation. -/
def ElementValue.outlineMembers (pool : Pool) (a : AnnotOutline) :
    List (String × ElementValue) → Except OutlineError AnnotOutline
  | [] => .ok a
  | (name, value) :: rest => do
    let value ← value.outline pool
    ElementValue.outlineMembers pool (a.insert name value) rest

/-- Outlines the elements of an array. -/
def ElementValue.outlineList (pool : Pool) :
    List ElementValue → Except OutlineError (List AnnotValue)
  | [] => .ok []
  | value :: rest => do
    let value ← value.outline pool
    let rest ← ElementValue.outlineList pool rest
    return value :: rest

end

/-- Outlines annotations in order. -/
def Annot.outlineAll (pool : Pool) (as : List Annot) : Except OutlineError (List AnnotOutline) :=
  as.mapM (Annot.outline pool)

/-- Outlines type annotations in order; where the annotated type stands is not kept. -/
def TypeAnnot.outlineAll (pool : Pool) (as : List TypeAnnot) :
    Except OutlineError (List AnnotOutline) :=
  Annot.outlineAll pool (as.map TypeAnnot.annot)

end JvmOutline
