import JvmOutline.ClassFile.Element
import JvmOutline.Log
import JvmOutline.Outline.Annot

/-!
# Outlining fields, methods and record components

The stream of a member is taken in part by part (`FieldParts.accept`, `MethodParts.accept`,
`ComponentParts.accept`).  A part that occurs once is refused the second time.  Annotations and
constants are outlined when they are met, and only then is a repeated part noticed.  An attribute
that the member has no use for is reported and left out.

At the end the access flags of a field or method have to be there, and its annotations are the
visible ones, then the invisible ones.
-/

namespace JvmOutline

/-! ### What fields and methods share -/

/-- The parts that fields and methods have in common, as far as they are known. -/
structure SharedParts where
  flags : Option AccessFlags
  signature : Option String
  visible : Option (List AnnotOutline)
  invisible : Option (List AnnotOutline)

namespace SharedParts

/-- Nothing is known. -/
def empty : SharedParts := ⟨none, none, none, none⟩

/-- Takes in the access flags. -/
def putFlags (p : SharedParts) (scope : Scope) (flags : AccessFlags) :
    Except OutlineError SharedParts := do
  return { p with flags := ← Part.flags.once scope p.flags flags }

/-- Takes in the generic signature. -/
def putSignature (p : SharedParts) (scope : Scope) (signature : String) :
    Except OutlineError SharedParts := do
  return { p with signature := ← (Part.attr .signature).once scope p.signature signature }

/-- Takes in annotations of one visibility. -/
def putAnnots (p : SharedParts) (scope : Scope) (v : Visibility) (as : List AnnotOutline) :
    Except OutlineError SharedParts :=
  match v with
  | .visible => do
    return { p with visible := ← (Part.attr (.annots v)).once scope p.visible as }
  | .invisible => do
    return { p with invisible := ← (Part.attr (.annots v)).once scope p.invisible as }

/-- All annotations, the visible ones first. -/
def annots (p : SharedParts) : List AnnotOutline := p.visible.getD [] ++ p.invisible.getD []

end SharedParts

/-! ### Fields -/

/-- The constant value of the field `field`, from the constant at an index. -/
def ConstantValue.ofPool (pool : Pool) (field : String) (index : UInt16) :
    Except OutlineError ConstantValue := do
  match ← outlined (pool.entry index) with
  | .integer value => return .int value
  | .long value => return .long value
  | .float bits => return .float bits
  | .double bits => return .double bits
  | .string text => return .string (← outlined (pool.utf8 text))
  | other => .error (.constantKind field other.kind)

/-- The parts of a field, as far as they are known. -/
structure FieldParts where
  shared : SharedParts
  value : Option ConstantValue

/-- Takes in a part of the field `field`. -/
def FieldParts.accept (pool : Pool) (field : String) (p : FieldParts) :
    MemberElement → Logged FieldParts
  | .flags flags => .check do
    return { p with shared := ← p.shared.putFlags (.field field) flags }
  | .attr (.signature text) => .check do
    return { p with shared := ← p.shared.putSignature (.field field) text }
  | .attr (.constantValue index) => .check do
    let value ← ConstantValue.ofPool pool field index
    return { p with value := ← (Part.attr .constantValue).once (.field field) p.value value }
  | .attr (.annots v as) => .check do
    let as ← Annot.outlineAll pool as
    return { p with shared := ← p.shared.putAnnots (.field field) v as }
  | .attr a => do
    Logged.report (.ignored (.field field) a.name)
    return p

/-- The outline of a field. -/
def FieldOutline.ofMember (pool : Pool) (f : Member) : Logged FieldOutline := do
  let p ← f.elements.foldlM (FieldParts.accept pool f.name) ⟨.empty, none⟩
  let flags ← Logged.check (Part.flags.required (.field f.name) p.shared.flags)
  return { name := f.name
           flags := flags.ofField
           descriptor := f.descriptor
           signature := p.shared.signature
           value := p.value
           annots := p.shared.annots }

/-! ### Methods -/

/-- Annotations by parameter position, in ascending order. -/
abbrev ParameterAnnots := List (Nat × List AnnotOutline)

namespace ParameterAnnots

/-- Appends annotations at a position. -/
def append (position : Nat) (as : List AnnotOutline) : ParameterAnnots → ParameterAnnots
  | [] => [(position, as)]
  | (p, bs) :: rest =>
    if position < p then (position, as) :: (p, bs) :: rest
    else if position = p then (p, bs ++ as) :: rest
    else (p, bs) :: append position as rest

/-- Outlines the annotations of the parameters from `position` on and appends them.  A parameter
without annotations leaves no trace, so the map comes into being with the first annotation. -/
def outline (pool : Pool) (map : Option ParameterAnnots) (position : Nat) :
    List (List Annot) → Except OutlineError (Option ParameterAnnots)
  | [] => .ok map
  | [] :: rest => outline pool map (position + 1) rest
  | as :: rest => do
    let as ← Annot.outlineAll pool as
    outline pool (some (append position as (map.getD []))) (position + 1) rest

end ParameterAnnots

/-- The parts of a method, as far as they are known. -/
structure MethodParts where
  shared : SharedParts
  exceptions : List String
  parameterAnnots : Option ParameterAnnots
  parameterNames : Option (List (Option String))
  default : Option AnnotValue

/-- Takes in a part of the method in `scope`. -/
def MethodParts.accept (pool : Pool) (scope : Scope) (p : MethodParts) :
    MemberElement → Logged MethodParts
  | .flags flags => .check do
    return { p with shared := ← p.shared.putFlags scope flags }
  | .attr (.signature text) => .check do
    return { p with shared := ← p.shared.putSignature scope text }
  | .attr (.exceptions names) =>
    return { p with exceptions := p.exceptions ++ names.map ClassName.qualified }
  | .attr (.annots v as) => .check do
    let as ← Annot.outlineAll pool as
    return { p with shared := ← p.shared.putAnnots scope v as }
  | .attr (.parameterAnnots _ as) => .check do
    return { p with parameterAnnots := ← ParameterAnnots.outline pool p.parameterAnnots 0 as }
  | .attr (.methodParameters ps) =>
    return { p with parameterNames := some (p.parameterNames.getD [] ++ ps.map Parameter.name) }
  | .attr (.annotDefault value) => .check do
    let value ← value.outline pool
    return { p with default := ← (Part.attr .annotDefault).once scope p.default value }
  | .attr a => do
    Logged.report (.ignored scope a.name)
    return p

/-- The outline of a method. -/
def MethodOutline.ofMember (pool : Pool) (m : Member) : Logged MethodOutline := do
  let scope := Scope.method m.name m.descriptor
  let p ← m.elements.foldlM (MethodParts.accept pool scope) ⟨.empty, [], none, none, none⟩
  let flags ← Logged.check (Part.flags.required scope p.shared.flags)
  return { name := m.name
           flags := flags.ofMethod
           descriptor := m.descriptor
           signature := p.shared.signature
           exceptions := p.exceptions
           parameterAnnots := p.parameterAnnots
           parameterNames := p.parameterNames
           default := p.default
           annots := p.shared.annots }

/-! ### Record components -/

/-- The parts of a record component, as far as they are known. -/
structure ComponentParts where
  signature : Option String
  annots : Option (List AnnotOutline)
  typeAnnots : Option (List AnnotOutline)

/-- Takes in an attribute of the record component in `scope`.  Annotations of both visibilities
are kept in the order in which they come. -/
def ComponentParts.accept (pool : Pool) (scope : Scope) (p : ComponentParts) :
    Attribute → Logged ComponentParts
  | .signature text => .check do
    return { p with signature := ← (Part.attr .signature).once scope p.signature text }
  | .annots _ as => .check do
    return { p with annots := some (p.annots.getD [] ++ (← Annot.outlineAll pool as)) }
  | .typeAnnots _ as => .check do
    return { p with typeAnnots := some (p.typeAnnots.getD [] ++ (← TypeAnnot.outlineAll pool as)) }
  | a => do
    Logged.report (.ignored scope a.name)
    return p

/-- The outline of a record component. -/
def ComponentOutline.ofComponent (pool : Pool) (c : Component) : Logged ComponentOutline := do
  let p ← c.attributes.foldlM (ComponentParts.accept pool (.component c.name)) ⟨none, none, none⟩
  return { name := c.name
           descriptor := c.descriptor
           signature := p.signature
           annots := p.annots
           typeAnnots := p.typeAnnots }

end JvmOutline
