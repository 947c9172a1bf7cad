import JvmOutline.AccessFlags
import JvmOutline.ClassName

/-!
# Outlines — the shape of a class

An outline tells a class's names, modifiers, members and annotations, and nothing of what its
methods do.  It is a plain value, in which every name of a class is qualified and every constant
is resolved.

Floating-point constants are bit patterns, so two outlines are equal exactly when they agree in
every bit.  `AnnotValue.same` and `AnnotOutline.same` decide this for the values of annotations,
which nest; the equality of all other parts is the equality of their fields.

The members of an annotation are a map that remembers the order of first insertion
(`AnnotOutline.insert`): a repeated name replaces the value and keeps the place.  So a member that
is put in changes the answer for its own name only (`AnnotOutline.get?_insert`), and a new one goes
to the end (`AnnotOutline.map_fst_insertMember`).
-/

namespace JvmOutline

mutual

/-- The value of an annotation member. -/
inductive AnnotValue where
  | boolean (value : Bool)
  | byte (value : Int8)
  | char (unit : UInt16)
  | short (value : Int16)
  | int (value : Int32)
  | long (value : Int64)
  | float (bits : UInt32)
  | double (bits : UInt64)
  | string (text : String)
  /-- A class literal. -/
  | type (descriptor : String)
  /-- A constant of an enumeration. -/
  | enum (descriptor constant : String)
  | annot (a : AnnotOutline)
  | array (values : List AnnotValue)

/-- An annotation: the descriptor of its type, and its members in order. -/
structure AnnotOutline where
  descriptor : String
  members : List (String × AnnotValue)

end

/-- The constant value of a field, typed after the constant it comes from. -/
inductive ConstantValue where
  | int (value : Int32)
  | long (value : Int64)
  | float (bits : UInt32)
  | double (bits : UInt64)
  | string (text : String)
  deriving DecidableEq

/-! ### Equality -/

mutual

/-- Whether two values agree in every bit. -/
def AnnotValue.same : AnnotValue → AnnotValue → Bool
  | .boolean a, .boolean b => a == b
  | .byte a, .byte b => a == b
  | .char a, .char b => a == b
  | .short a, .short b => a == b
  | .int a, .int b => a == b
  | .long a, .long b => a == b
  | .float a, .float b => a == b
  | .double a, .double b => a == b
  | .string a, .string b => a == b
  | .type a, .type b => a == b
  | .enum a m, .enum b n => a == b && m == n
  | .annot a, .annot b => a.same b
  | .array as, .array bs => AnnotValue.sameList as bs
  | _, _ => false

/-- Whether two annotations agree in every bit. -/
def AnnotOutline.same : AnnotOutline → AnnotOutline → Bool
  | ⟨a, ms⟩, ⟨b, ns⟩ => a == b && AnnotValue.sameMembers ms ns

/-- Whether two lists of members agree in order and in every bit. -/
def AnnotValue.sameMembers : List (String × AnnotValue) → List (String × AnnotValue) → Bool
  | [], [] => true
  | (m, a) :: ms, (n, b) :: ns => m == n && a.same b && AnnotValue.sameMembers ms ns
  | _, _ => false

/-- Whether two lists of values agree in order and in every bit. -/
def AnnotValue.sameList : List AnnotValue → List AnnotValue → Bool
  | [], [] => true
  | a :: as, b :: bs => a.same b && AnnotValue.sameList as bs
  | _, _ => false

end

instance : BEq AnnotValue := ⟨AnnotValue.same⟩

instance : BEq AnnotOutline := ⟨AnnotOutline.same⟩

/-! ### Annotations -/

namespace AnnotOutline

/-- An annotation without members. -/
def ofDescriptor (descriptor : String) : AnnotOutline := ⟨descriptor, []⟩

/-- Puts a member into a list of members: at the place of the first one of that name, or else at
the end. -/
def insertMember (name : String) (value : AnnotValue) :
    List (String × AnnotValue) → List (String × AnnotValue)
  | [] => [(name, value)]
  | (n, v) :: rest =>
    if n = name then (n, value) :: rest else (n, v) :: insertMember name value rest

/-- Puts a member into an annotation. -/
def insert (a : AnnotOutline) (name : String) (value : AnnotValue) : AnnotOutline :=
  { a with members := insertMember name value a.members }

/-- The value of a member. -/
def get? (a : AnnotOutline) (name : String) : Option AnnotValue :=
  (a.members.find? fun m => m.1 = name).map Prod.snd

/-- The number of members. -/
def size (a : AnnotOutline) : Nat := a.members.length

/-- Whether there is no member. -/
def isEmpty (a : AnnotOutline) : Bool := a.members.isEmpty

/-! What putting a member in does to the names and to the look-ups. -/

section

variable {name : String} {value : AnnotValue} {ms : List (String × AnnotValue)}

/-- A new name goes to the end, and a known one changes nothing in the names. -/
theorem map_fst_insertMember : (insertMember name value ms).map Prod.fst =
    if name ∈ ms.map Prod.fst then ms.map Prod.fst else ms.map Prod.fst ++ [name] := by
  induction ms with
  | nil => rfl
  | cons m ms ih =>
    rw [insertMember]
    by_cases hm : m.1 = name
    · rw [if_pos hm, List.map_cons, List.map_cons, if_pos (hm ▸ List.mem_cons_self)]
    · rw [if_neg hm, List.map_cons, List.map_cons, ih]
      by_cases hms : name ∈ ms.map Prod.fst
      · rw [if_pos hms, if_pos (List.mem_cons_of_mem _ hms)]
      · rw [if_neg hms, if_neg fun h => hms (List.mem_of_ne_of_mem (Ne.symm hm) h)]
        rfl

theorem insertMember_of_not_mem (h : name ∉ ms.map Prod.fst) :
    insertMember name value ms = ms ++ [(name, value)] := by
  induction ms with
  | nil => rfl
  | cons m ms ih =>
    rw [List.map_cons, List.mem_cons, not_or] at h
    rw [insertMember, if_neg (Ne.symm h.1), ih h.2, List.cons_append]

/-- A look-up finds the value that was put in, under its own name only. -/
theorem get?_insert (a : AnnotOutline) (name : String) (value : AnnotValue) (n : String) :
    (a.insert name value).get? n = if name = n then some value else a.get? n := by
  obtain ⟨descriptor, members⟩ := a
  unfold insert get?
  induction members with
  | nil =>
    by_cases hn : name = n
    · simp [insertMember, hn]
    · simp [insertMember, hn]
  | cons m members ih =>
    rw [insertMember]
    by_cases hm : m.1 = name
    · by_cases hn : name = n
      · simp [hm, hn]
      · simp [hm, hn]
    · rw [if_neg hm]
      by_cases hmn : m.1 = n
      · have hne : name ≠ n := fun hn => hm (hmn.trans hn.symm)
        simp [hmn, hne]
      · simpa [hmn] using ih

end

/-- The qualified name of the annotation's type. -/
def typeName? (a : AnnotOutline) : Option String := ClassName.ofDescriptor? a.descriptor

/-- The first annotation whose type has the given descriptor. -/
def find? (as : List AnnotOutline) (descriptor : String) : Option AnnotOutline :=
  List.find? (fun a => a.descriptor = descriptor) as

end AnnotOutline

/-! ### Declarations -/

/-- A field. -/
structure FieldOutline where
  name : String
  flags : AccessFlags
  descriptor : String
  signature : Option String
  value : Option ConstantValue
  annots : List AnnotOutline
  deriving BEq

/-- A method. -/
structure MethodOutline where
  name : String
  flags : AccessFlags
  descriptor : String
  signature : Option String
  /-- The qualified names of the declared exceptions. -/
  exceptions : List String
  /-- The annotations of the parameters by position, in ascending order.  A parameter without
  annotations has no place, and without annotated parameters there is no map. -/
  parameterAnnots : Option (List (Nat × List AnnotOutline))
  /-- The names of the parameters, if the class file lists them. -/
  parameterNames : Option (List (Option String))
  /-- The default value of a member of an annotation type. -/
  default : Option AnnotValue
  annots : List AnnotOutline
  deriving BEq

/-- A component of a record class. -/
structure ComponentOutline where
  name : String
  descriptor : String
  signature : Option String
  annots : Option (List AnnotOutline)
  typeAnnots : Option (List AnnotOutline)
  deriving BEq

/-- A class. -/
structure ClassOutline where
  /-- The qualified name. -/
  name : String
  /-- The modifiers of the header, which for a nested class are not the declared ones. -/
  flags : AccessFlags
  signature : Option String
  superName : Option String
  interfaces : List String
  /-- The methods; there is no list if there is no method. -/
  methods : Option (List MethodOutline)
  /-- The fields; there is no list if there is no field. -/
  fields : Option (List FieldOutline)
  permittedSubclasses : List String
  components : List ComponentOutline
  /-- The declared modifiers of a nested class. -/
  innerFlags : Option AccessFlags
  annots : List AnnotOutline
  deriving BEq

namespace ClassOutline

/-- Whether the class is nested in another one. -/
def isNested (c : ClassOutline) : Bool := c.innerFlags.isSome

/-- The declared modifiers. -/
def effectiveFlags (c : ClassOutline) : AccessFlags := c.innerFlags.getD c.flags

/-- The number of methods. -/
def methodCount (c : ClassOutline) : Nat := (c.methods.getD []).length

/-- The number of fields. -/
def fieldCount (c : ClassOutline) : Nat := (c.fields.getD []).length

/-- The methods of a name. -/
def methodsNamed (c : ClassOutline) (name : String) : List MethodOutline :=
  (c.methods.getD []).filter fun m => m.name = name

/-- The first field of a name. -/
def field? (c : ClassOutline) (name : String) : Option FieldOutline :=
  (c.fields.getD []).find? fun f => f.name = name

end ClassOutline

end JvmOutline
