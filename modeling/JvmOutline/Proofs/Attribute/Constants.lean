import JvmOutline.Proofs.ClassFile.Elements

/-!
# The constants of attributes

The numbers and texts in annotations are constants: a tag, and the index of an entry.
`ElementValue.constants` lists them, at any depth and from left to right, and
`Attribute.constants` and `Element.constants` list those of attributes and of the elements of a
stream.

**Only known tags** (`ClassFile.Streams.tag_of_mem`).  Each constant in the stream of a class file
has one of the nine tags of numbers and texts, since the grammar of attributes has no other form.
-/

namespace JvmOutline

/-! ### Values -/

mutual

/-- The constants of a value, with their tags and indexes, from left to right. -/
def ElementValue.constants : ElementValue → List (UInt8 × UInt16)
  | .const tag index => [(tag, index)]
  | .enumConst _ _ => []
  | .classLit _ => []
  | .annot a => a.constants
  | .array values => ElementValue.constantsList values

/-- The constants of an annotation. -/
def Annot.constants : Annot → List (UInt8 × UInt16)
  | ⟨_, members⟩ => ElementValue.constantsMembers members

/-- The constants of members. -/
def ElementValue.constantsMembers : List (String × ElementValue) → List (UInt8 × UInt16)
  | [] => []
  | (_, value) :: rest => value.constants ++ ElementValue.constantsMembers rest

/-- The constants of the elements of an array. -/
def ElementValue.constantsList : List ElementValue → List (UInt8 × UInt16)
  | [] => []
  | value :: rest => value.constants ++ ElementValue.constantsList rest

end

namespace ElementValue

theorem constantsMembers_eq (members : List (String × ElementValue)) :
    constantsMembers members = members.flatMap fun m => m.2.constants := by
  induction members with
  | nil => rfl
  | cons m members ih => rw [constantsMembers, ih, List.flatMap_cons]

theorem constantsList_eq (values : List ElementValue) :
    constantsList values = values.flatMap constants := by
  induction values with
  | nil => rfl
  | cons v values ih => rw [constantsList, ih, List.flatMap_cons]

theorem constants_annot (a : Annot) :
    (annot a).constants = a.members.flatMap fun m => m.2.constants := by
  obtain ⟨descriptor, members⟩ := a
  rw [constants, Annot.constants, constantsMembers_eq]

theorem constants_array (values : List ElementValue) :
    (array values).constants = values.flatMap constants := by
  rw [constants, constantsList_eq]

/-- Induction on a value: what holds of the values in an annotation or array holds of it. -/
theorem induct {P : ElementValue → Prop} (const : ∀ tag index, P (.const tag index))
    (enumConst : ∀ descriptor constant, P (.enumConst descriptor constant))
    (classLit : ∀ descriptor, P (.classLit descriptor))
    (annot : ∀ a : Annot, (∀ m ∈ a.members, P m.2) → P (.annot a))
    (array : ∀ values, (∀ v ∈ values, P v) → P (.array values)) : ∀ v, P v
  | .const tag index => const tag index
  | .enumConst descriptor constant => enumConst descriptor constant
  | .classLit descriptor => classLit descriptor
  | .annot ⟨descriptor, members⟩ => annot ⟨descriptor, members⟩ fun m hm =>
    have : sizeOf m.2 < sizeOf members := by
      have := List.sizeOf_lt_of_mem hm
      cases m
      simp only [Prod.mk.sizeOf_spec] at this ⊢
      omega
    induct const enumConst classLit annot array m.2
  | .array values => array values fun v hv =>
    have := List.sizeOf_lt_of_mem hv
    induct const enumConst classLit annot array v

end ElementValue

/-! ### Attributes and elements -/

mutual

/-- The constants of an attribute. -/
def Attribute.constants : Attribute → List (UInt8 × UInt16)
  | .annots _ as => as.flatMap Annot.constants
  | .parameterAnnots _ lists => lists.flatten.flatMap Annot.constants
  | .typeAnnots _ as => as.flatMap fun a => a.annot.constants
  | .annotDefault value => value.constants
  | .record components => Component.constantsList components
  | _ => []

/-- The constants of record components. -/
def Component.constantsList : List Component → List (UInt8 × UInt16)
  | [] => []
  | ⟨_, _, attributes⟩ :: rest => Attribute.constantsList attributes ++ Component.constantsList rest

/-- The constants of the attributes of a record component. -/
def Attribute.constantsList : List Attribute → List (UInt8 × UInt16)
  | [] => []
  | a :: rest => a.constants ++ Attribute.constantsList rest

end

theorem Attribute.constantsList_eq (as : List Attribute) :
    constantsList as = as.flatMap constants := by
  induction as with
  | nil => rfl
  | cons a as ih => rw [constantsList, ih, List.flatMap_cons]

/-- The constants of a record component. -/
def Component.constants (c : Component) : List (UInt8 × UInt16) :=
  c.attributes.flatMap Attribute.constants

theorem Component.constantsList_eq (cs : List Component) :
    constantsList cs = cs.flatMap constants := by
  induction cs with
  | nil => rfl
  | cons c cs ih =>
    obtain ⟨name, descriptor, attributes⟩ := c
    rw [constantsList, ih, List.flatMap_cons, constants, Attribute.constantsList_eq]

theorem Attribute.constants_record (components : List Component) :
    (record components).constants = components.flatMap Component.constants := by
  rw [constants, Component.constantsList_eq]

/-- The constants of a field or method. -/
def Member.constants (m : Member) : List (UInt8 × UInt16) :=
  m.elements.flatMap fun
    | .flags _ => []
    | .attr a => a.constants

/-- The constants of an element. -/
def Element.constants : Element → List (UInt8 × UInt16)
  | .field m => m.constants
  | .method m => m.constants
  | .attr a => a.constants
  | _ => []

/-- Induction on an attribute: what holds of the attributes in its record components holds of it. -/
theorem Attribute.induct {P : Attribute → Prop}
    (record : ∀ components : List Component, (∀ c ∈ components, ∀ a ∈ c.attributes, P a) →
      P (.record components))
    (other : ∀ a, (∀ components, a ≠ .record components) → P a) : ∀ a, P a
  | .record components => record components fun _ _ a _ => induct record other a
  | .signature _ | .constantValue _ | .exceptions _ | .permittedSubclasses _ | .annots _ _
  | .parameterAnnots _ _ | .typeAnnots _ _ | .annotDefault _ | .methodParameters _
  | .innerClasses _ | .other _ => other _ nofun
termination_by a => sizeOf a
decreasing_by
  next c hc ha =>
  have hcomponent := List.sizeOf_lt_of_mem hc
  have hattribute := List.sizeOf_lt_of_mem ha
  obtain ⟨name, descriptor, attributes⟩ := c
  simp only [Component.mk.sizeOf_spec, Attribute.record.sizeOf_spec] at *
  omega

/-! ### Only known tags -/

open ElementValue (tagChar constTags)

variable {pool : Pool}

theorem ElementValue.Layout.tag_of_mem {v : ElementValue} {bytes : Bytes}
    (h : Layout pool bytes v) : ∀ c ∈ v.constants, tagChar c.1 ∈ constTags := by
  induction v using induct generalizing bytes with
  | const tag index =>
    cases h with
    | const htag => exact fun c hc => List.mem_singleton.mp hc ▸ htag
  | enumConst | classLit => nofun
  | annot a ih =>
    cases h with
    | annot _ ha =>
      cases ha with
      | intro _ hm =>
        rw [constants_annot, List.forall_mem_flatMap]
        intro m hmem
        obtain ⟨_, hpair⟩ := hm.exists_of_mem hmem
        cases hpair with
        | intro _ hv => exact ih _ hmem hv
  | array values ih =>
    cases h with
    | array _ hvalues =>
      rw [constants_array, List.forall_mem_flatMap]
      intro v hmem
      obtain ⟨_, hv⟩ := hvalues.exists_of_mem hmem
      exact ih v hmem hv

theorem Annot.Layout.tag_of_mem {a : Annot} {bytes : Bytes}
    (h : Layout pool (ElementValue.Layout pool) bytes a) :
    ∀ c ∈ a.constants, tagChar c.1 ∈ constTags :=
  (@ElementValue.Layout.annot pool 0x40 _ _ rfl h).tag_of_mem

namespace Attribute

theorem Layout.tag_of_mem {a : Attribute} {kind : AttributeKind} {bytes : Bytes}
    (h : Layout pool kind bytes a) : ∀ c ∈ a.constants, tagChar c.1 ∈ constTags := by
  induction a using induct generalizing kind bytes with
  | record components ih =>
    cases h with
    | record hcomponents =>
      rw [constants_record, List.forall_mem_flatMap]
      intro c hc
      rw [Component.constants, List.forall_mem_flatMap]
      intro a ha
      obtain ⟨_, hlayout⟩ := hcomponents.exists_of_mem hc
      cases hlayout with
      | intro _ _ _ hall =>
        obtain ⟨stored, -, hstored⟩ := exists_mem_of_forall₂ hall ha
        cases hstored with
        | known _ hL => exact ih _ hc a ha hL
        | other => nofun
  | other a hne =>
    cases h with
    | annots has =>
      refine List.forall_mem_flatMap.mpr fun a ha => ?_
      obtain ⟨_, h⟩ := has.exists_of_mem ha
      exact h.tag_of_mem
    | parameterAnnots hlists =>
      refine List.forall_mem_flatMap.mpr fun a ha => ?_
      obtain ⟨as, has, ha⟩ := List.mem_flatten.mp ha
      obtain ⟨_, hlist⟩ := hlists.exists_of_mem has
      obtain ⟨_, h⟩ := hlist.exists_of_mem ha
      exact h.tag_of_mem
    | typeAnnots has =>
      refine List.forall_mem_flatMap.mpr fun a ha => ?_
      obtain ⟨_, h⟩ := has.exists_of_mem ha
      cases h with
      | intro _ _ h => exact h.tag_of_mem
    | annotDefault hv => exact hv.tag_of_mem
    | record => exact absurd rfl (hne _)
    | _ => nofun

theorem Stored.tag_of_mem {stored : RawAttribute} {a : Attribute} (h : Stored pool stored a) :
    ∀ c ∈ a.constants, tagChar c.1 ∈ constTags := by
  cases h with
  | known _ hL => exact hL.tag_of_mem
  | other => nofun

end Attribute

/-- **Only known tags.**  Each constant in the stream of a class file has one of the tags of
numbers and texts. -/
theorem ClassFile.Streams.tag_of_mem {file : ClassFile} {stream : List Element}
    (h : file.Streams stream) :
    ∀ e ∈ stream, ∀ c ∈ e.constants, tagChar c.1 ∈ constTags := by
  have hmember {m : Member} (hm : ∀ a, .attr a ∈ m.elements →
      ∀ c ∈ a.constants, tagChar c.1 ∈ constTags) : ∀ c ∈ m.constants, tagChar c.1 ∈ constTags := by
    refine List.forall_mem_flatMap.mpr fun e he => ?_
    cases e with
    | flags => nofun
    | attr a => exact hm a he
  intro e he
  have hstored := h.forall_stored (fun hs => hs.tag_of_mem) e he
  cases e with
  | field m | method m => exact hmember hstored
  | attr a => exact hstored
  | flags | superclass | interfaces => nofun

end JvmOutline
