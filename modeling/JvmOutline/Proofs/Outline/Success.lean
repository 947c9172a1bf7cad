import JvmOutline.Proofs.Outline.Declarations

/-!
# When a class has an outline

**A stream has an outline exactly if it is well-formed**
(`ClassOutline.exists_ofElements_eq_ok_iff`): the class has a name, no declaration lacks its flags
or has a part twice that occurs once, and each constant that is outlined leads to an entry of the
right kind.

What is well-formed is said here of the streams alone, one structure for each kind of declaration,
and without the order in which things are checked.  Nothing is asked of static initializers.
-/

namespace JvmOutline

variable {pool : Pool}

/-! ### Counting parts -/

section

variable {α β : Type}

/-- At most one item of a list is such that `pick` has an answer for it. -/
def AtMostOne (pick : α → Option β) (as : List α) : Prop := (as.filterMap pick).length ≤ 1

/-- Exactly one item of a list is such that `pick` has an answer for it. -/
def ExactlyOne (pick : α → Option β) (as : List α) : Prop := (as.filterMap pick).length = 1

variable {Found : α → β → Prop} {as : List α}

/-- An empty place takes what there is if there is at most one of it, and that is found. -/
theorem exists_takesOnce_iff : (∃ place, TakesOnce Found none as place) ↔
    as.length ≤ 1 ∧ ∀ a ∈ as, ∃ b, Found a b := by
  cases as with
  | nil => exact ⟨fun _ => ⟨Nat.zero_le 1, nofun⟩, fun _ => ⟨none, rfl⟩⟩
  | cons a as =>
    constructor
    · rintro ⟨_, -, rfl, b, hb, rfl⟩
      exact ⟨Nat.le_refl 1, fun a' ha' => List.mem_singleton.mp ha' ▸ ⟨b, hb⟩⟩
    · rintro ⟨hlength, h⟩
      obtain ⟨b, hb⟩ := h a List.mem_cons_self
      have hnil : as = [] :=
        List.length_eq_zero_iff.mp (Nat.le_zero.mp (Nat.le_of_succ_le_succ hlength))
      exact ⟨some b, rfl, hnil, b, hb, rfl⟩

theorem exists_takesOnce_eq_iff {as : List β} :
    (∃ place, TakesOnce Eq none as place) ↔ as.length ≤ 1 := by
  rw [exists_takesOnce_iff]
  exact and_iff_left fun a _ => ⟨a, rfl⟩

/-- An empty place that has to be filled takes exactly one. -/
theorem exists_takesOnce_some_iff {as : List β} :
    (∃ b, TakesOnce Eq none as (some b)) ↔ as.length = 1 := by
  rw [List.length_eq_one_iff]
  exact exists_congr fun b => takesOnce_eq_iff.trans eq_comm

theorem exists_gathers_iff {Found : α → List β → Prop} {place : Option (List β)} :
    (∃ place', Gathers Found place as place') ↔ ∀ a ∈ as, ∃ bs, Found a bs := by
  induction as generalizing place with
  | nil => exact ⟨fun _ => nofun, fun _ => ⟨place, rfl⟩⟩
  | cons a as ih =>
    rw [List.forall_mem_cons]
    constructor
    · rintro ⟨place', bs, hbs, h⟩
      exact ⟨⟨bs, hbs⟩, ih.mp ⟨place', h⟩⟩
    · rintro ⟨⟨bs, hbs⟩, h⟩
      obtain ⟨place', h⟩ := ih.mpr h
      exact ⟨place', bs, hbs, h⟩

theorem exists_forall₂_iff {R : α → β → Prop} :
    (∃ bs, List.Forall₂ R as bs) ↔ ∀ a ∈ as, ∃ b, R a b := by
  induction as with
  | nil => exact ⟨fun _ => nofun, fun _ => ⟨[], .nil⟩⟩
  | cons a as ih =>
    rw [List.forall_mem_cons, ← ih]
    constructor
    · rintro ⟨_, _ | ⟨hb, hbs⟩⟩
      exact ⟨⟨_, hb⟩, ⟨_, hbs⟩⟩
    · rintro ⟨⟨b, hb⟩, ⟨bs, hbs⟩⟩
      exact ⟨b :: bs, .cons hb hbs⟩

end

/-! ### What classes, fields and methods share -/

/-- The attributes that classes, fields and methods have in common occur once, and their
annotations can be outlined. -/
structure Attribute.SharedWellFormed (pool : Pool) (as : List Attribute) : Prop where
  signature : AtMostOne signature? as
  annots : ∀ v, AtMostOne (annots? v) as
  resolvable : ∀ v, ∀ list ∈ as.filterMap (annots? v), ∀ a ∈ list, a.Resolvable pool

/-- The attributes of a field or method. -/
def Member.attributes (m : Member) : List Attribute := m.elements.filterMap MemberElement.attr?

theorem SharedParts.exists_takes_iff {m : Member} :
    (∃ p flags, Takes pool m.elements .empty p ∧ p.flags = some flags) ↔
      ExactlyOne MemberElement.flags? m.elements ∧
        Attribute.SharedWellFormed pool m.attributes := by
  have hannots (v : Visibility) : (∃ place, TakesOnce (Annot.OutlinedAs pool) none
      (m.attributes.filterMap (Attribute.annots? v)) place) ↔
        AtMostOne (Attribute.annots? v) m.attributes ∧
          ∀ list ∈ m.attributes.filterMap (Attribute.annots? v), ∀ a ∈ list, a.Resolvable pool :=
    exists_takesOnce_iff.trans
      (and_congr_right fun _ => forall₂_congr fun _ _ => Annot.exists_outlineAll_eq_ok_iff)
  constructor
  · rintro ⟨p, flags, h, hflags⟩
    have hv (v : Visibility) := (hannots v).mp <| by
      cases v with
      | visible => exact ⟨_, h.visible⟩
      | invisible => exact ⟨_, h.invisible⟩
    exact ⟨exists_takesOnce_some_iff.mp ⟨flags, hflags ▸ h.flags⟩, {
      signature := exists_takesOnce_eq_iff.mp ⟨_, h.signature⟩
      annots := fun v => (hv v).1
      resolvable := fun v => (hv v).2 }⟩
  · rintro ⟨hflags, h⟩
    obtain ⟨flags, hflags⟩ := exists_takesOnce_some_iff.mpr hflags
    obtain ⟨signature, hsignature⟩ := exists_takesOnce_eq_iff.mpr h.signature
    obtain ⟨visible, hvisible⟩ := (hannots .visible).mpr ⟨h.annots _, h.resolvable _⟩
    obtain ⟨invisible, hinvisible⟩ := (hannots .invisible).mpr ⟨h.annots _, h.resolvable _⟩
    exact ⟨⟨some flags, signature, visible, invisible⟩, flags,
      ⟨hflags, hsignature, hvisible, hinvisible⟩, rfl⟩

/-! ### Fields -/

/-- The index leads to a constant that a field can have: a number, or a string whose text is
there. -/
inductive Pool.HasFieldConstant (pool : Pool) (index : UInt16) : Prop where
  | number {kind : EntryKind} : kind ∈ [.integer, .long, .float, .double] →
      pool.HasKind index kind → HasFieldConstant pool index
  | string {textIndex : UInt16} {text : String} : pool.entry? index = some (.string textIndex) →
      pool.HasText textIndex text → HasFieldConstant pool index

theorem ConstantValue.exists_ofPool_eq_ok_iff {field : String} {index : UInt16} :
    (∃ value, ofPool pool field index = .ok value) ↔ pool.HasFieldConstant index := by
  simp only [ofPool_eq_ok_iff]
  constructor
  · rintro ⟨_, h⟩
    cases h with
    | int h | long h | float h | double h => exact .number (by simp [Entry.kind]) ⟨_, h, rfl⟩
    | string h htext => exact .string h htext
  · rintro (⟨hkind, e, he, rfl⟩ | ⟨he, htext⟩)
    · cases e with
      | integer => exact ⟨_, .int he⟩
      | long => exact ⟨_, .long he⟩
      | float => exact ⟨_, .float he⟩
      | double => exact ⟨_, .double he⟩
      | _ => simp [Entry.kind] at hkind
    · exact ⟨_, .string he htext⟩

/-- A field that has an outline. -/
structure Member.WellFormedField (pool : Pool) (f : Member) : Prop where
  flags : ExactlyOne MemberElement.flags? f.elements
  shared : Attribute.SharedWellFormed pool f.attributes
  constant : AtMostOne Attribute.constantIndex? f.attributes
  hasConstant : ∀ index ∈ f.attributes.filterMap Attribute.constantIndex?,
    pool.HasFieldConstant index

theorem FieldOutline.exists_outlines_iff {f : Member} :
    (∃ o, Outlines pool f o) ↔ f.WellFormedField pool := by
  have hconstant : (∃ place, TakesOnce (fun index value =>
      ConstantValue.ofPool pool f.name index = .ok value) none
        (f.attributes.filterMap Attribute.constantIndex?) place) ↔
      AtMostOne Attribute.constantIndex? f.attributes ∧
        ∀ index ∈ f.attributes.filterMap Attribute.constantIndex?, pool.HasFieldConstant index :=
    exists_takesOnce_iff.trans
      (and_congr_right fun _ => forall₂_congr fun _ _ => ConstantValue.exists_ofPool_eq_ok_iff)
  constructor
  · rintro ⟨_, ⟨h, hflags⟩⟩
    obtain ⟨hflags, hshared⟩ := SharedParts.exists_takes_iff.mp ⟨_, _, h.shared, hflags⟩
    obtain ⟨hone, hhas⟩ := hconstant.mp ⟨_, h.value⟩
    exact ⟨hflags, hshared, hone, hhas⟩
  · intro h
    obtain ⟨shared, flags, htakes, hflags⟩ :=
      SharedParts.exists_takes_iff.mpr ⟨h.flags, h.shared⟩
    obtain ⟨value, hvalue⟩ := hconstant.mpr ⟨h.constant, h.hasConstant⟩
    exact ⟨_, .intro (p := ⟨shared, value⟩) ⟨htakes, hvalue⟩ hflags⟩

/-! ### Methods -/

/-- A method that has an outline. -/
structure Member.WellFormedMethod (pool : Pool) (m : Member) : Prop where
  flags : ExactlyOne MemberElement.flags? m.elements
  shared : Attribute.SharedWellFormed pool m.attributes
  default : AtMostOne Attribute.default? m.attributes
  resolvableDefault : ∀ value ∈ m.attributes.filterMap Attribute.default?, value.Resolvable pool
  resolvableParameters : ∀ lists ∈ m.attributes.filterMap Attribute.parameterAnnots?,
    ∀ list ∈ lists, ∀ a ∈ list, a.Resolvable pool

theorem ParameterAnnots.exists_foldlM_outline_eq_ok_iff {map : Option ParameterAnnots}
    {attributes : List (List (List Annot))} :
    (∃ map', attributes.foldlM (fun map lists => outline pool map 0 lists) map = .ok map') ↔
      ∀ lists ∈ attributes, ∀ list ∈ lists, ∀ a ∈ list, a.Resolvable pool := by
  simp only [foldlM_outline_eq_ok_iff]
  rw [exists_comm]
  simp only [exists_and_left, exists_eq, and_true, exists_forall₂_iff]
  exact forall₂_congr fun _ _ => forall₂_congr fun _ _ => Annot.exists_outlineAll_eq_ok_iff

theorem MethodOutline.exists_outlines_iff {m : Member} :
    (∃ o, Outlines pool m o) ↔ m.WellFormedMethod pool := by
  have hdefault : (∃ place, TakesOnce (fun (value : ElementValue) d => value.outline pool = .ok d)
      none (m.attributes.filterMap Attribute.default?) place) ↔
      AtMostOne Attribute.default? m.attributes ∧
        ∀ value ∈ m.attributes.filterMap Attribute.default?, value.Resolvable pool :=
    exists_takesOnce_iff.trans
      (and_congr_right fun _ => forall₂_congr fun _ _ => ElementValue.exists_outline_eq_ok_iff)
  constructor
  · rintro ⟨_, ⟨h, hflags⟩⟩
    obtain ⟨hflags, hshared⟩ := SharedParts.exists_takes_iff.mp ⟨_, _, h.shared, hflags⟩
    obtain ⟨hone, hresolvable⟩ := hdefault.mp ⟨_, h.default⟩
    exact ⟨hflags, hshared, hone, hresolvable,
      ParameterAnnots.exists_foldlM_outline_eq_ok_iff.mp ⟨_, h.parameterAnnots⟩⟩
  · intro h
    obtain ⟨shared, flags, htakes, hflags⟩ :=
      SharedParts.exists_takes_iff.mpr ⟨h.flags, h.shared⟩
    obtain ⟨default, hdefault⟩ := hdefault.mpr ⟨h.default, h.resolvableDefault⟩
    obtain ⟨map, hmap⟩ :=
      ParameterAnnots.exists_foldlM_outline_eq_ok_iff.mpr h.resolvableParameters
    obtain ⟨names, hnames⟩ : ∃ names, Gathers
        (fun (ps : List Parameter) names => ps.map Parameter.name = names) none
          (m.attributes.filterMap Attribute.parameters?) names :=
      exists_gathers_iff.mpr fun _ _ => ⟨_, rfl⟩
    exact ⟨_, .intro (p := ⟨shared, _, map, names, default⟩)
      ⟨htakes, rfl, hmap, hnames, hdefault⟩ hflags⟩

/-! ### Record components -/

/-- A record component that has an outline. -/
structure Component.WellFormed (pool : Pool) (c : Component) : Prop where
  signature : AtMostOne Attribute.signature? c.attributes
  resolvable : ∀ list ∈ c.attributes.filterMap Attribute.anyAnnots?, ∀ a ∈ list,
    a.Resolvable pool
  resolvableTypes : ∀ list ∈ c.attributes.filterMap Attribute.anyTypeAnnots?, ∀ a ∈ list,
    a.annot.Resolvable pool

theorem TypeAnnot.exists_outlineAll_eq_ok_iff {as : List TypeAnnot} :
    (∃ bs, outlineAll pool as = .ok bs) ↔ ∀ a ∈ as, a.annot.Resolvable pool :=
  Annot.exists_outlineAll_eq_ok_iff.trans List.forall_mem_map

theorem ComponentOutline.exists_outlines_iff {c : Component} :
    (∃ o, Outlines pool c o) ↔ c.WellFormed pool := by
  have hannots : (∃ place, Gathers (Annot.OutlinedAs pool) none
      (c.attributes.filterMap Attribute.anyAnnots?) place) ↔
        ∀ list ∈ c.attributes.filterMap Attribute.anyAnnots?, ∀ a ∈ list, a.Resolvable pool :=
    exists_gathers_iff.trans (forall₂_congr fun _ _ => Annot.exists_outlineAll_eq_ok_iff)
  have htypes : (∃ place, Gathers (TypeAnnot.OutlinedAs pool) none
      (c.attributes.filterMap Attribute.anyTypeAnnots?) place) ↔
        ∀ list ∈ c.attributes.filterMap Attribute.anyTypeAnnots?, ∀ a ∈ list,
          a.annot.Resolvable pool :=
    exists_gathers_iff.trans (forall₂_congr fun _ _ => TypeAnnot.exists_outlineAll_eq_ok_iff)
  constructor
  · rintro ⟨_, ⟨h⟩⟩
    exact ⟨exists_takesOnce_eq_iff.mp ⟨_, h.signature⟩, hannots.mp ⟨_, h.annots⟩,
      htypes.mp ⟨_, h.typeAnnots⟩⟩
  · intro h
    obtain ⟨signature, hsignature⟩ := exists_takesOnce_eq_iff.mpr h.signature
    obtain ⟨annots, hannots⟩ := hannots.mpr h.resolvable
    obtain ⟨typeAnnots, htypes⟩ := htypes.mpr h.resolvableTypes
    exact ⟨_, .intro (p := ⟨signature, annots, typeAnnots⟩) ⟨hsignature, hannots, htypes⟩⟩

/-! ### Classes -/

/-- The stream of a class that has an outline.  Each method but a static initializer, each field and
each record component in it has one as well. -/
structure Element.WellFormedStream (pool : Pool) (stream : List Element) : Prop where
  flags : ExactlyOne flags? stream
  superclass : AtMostOne superName? stream
  interfaces : AtMostOne interfaceNames? stream
  shared : Attribute.SharedWellFormed pool (stream.filterMap attr?)
  methods : ∀ m, .method m ∈ stream → m.name ≠ "<clinit>" → m.WellFormedMethod pool
  fields : ∀ f, .field f ∈ stream → f.WellFormedField pool
  components : ∀ cs, .attr (.record cs) ∈ stream → ∀ c ∈ cs, c.WellFormed pool

theorem Annot.exists_outlinedOptional_iff {as : Option (List Annot)} :
    (∃ bs, OutlinedOptional pool as bs) ↔ ∀ list ∈ as.toList, ∀ a ∈ list, a.Resolvable pool := by
  cases as with
  | none => exact ⟨fun _ => nofun, fun _ => ⟨[], rfl⟩⟩
  | some as =>
    rw [Option.toList_some, List.forall_mem_singleton]
    exact exists_outlineAll_eq_ok_iff

namespace ClassOutline

theorem exists_outlines_iff {name : String} {stream : List Element} :
    (∃ c, Outlines name pool stream c) ↔ Element.WellFormedStream pool stream := by
  constructor
  · rintro ⟨_, ⟨h, hflags, hmethods, hfields, hvisible, hinvisible, hcomponents⟩⟩
    -- The header holds the annotations as they are stored; they are outlined afterwards.
    have hv (v : Visibility) :
        AtMostOne (Attribute.annots? v) (stream.filterMap Element.attr?) ∧
          ∀ list ∈ (stream.filterMap Element.attr?).filterMap (Attribute.annots? v),
            ∀ a ∈ list, a.Resolvable pool := by
      cases v with
      | visible =>
        exact ⟨exists_takesOnce_eq_iff.mp ⟨_, h.visible⟩,
          takesOnce_eq_iff.mp h.visible ▸ Annot.exists_outlinedOptional_iff.mp ⟨_, hvisible⟩⟩
      | invisible =>
        exact ⟨exists_takesOnce_eq_iff.mp ⟨_, h.invisible⟩,
          takesOnce_eq_iff.mp h.invisible ▸ Annot.exists_outlinedOptional_iff.mp ⟨_, hinvisible⟩⟩
    exact {
      flags := exists_takesOnce_some_iff.mp ⟨_, hflags ▸ h.flags⟩
      superclass := exists_takesOnce_eq_iff.mp ⟨_, h.superName⟩
      interfaces := exists_takesOnce_eq_iff.mp ⟨_, h.interfaces⟩
      shared := {
        signature := exists_takesOnce_eq_iff.mp ⟨_, h.signature⟩
        annots := fun v => (hv v).1
        resolvable := fun v => (hv v).2 }
      methods := fun m hm hname => MethodOutline.exists_outlines_iff.mp
        (exists_forall₂_iff.mp ⟨_, hmethods⟩ m (Element.mem_methods_iff.mpr ⟨hm, hname⟩))
      fields := fun f hf => FieldOutline.exists_outlines_iff.mp
        (exists_forall₂_iff.mp ⟨_, hfields⟩ f (Element.mem_fields_iff.mpr hf))
      components := fun cs hcs c hc => ComponentOutline.exists_outlines_iff.mp
        (exists_forall₂_iff.mp ⟨_, hcomponents⟩ c (Element.mem_components_iff.mpr ⟨cs, hcs, hc⟩)) }
  · intro h
    obtain ⟨flags, hflags⟩ := exists_takesOnce_some_iff.mpr h.flags
    obtain ⟨superName, hsuper⟩ := exists_takesOnce_eq_iff.mpr h.superclass
    obtain ⟨interfaces, hinterfaces⟩ := exists_takesOnce_eq_iff.mpr h.interfaces
    obtain ⟨signature, hsignature⟩ := exists_takesOnce_eq_iff.mpr h.shared.signature
    obtain ⟨visible, hvisible⟩ := exists_takesOnce_eq_iff.mpr (h.shared.annots .visible)
    obtain ⟨invisible, hinvisible⟩ := exists_takesOnce_eq_iff.mpr (h.shared.annots .invisible)
    obtain ⟨bs, hbs⟩ := Annot.exists_outlinedOptional_iff.mpr
      (takesOnce_eq_iff.mp hvisible ▸ h.shared.resolvable .visible)
    obtain ⟨bs', hbs'⟩ := Annot.exists_outlinedOptional_iff.mpr
      (takesOnce_eq_iff.mp hinvisible ▸ h.shared.resolvable .invisible)
    obtain ⟨methods, hmethods⟩ := exists_forall₂_iff.mpr fun m hm => by
      obtain ⟨hm, hname⟩ := Element.mem_methods_iff.mp hm
      exact MethodOutline.exists_outlines_iff.mpr (h.methods m hm hname)
    obtain ⟨fields, hfields⟩ := exists_forall₂_iff.mpr fun f hf =>
      FieldOutline.exists_outlines_iff.mpr (h.fields f (Element.mem_fields_iff.mp hf))
    obtain ⟨components, hcomponents⟩ := exists_forall₂_iff.mpr fun c hc => by
      obtain ⟨cs, hcs, hc⟩ := Element.mem_components_iff.mp hc
      exact ComponentOutline.exists_outlines_iff.mpr (h.components cs hcs c hc)
    have hheader : HeaderParts.Takes stream .empty
        ⟨some flags, superName, interfaces, signature, visible, invisible⟩ :=
      ⟨hflags, hsuper, hinterfaces, hsignature, hvisible, hinvisible⟩
    exact ⟨_, .intro hheader rfl hmethods hfields hbs hbs' hcomponents⟩

/-- **Success.**  A stream has an outline exactly if the class has a name and the stream is
well-formed. -/
theorem exists_ofElements_eq_ok_iff (name : String) (pool : Pool) (stream : List Element) :
    (∃ c, (ofElements name pool stream).result = .ok c) ↔
      name ≠ "" ∧ Element.WellFormedStream pool stream := by
  simp only [result_ofElements_eq_ok_iff, exists_and_left, exists_outlines_iff]

end ClassOutline

end JvmOutline
