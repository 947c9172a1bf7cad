import JvmOutline.Assembly.Assembler
import JvmOutline.Proofs.Outline.Declarations
import JvmOutline.Proofs.Outline.Nested

/-!
# What holds of every outline

**Every outline that is produced is well-formed** (`ClassOutline.wellFormed_of_ofBytes`).  Names of
classes are qualified, flags are those that mean something for their declaration, lists that may be
absent are not empty, and no annotation, however deep, has two members of one name.

`ClassOutline.WellFormed` says so of the outline of a class, on the pattern of the declarations: a
class is well-formed if it is in its own parts and its members are.  That positions of parameters
are small is the only part that needs the bytes: their number is stored in one byte.
-/

namespace JvmOutline

variable {pool : Pool}

/-! ### Flags and names -/

/-- The flags have no bit outside the mask. -/
def AccessFlags.Within (flags mask : AccessFlags) : Prop := flags.bits &&& ~~~mask.bits = 0

theorem AccessFlags.within_masked (flags mask : AccessFlags) : (flags.masked mask).Within mask := by
  show flags.bits &&& mask.bits &&& ~~~mask.bits = 0
  rw [UInt16.and_assoc, UInt16.and_not_self, UInt16.and_zero]

/-- The name of a class is qualified. -/
def ClassName.IsQualified (name : String) : Prop := '/' ∉ name.toList

theorem ClassName.isQualified_of_mem_map {names : List String} {name : String}
    (h : name ∈ names.map qualified) : IsQualified name := by
  obtain ⟨internal, -, rfl⟩ := List.mem_map.mp h
  exact not_mem_qualified internal

/-! ### Well-formed outlines -/

/-- The annotations in a field. -/
def FieldOutline.annotsWithin (f : FieldOutline) : List AnnotOutline :=
  f.annots.flatMap AnnotOutline.within

/-- The annotations in a method, its parameters and its default value. -/
def MethodOutline.annotsWithin (m : MethodOutline) : List AnnotOutline :=
  m.annots.flatMap AnnotOutline.within ++
    (m.parameterAnnots.getD []).flatMap (fun x => x.2.flatMap AnnotOutline.within) ++
      m.default.toList.flatMap AnnotValue.annots

/-- The annotations in a record component, those of its type included. -/
def ComponentOutline.annotsWithin (c : ComponentOutline) : List AnnotOutline :=
  (c.annots.getD [] ++ c.typeAnnots.getD []).flatMap AnnotOutline.within

/-- The annotations in a class, at any depth. -/
def ClassOutline.annotsWithin (c : ClassOutline) : List AnnotOutline :=
  c.annots.flatMap AnnotOutline.within ++
    (c.fields.getD []).flatMap FieldOutline.annotsWithin ++
      (c.methods.getD []).flatMap MethodOutline.annotsWithin ++
        c.components.flatMap ComponentOutline.annotsWithin

/-- A map of annotations by position is not empty, and neither is the list at any of its
positions, which are below 255. -/
structure ParameterAnnots.WellFormed (map : ParameterAnnots) : Prop where
  nonempty : map ≠ []
  lists : ∀ x ∈ map, x.2 ≠ []
  positions : ∀ x ∈ map, x.1 < 255

/-- A method is no static initializer, has only flags of methods, names its exceptions by their
qualified names, and has no empty map. -/
structure MethodOutline.WellFormed (m : MethodOutline) : Prop where
  name : m.name ≠ staticInitializer
  flags : m.flags.Within .methodMask
  exceptions : ∀ name ∈ m.exceptions, ClassName.IsQualified name
  parameterAnnots : ∀ map ∈ m.parameterAnnots, ParameterAnnots.WellFormed map

/-- A class has a name, has only flags of classes, names other classes by their qualified names, and
has no empty list of members; its members are well-formed; and no annotation in it has two members
of one name. -/
structure ClassOutline.WellFormed (c : ClassOutline) : Prop where
  name : c.name ≠ ""
  qualified : ClassName.IsQualified c.name
  superName : ∀ name ∈ c.superName, ClassName.IsQualified name
  interfaces : ∀ name ∈ c.interfaces, ClassName.IsQualified name
  permitted : ∀ name ∈ c.permittedSubclasses, ClassName.IsQualified name
  flags : c.flags.Within .classMask
  innerFlags : ∀ flags ∈ c.innerFlags, flags.Within .innerClassMask
  methods : ∀ ms ∈ c.methods, ms ≠ [] ∧ ∀ m ∈ ms, m.WellFormed
  fields : ∀ fs ∈ c.fields, fs ≠ [] ∧ ∀ f ∈ fs, f.flags.Within .fieldMask
  annots : ∀ a ∈ c.annotsWithin, a.Distinct

/-! ### Fields and record components -/

theorem SharedParts.Takes.distinct_annots {stream : List MemberElement} {p : SharedParts}
    (h : Takes pool stream .empty p) : ∀ a ∈ p.annots, ∀ b ∈ a.within, b.Distinct := by
  have hplace {as : List (List Annot)} {place : Option (List AnnotOutline)}
      (htakes : TakesOnce (Annot.OutlinedAs pool) none as place) :
      ∀ a ∈ place.getD [], ∀ b ∈ a.within, b.Distinct := by
    cases place with
    | none => nofun
    | some bs =>
      obtain ⟨_, -, hbs⟩ := htakes.exists_of_mem rfl
      exact Annot.distinct_outlineAll hbs
  intro a ha
  rcases List.mem_append.mp ha with ha | ha
  · exact hplace h.visible a ha
  · exact hplace h.invisible a ha

theorem FieldOutline.Outlines.distinct {f : Member} {o : FieldOutline} (h : Outlines pool f o) :
    ∀ a ∈ o.annotsWithin, a.Distinct := by
  obtain ⟨h, -⟩ := h
  exact List.forall_mem_flatMap.mpr h.shared.distinct_annots

theorem ComponentOutline.Outlines.distinct {c : Component} {o : ComponentOutline}
    (h : Outlines pool c o) : ∀ a ∈ o.annotsWithin, a.Distinct := by
  obtain ⟨h⟩ := h
  refine List.forall_mem_flatMap.mpr fun a ha => ?_
  rcases List.mem_append.mp ha with ha | ha
  · obtain ⟨_, -, _, hbs, ha⟩ := (h.annots.exists_of_mem ha).resolve_left List.not_mem_nil
    exact Annot.distinct_outlineAll hbs a ha
  · obtain ⟨_, -, _, hbs, ha⟩ := (h.typeAnnots.exists_of_mem ha).resolve_left List.not_mem_nil
    exact Annot.distinct_outlineAll hbs a ha

/-! ### Methods -/

namespace ParameterAnnots

theorem Canonical.annotsAt_of_mem {m : ParameterAnnots} (h : Canonical m)
    {x : Nat × List AnnotOutline} (hx : x ∈ m) : annotsAt x.1 m = x.2 := by
  induction m with
  | nil => nomatch hx
  | cons y m ih =>
    rw [annotsAt_cons]
    rcases List.mem_cons.mp hx with rfl | hx
    · exact if_pos rfl
    · rw [if_neg (Nat.ne_of_lt ((List.pairwise_cons.mp h.1).1 x hx)), ih h.tail hx]

/-- The annotations of parameters come from those of one of the attributes, at the same
position. -/
theorem exists_of_foldlM_outline {attributes : List (List (List Annot))}
    {map' : Option ParameterAnnots}
    (h : attributes.foldlM (fun map lists => outline pool map 0 lists) none = .ok map') :
    IsMap map' ∧ ∀ x ∈ map'.getD [], ∀ a ∈ x.2, ∃ lists ∈ attributes, x.1 < lists.length ∧
      ∀ b ∈ a.within, b.Distinct := by
  obtain ⟨found, hfound, rfl⟩ := foldlM_outline_eq_ok_iff.mp h
  have hnone : IsMap none := ⟨⟨.nil, nofun⟩, nofun⟩
  obtain ⟨hmap, hat⟩ := isMap_putAll hnone found
  refine ⟨hmap, fun x hx a ha => ?_⟩
  rw [← hmap.1.annotsAt_of_mem hx, hat] at ha
  obtain ⟨lists', hlists', ha⟩ := List.mem_flatMap.mp ha
  obtain ⟨lists, hlists, hrel⟩ := exists_mem_of_forall₂ hfound hlists'
  refine ⟨lists, hlists, ?_⟩
  rw [hrel.length_eq]
  by_cases hlt : x.1 < lists'.length
  · rw [List.getElem?_eq_getElem hlt] at ha
    obtain ⟨list, -, hlist⟩ := exists_mem_of_forall₂ hrel (List.getElem_mem hlt)
    exact ⟨hlt, Annot.distinct_outlineAll hlist a ha⟩
  · rw [List.getElem?_eq_none (Nat.le_of_not_lt hlt)] at ha
    nomatch ha

end ParameterAnnots

namespace MethodOutline

variable {m : Member} {o : MethodOutline}

theorem Outlines.distinct (h : Outlines pool m o) : ∀ a ∈ o.annotsWithin, a.Distinct := by
  obtain @⟨p, _, h, -⟩ := h
  intro a ha
  rcases List.mem_append.mp ha with ha | ha
  · rcases List.mem_append.mp ha with ha | ha
    · exact List.forall_mem_flatMap.mpr h.shared.distinct_annots a ha
    · obtain ⟨x, hx, ha⟩ := List.mem_flatMap.mp ha
      obtain ⟨b, hb, ha⟩ := List.mem_flatMap.mp ha
      obtain ⟨-, hall⟩ := ParameterAnnots.exists_of_foldlM_outline h.parameterAnnots
      obtain ⟨_, -, -, hdistinct⟩ := hall x hx b hb
      exact hdistinct a ha
  · obtain ⟨value, hvalue, ha⟩ := List.mem_flatMap.mp ha
    obtain ⟨_, -, houtline⟩ := h.default.exists_of_mem (Option.mem_toList.mp hvalue)
    exact ElementValue.distinct_outline houtline a ha

theorem Outlines.wellFormed (h : Outlines pool m o) (hname : m.name ≠ staticInitializer)
    (hlength : ∀ v lists, .attr (.parameterAnnots v lists) ∈ m.elements → lists.length < 256) :
    o.WellFormed := by
  obtain @⟨p, flags, h, -⟩ := h
  refine ⟨hname, flags.within_masked .methodMask, fun name hmem => ?_, fun map hmap => ?_⟩
  · have hmem : name ∈ p.exceptions := hmem
    rw [h.exceptions] at hmem
    exact ClassName.isQualified_of_mem_map ((List.mem_append.mp hmem).resolve_left List.not_mem_nil)
  · obtain ⟨hcanonical, hnonempty⟩ :=
      (ParameterAnnots.exists_of_foldlM_outline h.parameterAnnots).1
    have hall := (ParameterAnnots.exists_of_foldlM_outline h.parameterAnnots).2
    have hmap : p.parameterAnnots = some map := hmap
    rw [hmap] at hcanonical hnonempty hall
    refine ⟨hnonempty map rfl, hcanonical.2, fun x hx => ?_⟩
    -- The list at a position is not empty, so some attribute reaches as far.
    obtain ⟨a, ha⟩ := List.exists_mem_of_ne_nil _ (hcanonical.2 x hx)
    obtain ⟨lists, hlists, hlt, -⟩ := hall x hx a ha
    obtain ⟨b, hb, hpick⟩ := List.mem_filterMap.mp hlists
    obtain ⟨e, he, hattr⟩ := List.mem_filterMap.mp hb
    cases e with
    | flags => nomatch hattr
    | attr =>
      cases hattr
      cases b with
      | parameterAnnots v lists' =>
        cases hpick
        exact Nat.lt_of_lt_of_le hlt (Nat.le_of_lt_succ (hlength v lists he))
      | _ => nomatch hpick

end MethodOutline

/-! ### Classes -/

theorem of_mem_nonempty? {α : Type} {as bs : List α} (h : bs ∈ nonempty? as) :
    bs = as ∧ as ≠ [] := by
  unfold nonempty? at h
  split at h
  · nomatch h
  · next hne => exact ⟨(Option.some.inj h).symm, fun hnil => hne (List.isEmpty_iff.mpr hnil)⟩

theorem getD_nonempty? {α : Type} (as : List α) : (nonempty? as).getD [] = as := by
  unfold nonempty?
  split
  · next h => exact (List.isEmpty_iff.mp h).symm
  · rfl

theorem InnerClass.within_of_mem_flagsOf? {name : String} {rows : List InnerClass}
    {flags : AccessFlags} (h : flags ∈ flagsOf? name rows) : flags.Within .innerClassMask := by
  obtain ⟨row, -, rfl⟩ := Option.map_eq_some_iff.mp h
  exact row.flags.within_masked .innerClassMask

theorem Element.isQualified_of_mem_permitted {e : Element} {name : String}
    (h : name ∈ e.permitted) : ClassName.IsQualified name := by
  unfold permitted at h
  split at h
  · exact ClassName.isQualified_of_mem_map h
  · nomatch h

namespace HeaderParts

variable {stream : List Element} {p : HeaderParts}

theorem Takes.isQualified_superName (h : Takes stream .empty p) :
    ∀ name ∈ p.superName, ClassName.IsQualified name := by
  intro name hname
  obtain ⟨_, hmem, rfl⟩ := h.superName.exists_of_mem hname
  obtain ⟨e, -, he⟩ := List.mem_filterMap.mp hmem
  cases e with
  | superclass internal =>
    cases he
    exact ClassName.not_mem_qualified internal
  | _ => nomatch he

theorem Takes.isQualified_interfaces (h : Takes stream .empty p) :
    ∀ name ∈ p.interfaces.getD [], ClassName.IsQualified name := by
  intro name hname
  cases hinterfaces : p.interfaces with
  | none =>
    rw [hinterfaces] at hname
    nomatch hname
  | some names =>
    rw [hinterfaces] at hname
    obtain ⟨_, hmem, rfl⟩ := h.interfaces.exists_of_mem hinterfaces
    obtain ⟨e, -, he⟩ := List.mem_filterMap.mp hmem
    cases e with
    | interfaces internals =>
      cases he
      exact ClassName.isQualified_of_mem_map hname
    | _ => nomatch he

end HeaderParts

theorem Annot.OutlinedOptional.distinct {as : Option (List Annot)} {bs : List AnnotOutline}
    (h : OutlinedOptional pool as bs) : ∀ b ∈ bs, ∀ a ∈ b.within, a.Distinct := by
  cases as with
  | none =>
    cases h
    nofun
  | some as => exact distinct_outlineAll h

namespace ClassOutline

variable {name : String} {stream : List Element} {c : ClassOutline}

theorem Outlines.distinct (h : Outlines name pool stream c) :
    ∀ a ∈ c.annotsWithin, a.Distinct := by
  obtain ⟨-, -, hmethods, hfields, hvisible, hinvisible, hcomponents⟩ := h
  intro a ha
  rcases List.mem_append.mp ha with ha | ha
  · rcases List.mem_append.mp ha with ha | ha
    · rcases List.mem_append.mp ha with ha | ha
      · obtain ⟨b, hb, ha⟩ := List.mem_flatMap.mp ha
        rcases List.mem_append.mp hb with hb | hb
        · exact hvisible.distinct b hb a ha
        · exact hinvisible.distinct b hb a ha
      · rw [getD_nonempty?] at ha
        obtain ⟨f, hf, ha⟩ := List.mem_flatMap.mp ha
        obtain ⟨_, -, hf⟩ := exists_mem_of_forall₂ hfields hf
        exact hf.distinct a ha
    · rw [getD_nonempty?] at ha
      obtain ⟨m, hm, ha⟩ := List.mem_flatMap.mp ha
      obtain ⟨_, -, hm⟩ := exists_mem_of_forall₂ hmethods hm
      exact hm.distinct a ha
  · obtain ⟨o, ho, ha⟩ := List.mem_flatMap.mp ha
    obtain ⟨_, -, ho⟩ := exists_mem_of_forall₂ hcomponents ho
    exact ho.distinct a ha

theorem Outlines.wellFormed (h : Outlines name pool stream c) (hname : name ≠ "")
    (hqualified : ClassName.IsQualified name)
    (hlength : ∀ m, .method m ∈ stream → ∀ v lists,
      .attr (.parameterAnnots v lists) ∈ m.elements → lists.length < 256) : c.WellFormed := by
  have hdistinct := h.distinct
  obtain @⟨header, flags, _, _, _, _, _, hheader, -, hmethods, hfields, -, -, -⟩ := h
  exact {
    name := hname
    qualified := hqualified
    superName := hheader.isQualified_superName
    interfaces := hheader.isQualified_interfaces
    permitted := List.forall_mem_flatMap.mpr fun e _ _ => Element.isQualified_of_mem_permitted
    flags := flags.within_masked .classMask
    innerFlags := fun _ => InnerClass.within_of_mem_flagsOf?
    methods := by
      intro ms hms
      obtain ⟨rfl, hne⟩ := of_mem_nonempty? hms
      refine ⟨hne, fun o ho => ?_⟩
      obtain ⟨m, hm, ho⟩ := exists_mem_of_forall₂ hmethods ho
      obtain ⟨hm, hinit⟩ := Element.mem_methods_iff.mp hm
      exact ho.wellFormed hinit (hlength m hm)
    fields := by
      intro fs hfs
      obtain ⟨rfl, hne⟩ := of_mem_nonempty? hfs
      refine ⟨hne, fun o ho => ?_⟩
      obtain ⟨_, -, ⟨-, -⟩⟩ := exists_mem_of_forall₂ hfields ho
      exact AccessFlags.within_masked _ .fieldMask
    annots := hdistinct }

end ClassOutline

theorem Attribute.Layout.length_parameterAnnots {kind : AttributeKind} {body : Bytes}
    {v : Visibility} {lists : List (List Annot)}
    (h : Layout pool kind body (.parameterAnnots v lists)) : lists.length < 256 := by
  cases h with
  | parameterAnnots h =>
    cases h with
    | intro hlength => exact hlength

theorem Attribute.Stored.length_parameterAnnots {stored : RawAttribute} {v : Visibility}
    {lists : List (List Annot)} (h : Stored pool stored (.parameterAnnots v lists)) :
    lists.length < 256 := by
  cases h with
  | known _ h => exact h.length_parameterAnnots

namespace ClassOutline

/-- **Every outline is well-formed.**  Whatever bytes an outline is produced from, it is
well-formed, down to the annotations inside annotations. -/
theorem wellFormed_of_ofBytes {bytes : Bytes} {c : ClassOutline}
    (h : (ofBytes bytes).result = .ok c) : c.WellFormed := by
  obtain ⟨file, name, stream, -, -, hstream, hne, houtlines⟩ := result_ofBytes_eq_ok_iff.mp h
  refine houtlines.wellFormed hne (ClassName.not_mem_qualified name) fun m hm v lists hmem => ?_
  have hstored := hstream.forall_stored
    (P := fun a => ∀ v lists, a = .parameterAnnots v lists → lists.length < 256)
    (fun hs _ _ ha => (ha ▸ hs).length_parameterAnnots) _ hm
  exact hstored _ hmem v lists rfl

end ClassOutline

/-- A class with a static initializer, and with a method whose second parameter has an annotation
that names one member twice. -/
def ClassDraft.annotated : ClassDraft :=
  { ofName "p/Shape" with
    methods := [⟨⟨0x0008⟩, "<clinit>", "()V", []⟩,
      ⟨⟨0x0401⟩, "scale", "(ID)V", [.visibleParameterAnnots [[],
        [⟨"Lp/Mark;", [("of", .int 1), ("at", .annot ⟨"Lp/At;", []⟩), ("of", .int 2)]⟩]]]⟩] }

namespace ClassOutline

theorem wellFormed_of_ofBytes_annotated :
    ∃ c, (ofBytes ClassDraft.annotated.assemble).result = .ok c ∧ c.WellFormed := by
  have hok : verdict (ofBytes ClassDraft.annotated.assemble).result = .ok () := by decide +kernel
  obtain ⟨c, hc⟩ := verdict_eq_ok_iff.mp hok
  exact ⟨c, hc, wellFormed_of_ofBytes hc⟩

end ClassOutline

end JvmOutline
