import JvmOutline.Proofs.Outline.Values
import JvmOutline.Proofs.Outline.Views

/-!
# The outlines of declarations

A field, a method, a record component and a class each have an outline exactly if their streams
fill the places that there are, and the outline is what the places hold: `FieldOutline.Outlines`,
`MethodOutline.Outlines`, `ComponentOutline.Outlines` and `ClassOutline.Outlines` say which one it
is (**`FieldOutline.result_ofMember_eq_ok_iff`** and its like).

The bytes of a class have an outline exactly if they are a class file that has a name and a stream,
and the name is not empty (`ClassOutline.result_ofBytes_eq_ok_iff`).
-/

namespace JvmOutline

variable {pool : Pool}

/-! ### Places -/

section

variable {α β : Type} {Found : α → β → Prop} {as : List α}

theorem Part.required_eq_ok_iff {part : Part} {scope : Scope} {place : Option α} {a : α} :
    part.required scope place = .ok a ↔ place = some a := by
  cases place with
  | none => exact ⟨nofun, nofun⟩
  | some b => exact ⟨fun h => congrArg _ (Except.ok.inj h), fun h => congrArg _ (Option.some.inj h)⟩

theorem takesOnce_eq_iff {as : List β} {place : Option β} :
    TakesOnce Eq none as place ↔ place.toList = as := by
  cases as with
  | nil => exact Option.toList_eq_nil_iff.symm
  | cons a as =>
    constructor
    · rintro ⟨-, rfl, _, rfl, rfl⟩
      rfl
    · intro h
      cases place with
      | none => nomatch h
      | some b =>
        cases h
        exact ⟨rfl, rfl, _, rfl, rfl⟩

/-- What is in a place that was empty has been found. -/
theorem TakesOnce.exists_of_mem {place : Option β} (h : TakesOnce Found none as place) {b : β}
    (hb : b ∈ place) : ∃ a ∈ as, Found a b := by
  cases as with
  | nil =>
    cases h
    nomatch hb
  | cons a as =>
    obtain ⟨-, -, _, hfound, rfl⟩ := h
    cases hb
    exact ⟨a, List.mem_cons_self, hfound⟩

/-- What is gathered in a place that was empty has been found. -/
theorem Gathers.exists_of_mem {Found : α → List β → Prop} {place place' : Option (List β)}
    (h : Gathers Found place as place') {b : β} (hb : b ∈ place'.getD []) :
    b ∈ place.getD [] ∨ ∃ a ∈ as, ∃ bs, Found a bs ∧ b ∈ bs := by
  induction as generalizing place with
  | nil =>
    cases h
    exact .inl hb
  | cons a as ih =>
    obtain ⟨bs, hbs, h⟩ := h
    rcases ih h with hmem | ⟨a', ha', hfound⟩
    · rcases List.mem_append.mp hmem with hmem | hmem
      · exact .inl hmem
      · exact .inr ⟨a, List.mem_cons_self, bs, hbs, hmem⟩
    · exact .inr ⟨a', List.mem_cons_of_mem a ha', hfound⟩

end

/-! ### Fields -/

/-- At the index there is a constant of the value: the number, or a string that leads to the
text. -/
inductive Pool.HoldsConstant (pool : Pool) (index : UInt16) : ConstantValue → Prop where
  | int {value : Int32} : pool.entry? index = some (.integer value) →
      HoldsConstant pool index (.int value)
  | long {value : Int64} : pool.entry? index = some (.long value) →
      HoldsConstant pool index (.long value)
  | float {bits : UInt32} : pool.entry? index = some (.float bits) →
      HoldsConstant pool index (.float bits)
  | double {bits : UInt64} : pool.entry? index = some (.double bits) →
      HoldsConstant pool index (.double bits)
  | string {textIndex : UInt16} {text : String} : pool.entry? index = some (.string textIndex) →
      pool.HasText textIndex text → HoldsConstant pool index (.string text)

theorem ConstantValue.ofPool_eq_ok_iff {field : String} {index : UInt16} {value : ConstantValue} :
    ofPool pool field index = .ok value ↔ pool.HoldsConstant index value := by
  rw [ofPool, bind_eq_ok_iff]
  simp only [outlined_eq_ok_iff, Pool.entry_eq_ok_iff]
  constructor
  · rintro ⟨e, he, hvalue⟩
    cases e with
    | integer | long | float | double =>
      cases hvalue
      constructor
      exact he
    | string textIndex =>
      obtain ⟨text, htext, hvalue⟩ := bind_eq_ok_iff.mp hvalue
      cases hvalue
      exact .string he (Pool.utf8_eq_ok_iff.mp (outlined_eq_ok_iff.mp htext))
    | _ => cases hvalue
  · intro h
    cases h with
    | int h | long h | float h | double h => exact ⟨_, h, rfl⟩
    | string h htext =>
      exact ⟨_, h, bind_eq_ok_iff.mpr ⟨_, outlined_eq_ok_iff.mpr (Pool.utf8_eq_ok_iff.mpr htext),
        rfl⟩⟩

namespace FieldOutline

/-- A field, and its outline. -/
inductive Outlines (pool : Pool) (f : Member) : FieldOutline → Prop where
  | intro {p : FieldParts} {flags : AccessFlags} :
      FieldParts.Takes pool f.name f.elements ⟨.empty, none⟩ p → p.shared.flags = some flags →
      Outlines pool f ⟨f.name, flags.ofField, f.descriptor, p.shared.signature, p.value,
        p.shared.annots⟩

/-- **Fields.** -/
theorem result_ofMember_eq_ok_iff {f : Member} {o : FieldOutline} :
    (ofMember pool f).result = .ok o ↔ Outlines pool f o := by
  constructor
  · intro h
    obtain ⟨p, hp, h⟩ := Logged.result_bind_eq_ok_iff.mp h
    obtain ⟨flags, hflags, h⟩ := Logged.result_bind_eq_ok_iff.mp h
    cases h
    exact .intro (FieldParts.foldlM_eq_ok_iff.mp hp) (Part.required_eq_ok_iff.mp hflags)
  · rintro ⟨hp, hflags⟩
    exact Logged.result_bind_eq_ok_iff.mpr ⟨_, FieldParts.foldlM_eq_ok_iff.mpr hp,
      Logged.result_bind_eq_ok_iff.mpr ⟨_, Part.required_eq_ok_iff.mpr hflags, rfl⟩⟩

end FieldOutline

/-! ### Methods -/

/-- The annotations of parameters are taken from one attribute after the other, if all can be
outlined. -/
theorem ParameterAnnots.foldlM_outline_eq_ok_iff {map map' : Option ParameterAnnots}
    {attributes : List (List (List Annot))} :
    attributes.foldlM (fun map lists => outline pool map 0 lists) map = .ok map' ↔
      ∃ found, List.Forall₂ (List.Forall₂ (Annot.OutlinedAs pool)) attributes found ∧
        map' = found.foldl (fun map lists => put map 0 lists) map := by
  induction attributes generalizing map with
  | nil =>
    constructor
    · intro h
      cases h
      exact ⟨[], .nil, rfl⟩
    · rintro ⟨_, ⟨⟩, rfl⟩
      rfl
  | cons lists attributes ih =>
    simp only [List.foldlM_cons, bind_eq_ok_iff, outline_eq_ok_iff, ih]
    constructor
    · rintro ⟨_, ⟨lists', hlists, rfl⟩, found, hfound, rfl⟩
      exact ⟨lists' :: found, .cons hlists hfound, rfl⟩
    · rintro ⟨_, _ | ⟨hlists, hfound⟩, rfl⟩
      exact ⟨_, ⟨_, hlists, rfl⟩, _, hfound, rfl⟩

namespace MethodOutline

/-- A method, and its outline. -/
inductive Outlines (pool : Pool) (m : Member) : MethodOutline → Prop where
  | intro {p : MethodParts} {flags : AccessFlags} :
      MethodParts.Takes pool m.elements ⟨.empty, [], none, none, none⟩ p →
      p.shared.flags = some flags →
      Outlines pool m ⟨m.name, flags.ofMethod, m.descriptor, p.shared.signature, p.exceptions,
        p.parameterAnnots, p.parameterNames, p.default, p.shared.annots⟩

/-- **Methods.** -/
theorem result_ofMember_eq_ok_iff {m : Member} {o : MethodOutline} :
    (ofMember pool m).result = .ok o ↔ Outlines pool m o := by
  constructor
  · intro h
    obtain ⟨p, hp, h⟩ := Logged.result_bind_eq_ok_iff.mp h
    obtain ⟨flags, hflags, h⟩ := Logged.result_bind_eq_ok_iff.mp h
    cases h
    exact .intro (MethodParts.foldlM_eq_ok_iff.mp hp) (Part.required_eq_ok_iff.mp hflags)
  · rintro ⟨hp, hflags⟩
    exact Logged.result_bind_eq_ok_iff.mpr ⟨_, MethodParts.foldlM_eq_ok_iff.mpr hp,
      Logged.result_bind_eq_ok_iff.mpr ⟨_, Part.required_eq_ok_iff.mpr hflags, rfl⟩⟩

end MethodOutline

/-! ### Record components -/

namespace ComponentOutline

/-- A record component, and its outline. -/
inductive Outlines (pool : Pool) (c : Component) : ComponentOutline → Prop where
  | intro {p : ComponentParts} : ComponentParts.Takes pool c.attributes ⟨none, none, none⟩ p →
      Outlines pool c ⟨c.name, c.descriptor, p.signature, p.annots, p.typeAnnots⟩

/-- **Record components.** -/
theorem result_ofComponent_eq_ok_iff {c : Component} {o : ComponentOutline} :
    (ofComponent pool c).result = .ok o ↔ Outlines pool c o := by
  constructor
  · intro h
    obtain ⟨p, hp, h⟩ := Logged.result_bind_eq_ok_iff.mp h
    cases h
    exact .intro (ComponentParts.foldlM_eq_ok_iff.mp hp)
  · rintro ⟨hp⟩
    exact Logged.result_bind_eq_ok_iff.mpr ⟨_, ComponentParts.foldlM_eq_ok_iff.mpr hp, rfl⟩

end ComponentOutline

/-! ### Classes -/

/-- A step for each item of a list succeeds when all of them do. -/
theorem Logged.result_mapM_eq_ok_iff {α β : Type} {f : α → Logged β} {R : α → β → Prop}
    {as : List α} {bs : List β} (h : ∀ {a b}, (f a).result = .ok b ↔ R a b) :
    (as.mapM f).result = .ok bs ↔ List.Forall₂ R as bs := by
  rw [result_mapM]
  exact mapM_eq_ok_iff fun _ _ _ => h

/-- Annotations that may be absent, and their outlines. -/
def Annot.OutlinedOptional (pool : Pool) (as : Option (List Annot)) (bs : List AnnotOutline) :
    Prop :=
  Annot.outlineOptional pool as = .ok bs

namespace ClassOutline

/-- The stream of a class of the given qualified name, and its outline. -/
inductive Outlines (name : String) (pool : Pool) (stream : List Element) : ClassOutline → Prop where
  | intro {header : HeaderParts} {flags : AccessFlags} {methods : List MethodOutline}
      {fields : List FieldOutline} {visible invisible : List AnnotOutline}
      {components : List ComponentOutline} :
      HeaderParts.Takes stream .empty header → header.flags = some flags →
      List.Forall₂ (MethodOutline.Outlines pool) (stream.filterMap Element.method?) methods →
      List.Forall₂ (FieldOutline.Outlines pool) (stream.filterMap Element.field?) fields →
      Annot.OutlinedOptional pool header.visible visible →
      Annot.OutlinedOptional pool header.invisible invisible →
      List.Forall₂ (ComponentOutline.Outlines pool) (stream.flatMap Element.components)
        components →
      Outlines name pool stream
        { name := name
          flags := flags.ofClass
          signature := header.signature
          superName := header.superName
          interfaces := header.interfaces.getD []
          methods := nonempty? methods
          fields := nonempty? fields
          permittedSubclasses := stream.flatMap Element.permitted
          components := components
          innerFlags := InnerClass.flagsOf? name (stream.flatMap Element.innerClasses)
          annots := visible ++ invisible }

variable {name : String} {stream : List Element} {c : ClassOutline}

/-- **Classes.** -/
theorem result_compose_eq_ok_iff :
    (compose name pool stream).result = .ok c ↔ Outlines name pool stream c := by
  constructor
  · intro h
    obtain ⟨header, hheader, h⟩ := Logged.result_bind_eq_ok_iff.mp h
    obtain ⟨flags, hflags, h⟩ := Logged.result_bind_eq_ok_iff.mp h
    obtain ⟨methods, hmethods, h⟩ := Logged.result_bind_eq_ok_iff.mp h
    obtain ⟨fields, hfields, h⟩ := Logged.result_bind_eq_ok_iff.mp h
    obtain ⟨visible, hvisible, h⟩ := Logged.result_bind_eq_ok_iff.mp h
    obtain ⟨invisible, hinvisible, h⟩ := Logged.result_bind_eq_ok_iff.mp h
    obtain ⟨components, hcomponents, h⟩ := Logged.result_bind_eq_ok_iff.mp h
    cases h
    exact .intro (HeaderParts.foldlM_eq_ok_iff.mp hheader) (Part.required_eq_ok_iff.mp hflags)
      ((Logged.result_mapM_eq_ok_iff MethodOutline.result_ofMember_eq_ok_iff).mp hmethods)
      ((Logged.result_mapM_eq_ok_iff FieldOutline.result_ofMember_eq_ok_iff).mp hfields)
      hvisible hinvisible
      ((Logged.result_mapM_eq_ok_iff ComponentOutline.result_ofComponent_eq_ok_iff).mp hcomponents)
  · rintro ⟨hheader, hflags, hmethods, hfields, hvisible, hinvisible, hcomponents⟩
    refine Logged.result_bind_eq_ok_iff.mpr ⟨_, HeaderParts.foldlM_eq_ok_iff.mpr hheader, ?_⟩
    refine Logged.result_bind_eq_ok_iff.mpr ⟨_, Part.required_eq_ok_iff.mpr hflags, ?_⟩
    refine Logged.result_bind_eq_ok_iff.mpr ⟨_,
      (Logged.result_mapM_eq_ok_iff MethodOutline.result_ofMember_eq_ok_iff).mpr hmethods, ?_⟩
    refine Logged.result_bind_eq_ok_iff.mpr ⟨_,
      (Logged.result_mapM_eq_ok_iff FieldOutline.result_ofMember_eq_ok_iff).mpr hfields, ?_⟩
    refine Logged.result_bind_eq_ok_iff.mpr ⟨_, hvisible, ?_⟩
    refine Logged.result_bind_eq_ok_iff.mpr ⟨_, hinvisible, ?_⟩
    refine Logged.result_bind_eq_ok_iff.mpr ⟨_,
      (Logged.result_mapM_eq_ok_iff ComponentOutline.result_ofComponent_eq_ok_iff).mpr hcomponents,
      rfl⟩

/-- A class needs a name. -/
theorem result_ofElements_eq_ok_iff :
    (ofElements name pool stream).result = .ok c ↔ name ≠ "" ∧ Outlines name pool stream c := by
  rw [ofElements, Logged.result_bind_eq_ok_iff, ← result_compose_eq_ok_iff]
  by_cases h : name = ""
  · constructor
    · rintro ⟨_, ⟨⟩, hfail⟩
      rw [if_pos h] at hfail
      nomatch hfail
    · exact fun hname => absurd h hname.1
  · simp only [if_neg h]
    constructor
    · rintro ⟨_, ⟨⟩, hc⟩
      obtain ⟨_, hc, hdone⟩ := Logged.result_bind_eq_ok_iff.mp hc
      obtain ⟨_, ⟨⟩, hdone⟩ := Logged.result_bind_eq_ok_iff.mp hdone
      cases hdone
      exact ⟨h, hc⟩
    · rintro ⟨-, hc⟩
      exact ⟨(), rfl, Logged.result_bind_eq_ok_iff.mpr ⟨c, hc, rfl⟩⟩

/-- **Bytes.**  A class is outlined exactly if its bytes are a class file with a name and a stream,
and then its outline is that of the stream. -/
theorem result_ofBytes_eq_ok_iff {bytes : Bytes} : (ofBytes bytes).result = .ok c ↔
    ∃ file name stream, ClassFile.parse bytes = .ok file ∧
      file.pool.HasClass file.thisClass name ∧ file.Streams stream ∧
        ClassName.qualified name ≠ "" ∧ Outlines (ClassName.qualified name) file.pool stream c := by
  have hcheck {α : Type} {x : Except FormatError α} {a : α} :
      (Logged.check (outlined x)).result = .ok a ↔ x = .ok a := outlined_eq_ok_iff
  simp only [ofBytes, Logged.result_bind_eq_ok_iff, hcheck, result_ofElements_eq_ok_iff,
    ClassFile.className, Pool.className_eq_ok_iff, ClassFile.elements_eq_ok_iff,
    exists_and_left]

end ClassOutline

end JvmOutline
