import JvmOutline.Proofs.Outline.Declarations
import JvmOutline.Proofs.Outline.Faults
import JvmOutline.Proofs.Outline.Kinds

/-!
# Which error wins

A class can have many faults at once, but its outline fails with one error.

Fields, methods and record components fail with the first element of their own stream that does
something wrong, and else for lack of flags: `FieldOutline.Fault`, `MethodOutline.Fault` and
`ComponentOutline.Fault` say in which errors they end.

**A class fails with the first of its faults** (`ClassOutline.result_ofElements_first_fault`).
Their order is not that of the stream (`ClassOutline.faults`): a repeated part of the class itself
comes first, then missing flags, then the methods, the fields, the annotations, and last the record
components.
-/

namespace JvmOutline

variable {pool : Pool} {e : OutlineError}

/-! ### Parts that occur once -/

namespace AttributeKind

/-- The kinds of attributes that a record component has at most once. -/
def onceInComponent : List AttributeKind := [signature]

/-- The kinds of attributes that a class has at most once. -/
def onceInClass : List AttributeKind := [signature, annots .visible, annots .invisible]

/-- The kinds of attributes that a field has at most once. -/
def onceInField : List AttributeKind := constantValue :: onceInClass

/-- The kinds of attributes that a method has at most once. -/
def onceInMethod : List AttributeKind := annotDefault :: onceInClass

end AttributeKind

namespace Attribute

variable {a : Attribute} {kinds : List AttributeKind} {kind : AttributeKind}

/-- The part that the attribute is, if it is of one of the given kinds. -/
def part? (kinds : List AttributeKind) (a : Attribute) : Option Part :=
  (a.kindIn? kinds).map .attr

theorem part?_eq_some_iff :
    a.part? kinds = some (.attr kind) ↔ a.kind? = some kind ∧ kind ∈ kinds := by
  rw [part?, ← kindIn?_eq_some_iff, Option.map_eq_some_iff]
  constructor
  · rintro ⟨_, h, ⟨⟩⟩
    exact h
  · exact fun h => ⟨kind, h, rfl⟩

theorem part?_ne_some {part : Part} (h : ∀ kind, part ≠ .attr kind) :
    a.part? kinds ≠ some part := by
  intro hpart
  obtain ⟨kind, -, rfl⟩ := Option.map_eq_some_iff.mp hpart
  exact h kind rfl

theorem isSome_signature?_iff : a.signature?.isSome = true ↔ a.kind? = some .signature := by
  cases a <;> simp [signature?, kind?]

theorem isSome_constantIndex?_iff :
    a.constantIndex?.isSome = true ↔ a.kind? = some .constantValue := by
  cases a <;> simp [constantIndex?, kind?]

theorem isSome_annots?_iff {v : Visibility} :
    (a.annots? v).isSome = true ↔ a.kind? = some (.annots v) := by
  cases a with
  | annots w as =>
    rw [annots?, kind?]
    split <;> simp_all
  | _ => simp [annots?, kind?]

theorem isSome_default?_iff : a.default?.isSome = true ↔ a.kind? = some .annotDefault := by
  cases a <;> simp [default?, kind?]

/-- A view that picks the attributes of one kind. -/
theorem isSome_iff_part? {α : Type} {pick : Attribute → Option α} (hmem : kind ∈ kinds)
    (hpick : ∀ a, (pick a).isSome = true ↔ a.kind? = some kind) (a : Attribute) :
    (pick a).isSome = true ↔ a.part? kinds = some (.attr kind) := by
  rw [hpick, part?_eq_some_iff]
  exact (and_iff_left hmem).symm

end Attribute

namespace MemberElement

/-- The part that occurs once in a field or method, if the element is one. -/
def part? (kinds : List AttributeKind) : MemberElement → Option Part
  | .flags _ => some .flags
  | .attr a => a.part? kinds

theorem isSome_flags?_iff (kinds : List AttributeKind) (b : MemberElement) :
    b.flags?.isSome = true ↔ b.part? kinds = some .flags := by
  cases b with
  | flags f => exact ⟨fun _ => rfl, fun _ => rfl⟩
  | attr a => exact ⟨nofun, fun h => absurd h (Attribute.part?_ne_some nofun)⟩

/-- A view that picks the attributes of one kind. -/
theorem isSome_iff_part? {α : Type} {pick : Attribute → Option α} {kinds : List AttributeKind}
    {kind : AttributeKind} (hmem : kind ∈ kinds)
    (hpick : ∀ a, (pick a).isSome = true ↔ a.kind? = some kind) (b : MemberElement) :
    (b.attr?.bind pick).isSome = true ↔ b.part? kinds = some (.attr kind) := by
  cases b with
  | flags f => exact ⟨nofun, nofun⟩
  | attr a => exact Attribute.isSome_iff_part? hmem hpick a

end MemberElement

/-! ### Fields and methods -/

/-- What the elements of a field or method may do wrong.  Access flags are at fault only if they are
repeated. -/
def Rules.ofMember (scope : Scope) (kinds : List AttributeKind)
    (fault : Attribute → OutlineError → Prop) : Rules MemberElement where
  scope := scope
  part? := MemberElement.part? kinds
  Fault
    | .flags _ => fun _ => False
    | .attr a => fault a

/-- An attribute that goes into a place for a part that occurs once. -/
theorem Rules.attr_eq_error_iff {β γ P : Type} {scope : Scope} {kinds : List AttributeKind}
    {fault : Attribute → OutlineError → Prop} {front : List MemberElement} {a : Attribute}
    {kind : AttributeKind} {x : Except OutlineError β} {f : β → Except OutlineError P}
    {place : Option β} {Found : γ → β → Prop} {pick : Attribute → Option γ}
    (hx : ∀ e, x = .error e ↔ fault a e)
    (hf : ∀ v, f v = .error e ↔ (Part.attr kind).once scope place v = .error e)
    (hplace : TakesOnce Found none ((front.filterMap MemberElement.attr?).filterMap pick) place)
    (ha : a.kind? = some kind) (hmem : kind ∈ kinds)
    (hpick : ∀ a, (pick a).isSome = true ↔ a.kind? = some kind) :
    (x >>= f) = .error e ↔ (ofMember scope kinds fault).FaultAfter front (.attr a) e := by
  rw [List.filterMap_filterMap] at hplace
  exact once_eq_error_iff (r := .ofMember scope kinds fault) hx hf hplace
    (Attribute.part?_eq_some_iff.mpr ⟨ha, hmem⟩) (MemberElement.isSome_iff_part? hmem hpick)

namespace SharedParts

variable {p : SharedParts} {scope : Scope} {kinds : List AttributeKind}
  {fault : Attribute → OutlineError → Prop} {front : List MemberElement} {P : Type}
  {g : SharedParts → P}

theorem putFlags_eq_error_iff {f : AccessFlags} (hp : Takes pool front .empty p) :
    (p.putFlags scope f >>= fun q => pure (g q)) = .error e ↔
      (Rules.ofMember scope kinds fault).FaultAfter front (.flags f) e :=
  Rules.put_eq_error_iff (r := .ofMember scope kinds fault) (fun _ => id)
    (bind_pure_eq_error_iff.trans bind_pure_eq_error_iff) hp.flags rfl
    (MemberElement.isSome_flags?_iff kinds)

theorem putSignature_eq_error_iff {text : String} (hp : Takes pool front .empty p)
    (hmem : .signature ∈ kinds) (hfault : ∀ e, ¬ fault (.signature text) e) :
    (p.putSignature scope text >>= fun q => pure (g q)) = .error e ↔
      (Rules.ofMember scope kinds fault).FaultAfter front (.attr (.signature text)) e :=
  Rules.attr_eq_error_iff (x := .ok text)
    (f := fun text => p.putSignature scope text >>= fun q => pure (g q))
    (fun e => ⟨nofun, fun h => absurd h (hfault e)⟩)
    (fun _ => bind_pure_eq_error_iff.trans bind_pure_eq_error_iff) hp.signature rfl hmem
    fun _ => Attribute.isSome_signature?_iff

theorem putAnnots_eq_error_iff {v : Visibility} {as : List Annot} (hp : Takes pool front .empty p)
    (hmem : .annots v ∈ kinds) (hfault : fault (.annots v as) = Annot.FirstFault pool as) :
    (Annot.outlineAll pool as >>= fun bs => p.putAnnots scope v bs >>= fun q => pure (g q)) =
        .error e ↔
      (Rules.ofMember scope kinds fault).FaultAfter front (.attr (.annots v as)) e := by
  have hx : ∀ e, Annot.outlineAll pool as = .error e ↔ fault (.annots v as) e := fun e =>
    Annot.outlineAll_eq_error_iff.trans (iff_of_eq (congrFun hfault.symm e))
  cases v with
  | visible =>
    exact Rules.attr_eq_error_iff hx
      (fun _ => bind_pure_eq_error_iff.trans bind_pure_eq_error_iff) hp.visible rfl hmem
      fun _ => Attribute.isSome_annots?_iff
  | invisible =>
    exact Rules.attr_eq_error_iff hx
      (fun _ => bind_pure_eq_error_iff.trans bind_pure_eq_error_iff) hp.invisible rfl hmem
      fun _ => Attribute.isSome_annots?_iff

end SharedParts

/-- An element of a field or method that is no part that occurs once, and at no fault. -/
theorem Rules.not_faultAfter_ofMember {scope : Scope} {kinds : List AttributeKind}
    {fault : Attribute → OutlineError → Prop} {front : List MemberElement} {a : Attribute}
    (ha : a.part? kinds = none) (hfault : ∀ e, ¬ fault a e) :
    ¬ (Rules.ofMember scope kinds fault).FaultAfter front (.attr a) e :=
  fun h => hfault e ((Rules.faultAfter_of_none ha).mp h)

namespace FieldOutline

/-- The errors of an attribute of a field by itself. -/
def AttributeFault (pool : Pool) (field : String) : Attribute → OutlineError → Prop
  | .constantValue index, e => ConstantValue.ofPool pool field index = .error e
  | .annots _ as, e => Annot.FirstFault pool as e
  | _, _ => False

/-- What the elements of a field may do wrong. -/
def rules (pool : Pool) (f : Member) : Rules MemberElement :=
  .ofMember (.field f.name) AttributeKind.onceInField (AttributeFault pool f.name)

/-- The errors of a field: those of its stream, or else that it has no flags. -/
def Fault (pool : Pool) (f : Member) : OutlineError → Prop :=
  FirstOf [(rules pool f).FirstFault f.elements,
    Part.flags.Missing (.field f.name) MemberElement.flags? f.elements]

theorem result_accept_eq_error_iff {f : Member} {front : List MemberElement} {p : FieldParts}
    {b : MemberElement} (hp : FieldParts.Takes pool f.name front ⟨.empty, none⟩ p) :
    (p.accept pool f.name b).result = .error e ↔ (rules pool f).FaultAfter front b e := by
  cases b with
  | flags flags => exact SharedParts.putFlags_eq_error_iff hp.shared
  | attr a =>
    cases a with
    | signature text =>
      exact SharedParts.putSignature_eq_error_iff hp.shared (by decide) fun _ => id
    | annots v as => exact SharedParts.putAnnots_eq_error_iff hp.shared (by cases v <;> decide) rfl
    | constantValue index =>
      exact Rules.attr_eq_error_iff (fun _ => Iff.rfl) (fun _ => bind_pure_eq_error_iff) hp.value
        rfl (by decide) fun _ => Attribute.isSome_constantIndex?_iff
    | _ => exact ⟨nofun, fun h => absurd h (Rules.not_faultAfter_ofMember rfl fun _ => id)⟩

/-- **Fields.** -/
theorem result_ofMember_eq_error_iff {f : Member} :
    (ofMember pool f).result = .error e ↔ Fault pool f e := by
  rw [ofMember, Logged.result_bind]
  refine bind_eq_error_iff (fun _ => Rules.foldlM_eq_error_iff fun _ _ _ _ hp =>
    result_accept_eq_error_iff (FieldParts.foldlM_eq_ok_iff.mp hp)) fun p hp => ?_
  have hshared := (FieldParts.foldlM_eq_ok_iff.mp hp).shared
  rw [Logged.result_bind, firstOf_singleton]
  exact bind_pure_eq_error_iff.trans (Part.required_eq_error_iff hshared.flags)

end FieldOutline

namespace MethodOutline

/-- The errors of an attribute of a method by itself. -/
def AttributeFault (pool : Pool) : Attribute → OutlineError → Prop
  | .annots _ as, e => Annot.FirstFault pool as e
  | .parameterAnnots _ lists, e => Annot.FirstFault pool lists.flatten e
  | .annotDefault value, e => value.outline pool = .error e
  | _, _ => False

/-- What the elements of a method may do wrong. -/
def rules (pool : Pool) (m : Member) : Rules MemberElement :=
  .ofMember (.method m.name m.descriptor) AttributeKind.onceInMethod (AttributeFault pool)

/-- The errors of a method: those of its stream, or else that it has no flags. -/
def Fault (pool : Pool) (m : Member) : OutlineError → Prop :=
  FirstOf [(rules pool m).FirstFault m.elements,
    Part.flags.Missing (.method m.name m.descriptor) MemberElement.flags? m.elements]

theorem result_accept_eq_error_iff {m : Member} {front : List MemberElement} {p : MethodParts}
    {b : MemberElement} (hp : MethodParts.Takes pool front ⟨.empty, [], none, none, none⟩ p) :
    (p.accept pool (.method m.name m.descriptor) b).result = .error e ↔
      (rules pool m).FaultAfter front b e := by
  cases b with
  | flags flags => exact SharedParts.putFlags_eq_error_iff hp.shared
  | attr a =>
    cases a with
    | signature text =>
      exact SharedParts.putSignature_eq_error_iff hp.shared (by decide) fun _ => id
    | annots v as => exact SharedParts.putAnnots_eq_error_iff hp.shared (by cases v <;> decide) rfl
    | parameterAnnots v lists =>
      exact (bind_pure_eq_error_iff.trans ParameterAnnots.outline_eq_error_iff).trans
        (Rules.faultAfter_of_none (r := rules pool m) (a := .attr (.parameterAnnots v lists))
          (by cases v <;> rfl)).symm
    | annotDefault value =>
      exact Rules.attr_eq_error_iff (fun _ => Iff.rfl) (fun _ => bind_pure_eq_error_iff) hp.default
        rfl (by decide) fun _ => Attribute.isSome_default?_iff
    | _ => exact ⟨nofun, fun h => absurd h (Rules.not_faultAfter_ofMember rfl fun _ => id)⟩

/-- **Methods.** -/
theorem result_ofMember_eq_error_iff {m : Member} :
    (ofMember pool m).result = .error e ↔ Fault pool m e := by
  rw [ofMember, Logged.result_bind]
  refine bind_eq_error_iff (fun _ => Rules.foldlM_eq_error_iff fun _ _ _ _ hp =>
    result_accept_eq_error_iff (MethodParts.foldlM_eq_ok_iff.mp hp)) fun p hp => ?_
  have hshared := (MethodParts.foldlM_eq_ok_iff.mp hp).shared
  rw [Logged.result_bind, firstOf_singleton]
  exact bind_pure_eq_error_iff.trans (Part.required_eq_error_iff hshared.flags)

end MethodOutline

/-! ### Record components -/

namespace ComponentOutline

/-- The errors of an attribute of a record component by itself. -/
def AttributeFault (pool : Pool) : Attribute → OutlineError → Prop
  | .annots _ as, e => Annot.FirstFault pool as e
  | .typeAnnots _ as, e => Annot.FirstFault pool (as.map TypeAnnot.annot) e
  | _, _ => False

/-- What the attributes of a record component may do wrong. -/
def rules (pool : Pool) (c : Component) : Rules Attribute where
  scope := .component c.name
  part? := Attribute.part? AttributeKind.onceInComponent
  Fault := AttributeFault pool

/-- The errors of a record component, which are those of its attributes. -/
def Fault (pool : Pool) (c : Component) : OutlineError → Prop :=
  (rules pool c).FirstFault c.attributes

theorem result_accept_eq_error_iff {c : Component} {front : List Attribute} {p : ComponentParts}
    {a : Attribute} (hp : ComponentParts.Takes pool front ⟨none, none, none⟩ p) :
    (p.accept pool (.component c.name) a).result = .error e ↔
      (rules pool c).FaultAfter front a e := by
  cases a with
  | signature text =>
    exact Rules.put_eq_error_iff (r := rules pool c) (fun _ => id) bind_pure_eq_error_iff
      hp.signature rfl
      (Attribute.isSome_iff_part? (by decide) fun _ => Attribute.isSome_signature?_iff)
  | annots v as =>
    exact (bind_pure_eq_error_iff.trans Annot.outlineAll_eq_error_iff).trans
      (Rules.faultAfter_of_none (r := rules pool c) (a := .annots v as) (by cases v <;> rfl)).symm
  | typeAnnots v as =>
    exact (bind_pure_eq_error_iff.trans Annot.outlineAll_eq_error_iff).trans
      (Rules.faultAfter_of_none (r := rules pool c) (a := .typeAnnots v as)
        (by cases v <;> rfl)).symm
  | _ =>
    exact ⟨nofun, fun h => ((Rules.faultAfter_of_none (r := rules pool c) rfl).mp h).elim⟩

/-- **Record components.** -/
theorem result_ofComponent_eq_error_iff {c : Component} :
    (ofComponent pool c).result = .error e ↔ Fault pool c e := by
  rw [ofComponent, Logged.result_bind]
  exact bind_pure_eq_error_iff.trans (Rules.foldlM_eq_error_iff fun _ _ _ _ hp =>
    result_accept_eq_error_iff (ComponentParts.foldlM_eq_ok_iff.mp hp))

end ComponentOutline

/-! ### Classes -/

namespace Element

/-- The part that occurs once in a class, if the element is one. -/
def part? : Element → Option Part
  | .flags _ => some .flags
  | .superclass _ => some .superclass
  | .interfaces _ => some .interfaces
  | .attr a => a.part? AttributeKind.onceInClass
  | _ => none

theorem isSome_flags?_iff (b : Element) : b.flags?.isSome = true ↔ b.part? = some .flags := by
  cases b with
  | attr a => exact ⟨nofun, fun h => absurd h (Attribute.part?_ne_some nofun)⟩
  | _ => simp [flags?, part?]

theorem isSome_superName?_iff (b : Element) :
    b.superName?.isSome = true ↔ b.part? = some .superclass := by
  cases b with
  | attr a => exact ⟨nofun, fun h => absurd h (Attribute.part?_ne_some nofun)⟩
  | _ => simp [superName?, part?]

theorem isSome_interfaceNames?_iff (b : Element) :
    b.interfaceNames?.isSome = true ↔ b.part? = some .interfaces := by
  cases b with
  | attr a => exact ⟨nofun, fun h => absurd h (Attribute.part?_ne_some nofun)⟩
  | _ => simp [interfaceNames?, part?]

/-- A view that picks the attributes of one kind. -/
theorem isSome_iff_part? {α : Type} {pick : Attribute → Option α} {kind : AttributeKind}
    (hmem : kind ∈ AttributeKind.onceInClass)
    (hpick : ∀ a, (pick a).isSome = true ↔ a.kind? = some kind) (b : Element) :
    (b.attr?.bind pick).isSome = true ↔ b.part? = some (.attr kind) := by
  cases b with
  | attr a => exact Attribute.isSome_iff_part? hmem hpick a
  | _ => exact ⟨nofun, nofun⟩

end Element

/-- A step for each item of a list fails with the first fault of an item. -/
theorem Logged.result_mapM_eq_error_iff {α β : Type} {f : α → Logged β}
    {Fault : α → OutlineError → Prop} {as : List α}
    (h : ∀ {a e}, (f a).result = .error e ↔ Fault a e) :
    (as.mapM f).result = .error e ↔ FirstOf (as.map Fault) e := by
  have hfault : (fun a e => (f a).result = .error e) = Fault :=
    funext fun _ => funext fun _ => propext h
  rw [result_mapM, mapM_eq_error_iff, hfault]

theorem Annot.outlineOptional_eq_error_iff {as : Option (List Annot)} :
    outlineOptional pool as = .error e ↔ Annot.FirstFault pool as.toList.flatten e := by
  cases as with
  | none => exact ⟨nofun, nofun⟩
  | some as =>
    rw [Option.toList_some, List.flatten_singleton]
    exact outlineAll_eq_error_iff

namespace ClassOutline

variable {name : String} {stream : List Element}

/-- What the elements of a class may do wrong: they repeat a part, and nothing else. -/
def rules (name : String) : Rules Element where
  scope := .class name
  part? := Element.part?
  Fault _ _ := False

/-- The annotations of a class that are of one visibility. -/
def storedAnnots (v : Visibility) (stream : List Element) : List Annot :=
  ((stream.filterMap Element.attr?).filterMap (Attribute.annots? v)).flatten

end ClassOutline

/-! ### What can be wrong with the elements of a class -/

namespace Element

/-- An error of a method; static initializers are not outlined. -/
inductive MethodFault (pool : Pool) : Element → OutlineError → Prop where
  | intro {m : Member} {e : OutlineError} : m.name ≠ "<clinit>" → MethodOutline.Fault pool m e →
      MethodFault pool (.method m) e

/-- An error of a field. -/
inductive FieldFault (pool : Pool) : Element → OutlineError → Prop where
  | intro {f : Member} {e : OutlineError} : FieldOutline.Fault pool f e →
      FieldFault pool (.field f) e

/-- An error of the first record component of an attribute that has one. -/
inductive ComponentFault (pool : Pool) : Element → OutlineError → Prop where
  | intro {cs : List Component} {e : OutlineError} :
      FirstOf (cs.map (ComponentOutline.Fault pool)) e → ComponentFault pool (.attr (.record cs)) e

variable {stream : List Element}

theorem firstOf_methods_iff :
    FirstOf ((stream.filterMap method?).map (MethodOutline.Fault pool)) e ↔
      FirstOf (stream.map (MethodFault pool)) e := by
  rw [List.filterMap_eq_flatMap_toList]
  refine firstOf_flatMap fun b e => ?_
  cases b with
  | method m =>
    by_cases hname : m.name = "<clinit>"
    · rw [method?_of_initializer hname]
      exact ⟨nofun, fun ⟨hne, _⟩ => absurd hname hne⟩
    · rw [method?_of_ne hname]
      exact firstOf_singleton.trans ⟨fun h => .intro hname h, fun ⟨_, h⟩ => h⟩
  | _ => exact ⟨nofun, nofun⟩

theorem firstOf_fields_iff :
    FirstOf ((stream.filterMap field?).map (FieldOutline.Fault pool)) e ↔
      FirstOf (stream.map (FieldFault pool)) e := by
  rw [List.filterMap_eq_flatMap_toList]
  refine firstOf_flatMap fun b e => ?_
  cases b with
  | field f => exact firstOf_singleton.trans ⟨fun h => .intro h, fun ⟨h⟩ => h⟩
  | _ => exact ⟨nofun, nofun⟩

theorem firstOf_components_iff :
    FirstOf ((stream.flatMap components).map (ComponentOutline.Fault pool)) e ↔
      FirstOf (stream.map (ComponentFault pool)) e := by
  refine firstOf_flatMap fun b e => ?_
  cases b with
  | attr a =>
    cases a with
    | record cs => exact ⟨fun h => .intro h, fun ⟨h⟩ => h⟩
    | _ => exact ⟨nofun, nofun⟩
  | _ => exact ⟨nofun, nofun⟩

end Element

namespace ClassOutline

variable {name : String} {stream : List Element}

/-- The error of a class without a name. -/
def Unnamed (name : String) (e : OutlineError) : Prop :=
  name = "" ∧ e = .missing .className .classFile

/-- The errors of a class that has a name, in the order in which they win.  Of the methods, the
fields and the record components, the first in the stream that has an error decides. -/
def faults (name : String) (pool : Pool) (stream : List Element) : List (OutlineError → Prop) :=
  [(rules name).FirstFault stream,
    Part.flags.Missing (.class name) Element.flags? stream,
    FirstOf (stream.map (Element.MethodFault pool)),
    FirstOf (stream.map (Element.FieldFault pool)),
    Annot.FirstFault pool (storedAnnots .visible stream),
    Annot.FirstFault pool (storedAnnots .invisible stream),
    FirstOf (stream.map (Element.ComponentFault pool))]

theorem result_accept_eq_error_iff {front : List Element} {p : HeaderParts} {b : Element}
    (hp : HeaderParts.Takes front .empty p) :
    (p.accept (.class name) b).result = .error e ↔ (rules name).FaultAfter front b e := by
  have hattr {α : Type} {a : Attribute} {kind : AttributeKind} {y : Except OutlineError HeaderParts}
      {place : Option α} {value : α} {pick : Attribute → Option α} (ha : a.kind? = some kind)
      (hmem : kind ∈ AttributeKind.onceInClass)
      (hpick : ∀ a, (pick a).isSome = true ↔ a.kind? = some kind)
      (hplace : TakesOnce Eq none ((front.filterMap Element.attr?).filterMap pick) place)
      (hy : y = .error e ↔ (Part.attr kind).once (.class name) place value = .error e) :
      y = .error e ↔ (rules name).FaultAfter front (.attr a) e := by
    rw [List.filterMap_filterMap] at hplace
    exact Rules.put_eq_error_iff (r := rules name) (a := .attr a) (fun _ => id) hy hplace
      (Attribute.part?_eq_some_iff.mpr ⟨ha, hmem⟩) (Element.isSome_iff_part? hmem hpick)
  have hno {b : Element} (hb : (rules name).part? b = none) :
      ¬ (rules name).FaultAfter front b e := fun h => (Rules.faultAfter_of_none hb).mp h
  cases b with
  | flags f =>
    exact Rules.put_eq_error_iff (r := rules name) (fun _ => id) bind_pure_eq_error_iff hp.flags rfl
      Element.isSome_flags?_iff
  | superclass name' =>
    exact Rules.put_eq_error_iff (r := rules name) (fun _ => id) bind_pure_eq_error_iff
      hp.superName rfl Element.isSome_superName?_iff
  | interfaces names =>
    exact Rules.put_eq_error_iff (r := rules name) (fun _ => id) bind_pure_eq_error_iff
      hp.interfaces rfl Element.isSome_interfaceNames?_iff
  | field f => exact ⟨nofun, fun h => absurd h (hno rfl)⟩
  | method m =>
    rw [p.result_accept_method]
    exact ⟨nofun, fun h => absurd h (hno rfl)⟩
  | attr a =>
    cases a with
    | signature text =>
      exact hattr rfl (by decide) (fun _ => Attribute.isSome_signature?_iff) hp.signature
        bind_pure_eq_error_iff
    | annots v as =>
      cases v with
      | visible =>
        exact hattr rfl (by decide) (fun _ => Attribute.isSome_annots?_iff) hp.visible
          bind_pure_eq_error_iff
      | invisible =>
        exact hattr rfl (by decide) (fun _ => Attribute.isSome_annots?_iff) hp.invisible
          bind_pure_eq_error_iff
    | typeAnnots v as | parameterAnnots v as =>
      exact ⟨nofun, fun h => absurd h (hno (by cases v <;> rfl))⟩
    | _ => exact ⟨nofun, fun h => absurd h (hno rfl)⟩

/-- **Classes.** -/
theorem result_compose_eq_error_iff :
    (compose name pool stream).result = .error e ↔ FirstOf (faults name pool stream) e := by
  rw [compose, Logged.result_bind]
  refine bind_eq_error_iff (fun _ => Rules.foldlM_eq_error_iff fun _ _ _ _ hp =>
    result_accept_eq_error_iff (HeaderParts.foldlM_eq_ok_iff.mp hp)) fun header hheader => ?_
  have htakes := HeaderParts.foldlM_eq_ok_iff.mp hheader
  have hvisible : header.visible.toList.flatten = storedAnnots .visible stream :=
    congrArg List.flatten (takesOnce_eq_iff.mp htakes.visible)
  have hinvisible : header.invisible.toList.flatten = storedAnnots .invisible stream :=
    congrArg List.flatten (takesOnce_eq_iff.mp htakes.invisible)
  rw [Logged.result_bind]
  refine bind_eq_error_iff (fun _ => Part.required_eq_error_iff htakes.flags) fun flags _ => ?_
  rw [Logged.result_bind]
  refine bind_eq_error_iff (fun _ => (Logged.result_mapM_eq_error_iff
    MethodOutline.result_ofMember_eq_error_iff).trans Element.firstOf_methods_iff)
      fun methods _ => ?_
  rw [Logged.result_bind]
  refine bind_eq_error_iff (fun _ => (Logged.result_mapM_eq_error_iff
    FieldOutline.result_ofMember_eq_error_iff).trans Element.firstOf_fields_iff) fun fields _ => ?_
  rw [Logged.result_bind]
  refine bind_eq_error_iff (fun _ => hvisible ▸ Annot.outlineOptional_eq_error_iff)
    fun visible _ => ?_
  rw [Logged.result_bind]
  refine bind_eq_error_iff (fun _ => hinvisible ▸ Annot.outlineOptional_eq_error_iff)
    fun invisible _ => ?_
  rw [Logged.result_bind, firstOf_singleton]
  exact bind_pure_eq_error_iff.trans ((Logged.result_mapM_eq_error_iff
    ComponentOutline.result_ofComponent_eq_error_iff).trans Element.firstOf_components_iff)

/-- A class without a name has no other fault. -/
theorem result_ofElements_eq_error_iff : (ofElements name pool stream).result = .error e ↔
    FirstOf (Unnamed name :: faults name pool stream) e := by
  rw [FirstOf, ofElements, Logged.result_bind]
  change Logged.result (ite ..) = _ ↔ _
  by_cases hname : name = ""
  · have hsome : ¬ ∀ e', ¬ Unnamed name e' := fun h => h _ ⟨hname, rfl⟩
    rw [if_pos hname, or_iff_left fun h => hsome h.1]
    exact ⟨fun h => ⟨hname, (Except.error.inj h).symm⟩, fun h => congrArg _ h.2.symm⟩
  · have hno : ∀ e', ¬ Unnamed name e' := fun _ h => hname h.1
    rw [if_neg hname, Logged.result_bind, or_iff_right (hno e), and_iff_right hno]
    exact bind_pure_eq_error_iff.trans result_compose_eq_error_iff

/-- **Which error wins.**  A class that has a name fails with the first of its faults.  The first
one is a repeated part of the class itself, if there is one, wherever it stands in the stream; the
error is then about the part whose second occurrence comes first. -/
theorem result_ofElements_first_fault (name : String) (pool : Pool) (stream : List Element)
    (e : OutlineError) :
    ((ofElements name pool stream).result = .error e ↔
      FirstOf (Unnamed name :: faults name pool stream) e) ∧
    ((rules name).FirstFault stream e ↔ ∃ front el back part, stream = front ++ el :: back ∧
      (front.filterMap Element.part?).Nodup ∧ el.part? = some part ∧
        part ∈ front.filterMap Element.part? ∧ e = .repeated part (.class name)) ∧
    ((∃ e, (rules name).FirstFault stream e) ↔ ¬ (stream.filterMap Element.part?).Nodup) := by
  have hnone (stream : List Element) : (∀ e, ¬ (rules name).FirstFault stream e) ↔
      (stream.filterMap Element.part?).Nodup :=
    Rules.forall_not_firstFault_iff.trans (and_iff_left fun _ _ _ => id)
  refine ⟨result_ofElements_eq_error_iff, ?_, ?_⟩
  · have hrepeats (front : List Element) (el : Element) :
        (rules name).FaultAfter front el e ↔ (rules name).Repeats front el e :=
      Rules.faultAfter_of_forall_not fun _ => id
    rw [Rules.firstFault_iff]
    simp only [hnone, hrepeats, Rules.Repeats, ← exists_and_left]
    rfl
  · rw [← hnone, not_forall_not]

/-- Behind a method without flags there is a second superclass. -/
example : verdict (ofElements "p.Shape" .empty [.flags ⟨1⟩, .method ⟨"area", "()D", []⟩,
    .superclass "p/Form", .superclass "p/Figure"]).result =
      .error (.repeated .superclass (.class "p.Shape")) := by decide

end ClassOutline

end JvmOutline
