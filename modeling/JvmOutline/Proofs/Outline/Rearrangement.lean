import JvmOutline.Proofs.Outline.Declarations
import JvmOutline.Proofs.Outline.Kinds

/-!
# Rearranged streams

Every place of a declaration is filled from the elements of one kind.  So two streams that are
alike by kind fill the places alike, and how the kinds are mixed does not matter: not among the
elements of a class, nor among those of a field or method (`MemberElement.fieldKind?`,
`MemberElement.methodKind?`, `Element.kind?`).  The annotations of parameters count as one kind,
whichever their visibility, because they go into one place in the order in which they come.

**Rearranged streams have the same outline** (`ClassOutline.result_ofElements_rearranged`).  What
an outline lists of repeated attributes it lists in the order of the stream, and it puts the visible
annotations of a class in front of the invisible ones, wherever they stood
(`ClassOutline.Collects`).
-/

namespace JvmOutline

variable {pool : Pool}

/-! ### The kinds of elements -/

namespace AttributeKind

/-- The kinds for which fields and methods have the same use. -/
def shared : List AttributeKind := [signature, annots .visible, annots .invisible]

/-- The kind that stands for a kind in a method: the annotations of parameters go into one place. -/
def inMethod : AttributeKind → AttributeKind
  | parameterAnnots _ => parameterAnnots .visible
  | kind => kind

theorem mem_ofField_of_shared : ∀ kind ∈ shared, kind ∈ ofField := by decide

theorem mem_ofMethod_of_shared : ∀ kind ∈ shared, kind ∈ ofMethod ∧ kind.inMethod = kind := by
  decide

end AttributeKind

namespace MemberElement

/-- The kind of an element of a field. -/
def fieldKind? : MemberElement → Option Part
  | .flags _ => some .flags
  | .attr a => (a.kindIn? AttributeKind.ofField).map .attr

/-- The kind of an element of a method. -/
def methodKind? : MemberElement → Option Part
  | .flags _ => some .flags
  | .attr a => (a.kindIn? AttributeKind.ofMethod).map fun kind => .attr kind.inMethod

variable {a : Attribute} {kind : AttributeKind}

theorem fieldKind?_attr (h : a.kind? = some kind) (hmem : kind ∈ AttributeKind.ofField) :
    fieldKind? (.attr a) = some (.attr kind) := by
  rw [fieldKind?, Attribute.kindIn?_eq_some_iff.mpr ⟨h, hmem⟩, Option.map_some]

theorem methodKind?_attr (h : a.kind? = some kind) (hmem : kind ∈ AttributeKind.ofMethod) :
    methodKind? (.attr a) = some (.attr kind.inMethod) := by
  rw [methodKind?, Attribute.kindIn?_eq_some_iff.mpr ⟨h, hmem⟩, Option.map_some]

end MemberElement

/-- Two fields or methods of one name and descriptor, whose streams are alike by kind. -/
structure Member.Rearranged (kind? : MemberElement → Option Part) (m m' : Member) : Prop where
  name : m.name = m'.name
  descriptor : m.descriptor = m'.descriptor
  elements : AlikeByKind kind? Eq m.elements m'.elements

theorem Member.Rearranged.refl (kind? : MemberElement → Option Part) (m : Member) :
    m.Rearranged kind? m :=
  ⟨rfl, rfl, .refl (fun _ => rfl) m.elements⟩

theorem Member.Rearranged.symm {kind? : MemberElement → Option Part} {m m' : Member}
    (h : m.Rearranged kind? m') : m'.Rearranged kind? m :=
  ⟨h.name.symm, h.descriptor.symm, h.elements.symm Eq.symm⟩

namespace Element

/-- The kinds of elements of a class. -/
inductive Kind where
  | part (part : Part)
  | field
  | method
  deriving DecidableEq

/-- The kind of an element of a class. -/
def kind? : Element → Option Kind
  | .flags _ => some (.part .flags)
  | .superclass _ => some (.part .superclass)
  | .interfaces _ => some (.part .interfaces)
  | .field _ => some .field
  | .method _ => some .method
  | .attr a => (a.kindIn? AttributeKind.ofClass).map fun kind => .part (.attr kind)

theorem kind?_attr {a : Attribute} {kind : AttributeKind} (h : a.kind? = some kind)
    (hmem : kind ∈ AttributeKind.ofClass) : kind? (.attr a) = some (.part (.attr kind)) := by
  rw [Element.kind?, Attribute.kindIn?_eq_some_iff.mpr ⟨h, hmem⟩, Option.map_some]

/-- The elements are the same, or two fields or two methods whose streams are rearranged. -/
inductive Alike : Element → Element → Prop where
  | refl (e : Element) : Alike e e
  | field {f f' : Member} : f.Rearranged MemberElement.fieldKind? f' → Alike (.field f) (.field f')
  | method {m m' : Member} : m.Rearranged MemberElement.methodKind? m' →
      Alike (.method m) (.method m')

theorem Alike.symm {e e' : Element} (h : e.Alike e') : e'.Alike e := by
  cases h with
  | refl => exact .refl e
  | field h => exact .field h.symm
  | method h => exact .method h.symm

/-- A view that sees neither fields nor methods sees the same in elements that are alike. -/
theorem Alike.view_eq {β : Type} {view : Element → β} {e e' : Element} (h : e.Alike e')
    (hfield : ∀ f f', view (.field f) = view (.field f'))
    (hmethod : ∀ m m', view (.method m) = view (.method m')) : view e = view e' := by
  cases h with
  | refl => rfl
  | field _ => exact hfield _ _
  | method _ => exact hmethod _ _

end Element

/-- Two streams of a class that are alike by kind. -/
abbrev Element.Rearranged (stream stream' : List Element) : Prop :=
  AlikeByKind Element.kind? Element.Alike stream stream'

/-! ### Fields and methods -/

section

variable {kind? : MemberElement → Option Part} {stream stream' : List MemberElement}

/-- The attributes in rearranged streams are rearranged. -/
theorem AlikeByKind.attributes (h : AlikeByKind kind? Eq stream stream') :
    AlikeByKind (fun a => kind? (.attr a)) Eq (stream.filterMap MemberElement.attr?)
      (stream'.filterMap MemberElement.attr?) := by
  intro kind
  rw [List.filter_filterMap, List.filter_filterMap, List.forall₂_eq_eq_eq]
  refine h.filterMap_eq kind (fun {e a} ha => ?_) fun h => h ▸ rfl
  cases e with
  | flags _ => nomatch ha
  | attr a' =>
    obtain ⟨⟨⟩, hkind⟩ := Option.filter_eq_some_iff.mp ha
    exact of_decide_eq_true hkind

/-- A view that picks attributes of one kind only. -/
theorem AlikeByKind.pick_eq (h : AlikeByKind kind? Eq stream stream') (part : Part) {β : Type}
    {pick : Attribute → Option β}
    (hkind : ∀ {a b}, pick a = some b → kind? (.attr a) = some part) :
    (stream.filterMap MemberElement.attr?).filterMap pick =
      (stream'.filterMap MemberElement.attr?).filterMap pick :=
  h.attributes.filterMap_eq part hkind fun h => h ▸ rfl

theorem SharedParts.Takes.rearranged {p p' : SharedParts} (ht : Takes pool stream p p')
    (h : AlikeByKind kind? Eq stream stream') (hflags : ∀ f, kind? (.flags f) = some .flags)
    (hattr : ∀ {a}, ∀ kind ∈ AttributeKind.shared, a.kind? = some kind →
      kind? (.attr a) = some (.attr kind)) : Takes pool stream' p p' := by
  have hflagsEq : stream.filterMap MemberElement.flags? = stream'.filterMap MemberElement.flags? :=
    h.filterMap_eq .flags (fun {e _} he => by
      cases e with
      | flags f => exact hflags f
      | attr _ => nomatch he) fun h => h ▸ rfl
  have hsignature := h.pick_eq (.attr .signature) fun ha =>
    hattr _ (by decide) (Attribute.kind?_of_signature? ha)
  have hvisible := h.pick_eq (.attr (.annots .visible)) fun ha =>
    hattr _ (by decide) (Attribute.kind?_of_annots? ha)
  have hinvisible := h.pick_eq (.attr (.annots .invisible)) fun ha =>
    hattr _ (by decide) (Attribute.kind?_of_annots? ha)
  exact ⟨hflagsEq ▸ ht.flags, hsignature ▸ ht.signature, hvisible ▸ ht.visible,
    hinvisible ▸ ht.invisible⟩

/-- A field. -/
theorem FieldOutline.Outlines.rearranged {f f' : Member} {o : FieldOutline}
    (ho : Outlines pool f o) (h : f.Rearranged MemberElement.fieldKind? f') :
    Outlines pool f' o := by
  have hvalue := h.elements.pick_eq (.attr .constantValue) fun ha =>
    MemberElement.fieldKind?_attr (Attribute.kind?_of_constantIndex? ha) (by decide)
  cases ho with
  | intro htakes hflags =>
    have hshared := htakes.shared.rearranged h.elements (fun _ => rfl) fun kind hmem ha =>
      MemberElement.fieldKind?_attr ha (AttributeKind.mem_ofField_of_shared kind hmem)
    rw [h.name, h.descriptor]
    exact .intro ⟨hshared, h.name ▸ hvalue ▸ htakes.value⟩ hflags

/-- A method. -/
theorem MethodOutline.Outlines.rearranged {m m' : Member} {o : MethodOutline}
    (ho : Outlines pool m o) (h : m.Rearranged MemberElement.methodKind? m') :
    Outlines pool m' o := by
  have hexceptions := h.elements.attributes.flatMap_eq (.attr .exceptions) (fun ha =>
    MemberElement.methodKind?_attr (Attribute.kind?_of_exceptionNames ha) (by decide))
      fun ha => congrArg _ ha
  have hparameterAnnots := h.elements.pick_eq (.attr (.parameterAnnots .visible)) fun ha => by
    obtain ⟨v, hv⟩ := Attribute.kind?_of_parameterAnnots? ha
    exact MemberElement.methodKind?_attr hv (by cases v <;> decide)
  have hparameters := h.elements.pick_eq (.attr .methodParameters) fun ha =>
    MemberElement.methodKind?_attr (Attribute.kind?_of_parameters? ha) (by decide)
  have hdefault := h.elements.pick_eq (.attr .annotDefault) fun ha =>
    MemberElement.methodKind?_attr (Attribute.kind?_of_default? ha) (by decide)
  cases ho with
  | intro htakes hflags =>
    have hshared := htakes.shared.rearranged h.elements (fun _ => rfl) fun kind hmem ha => by
      obtain ⟨hmem, hkind⟩ := AttributeKind.mem_ofMethod_of_shared kind hmem
      rw [MemberElement.methodKind?_attr ha hmem, hkind]
    rw [h.name, h.descriptor]
    exact .intro ⟨hshared, hexceptions ▸ htakes.exceptions,
      hparameterAnnots ▸ htakes.parameterAnnots, hparameters ▸ htakes.parameterNames,
      hdefault ▸ htakes.default⟩ hflags

end

/-! ### Classes -/

section

variable {stream stream' : List Element}

/-- A view that sees neither fields nor methods, and picks elements of one kind only. -/
theorem Element.Rearranged.pick_eq (h : Element.Rearranged stream stream') (kind : Element.Kind)
    {β : Type} {pick : Element → Option β}
    (hkind : ∀ {e b}, pick e = some b → e.kind? = some kind)
    (hfield : ∀ f, pick (.field f) = none) (hmethod : ∀ m, pick (.method m) = none) :
    stream.filterMap pick = stream'.filterMap pick :=
  h.filterMap_eq kind hkind fun ha => ha.view_eq (fun f f' => (hfield f).trans (hfield f').symm)
    fun m m' => (hmethod m).trans (hmethod m').symm

/-- A view that picks attributes of one kind only. -/
theorem Element.Rearranged.pick_attr_eq (h : Element.Rearranged stream stream')
    (kind : AttributeKind) (hmem : kind ∈ AttributeKind.ofClass) {β : Type}
    {pick : Attribute → Option β} (hkind : ∀ {a b}, pick a = some b → a.kind? = some kind) :
    (stream.filterMap Element.attr?).filterMap pick =
      (stream'.filterMap Element.attr?).filterMap pick := by
  rw [List.filterMap_filterMap, List.filterMap_filterMap]
  refine h.pick_eq (.part (.attr kind)) (fun {e b} he => ?_) (fun _ => rfl) fun _ => rfl
  cases e with
  | attr a => exact Element.kind?_attr (hkind he) hmem
  | _ => nomatch he

theorem HeaderParts.Takes.rearranged {p p' : HeaderParts} (ht : Takes stream p p')
    (h : Element.Rearranged stream stream') : Takes stream' p p' := by
  have hflags : stream.filterMap Element.flags? = stream'.filterMap Element.flags? :=
    h.pick_eq (.part .flags) (fun {e _} he => by
      cases e with
      | flags _ => rfl
      | _ => nomatch he) (fun _ => rfl) fun _ => rfl
  have hsuper : stream.filterMap Element.superName? = stream'.filterMap Element.superName? :=
    h.pick_eq (.part .superclass) (fun {e _} he => by
      cases e with
      | superclass _ => rfl
      | _ => nomatch he) (fun _ => rfl) fun _ => rfl
  have hinterfaces :
      stream.filterMap Element.interfaceNames? = stream'.filterMap Element.interfaceNames? :=
    h.pick_eq (.part .interfaces) (fun {e _} he => by
      cases e with
      | interfaces _ => rfl
      | _ => nomatch he) (fun _ => rfl) fun _ => rfl
  have hsignature := h.pick_attr_eq .signature (by decide) Attribute.kind?_of_signature?
  have hvisible := h.pick_attr_eq (.annots .visible) (by decide) Attribute.kind?_of_annots?
  have hinvisible := h.pick_attr_eq (.annots .invisible) (by decide) Attribute.kind?_of_annots?
  exact ⟨hflags ▸ ht.flags, hsuper ▸ ht.superName, hinterfaces ▸ ht.interfaces,
    hsignature ▸ ht.signature, hvisible ▸ ht.visible, hinvisible ▸ ht.invisible⟩

theorem Element.Rearranged.methods (h : Element.Rearranged stream stream') :
    List.Forall₂ (Member.Rearranged MemberElement.methodKind?) (stream.filterMap Element.method?)
      (stream'.filterMap Element.method?) := by
  refine h.filterMap .method (fun {e m} he => ?_) fun {e e'} he => ?_
  · cases e with
    | method _ => rfl
    | _ => nomatch he
  · cases he with
    | refl => exact option_rel_refl (.refl _) e.method?
    | field _ => exact .none
    | method hm =>
      rw [Element.method?, Element.method?, ← hm.name]
      split
      · exact .none
      · exact .some hm

theorem Element.Rearranged.fields (h : Element.Rearranged stream stream') :
    List.Forall₂ (Member.Rearranged MemberElement.fieldKind?) (stream.filterMap Element.field?)
      (stream'.filterMap Element.field?) := by
  refine h.filterMap .field (fun {e m} he => ?_) fun {e e'} he => ?_
  · cases e with
    | field _ => rfl
    | _ => nomatch he
  · cases he with
    | refl => exact option_rel_refl (.refl _) e.field?
    | field hf => exact .some hf
    | method _ => exact .none

theorem Element.Rearranged.permitted (h : Element.Rearranged stream stream') :
    stream.flatMap Element.permitted = stream'.flatMap Element.permitted := by
  refine h.flatMap_eq (.part (.attr .permittedSubclasses)) (fun {e} he => ?_) fun he =>
    he.view_eq (fun _ _ => rfl) fun _ _ => rfl
  cases e with
  | attr a =>
    cases a with
    | permittedSubclasses _ => rfl
    | _ => exact absurd rfl he
  | _ => exact absurd rfl he

theorem Element.Rearranged.components (h : Element.Rearranged stream stream') :
    stream.flatMap Element.components = stream'.flatMap Element.components := by
  refine h.flatMap_eq (.part (.attr .record)) (fun {e} he => ?_) fun he =>
    he.view_eq (fun _ _ => rfl) fun _ _ => rfl
  cases e with
  | attr a =>
    cases a with
    | record _ => rfl
    | _ => exact absurd rfl he
  | _ => exact absurd rfl he

theorem Element.Rearranged.innerClasses (h : Element.Rearranged stream stream') :
    stream.flatMap Element.innerClasses = stream'.flatMap Element.innerClasses := by
  refine h.flatMap_eq (.part (.attr .innerClasses)) (fun {e} he => ?_) fun he =>
    he.view_eq (fun _ _ => rfl) fun _ _ => rfl
  cases e with
  | attr a =>
    cases a with
    | innerClasses _ => rfl
    | _ => exact absurd rfl he
  | _ => exact absurd rfl he

end

/-- What is found for the items of a list is found for items that are related to them. -/
theorem forall₂_of_related {α β : Type} {R : α → α → Prop} {S : α → β → Prop} {as as' : List α}
    {bs : List β} (h : List.Forall₂ R as as') (hbs : List.Forall₂ S as bs)
    (hstep : ∀ {a a' b}, S a b → R a a' → S a' b) : List.Forall₂ S as' bs := by
  induction h generalizing bs with
  | nil => exact hbs
  | cons ha _ ih =>
    cases hbs with
    | cons hb hbs => exact .cons (hstep hb ha) (ih hbs)

namespace ClassOutline

variable {name : String} {stream stream' : List Element} {c : ClassOutline}

/-- A class. -/
theorem Outlines.rearranged (hc : Outlines name pool stream c)
    (h : Element.Rearranged stream stream') : Outlines name pool stream' c := by
  cases hc with
  | intro hheader hflags hmethods hfields hvisible hinvisible hcomponents =>
    rw [h.permitted, h.innerClasses]
    exact .intro (hheader.rearranged h) hflags
      (forall₂_of_related h.methods hmethods MethodOutline.Outlines.rearranged)
      (forall₂_of_related h.fields hfields FieldOutline.Outlines.rearranged)
      hvisible hinvisible (h.components ▸ hcomponents)

/-- What an outline lists of the attributes of a stream.  Repeated attributes are put together in
the order of the stream; of the annotations, the visible ones come first. -/
structure Collects (pool : Pool) (stream : List Element) (c : ClassOutline) : Prop where
  annots : ∃ visible invisible,
    Annot.outlineAll pool
      ((stream.filterMap Element.attr?).filterMap (Attribute.annots? .visible)).flatten =
        .ok visible ∧
    Annot.outlineAll pool
      ((stream.filterMap Element.attr?).filterMap (Attribute.annots? .invisible)).flatten =
        .ok invisible ∧
    c.annots = visible ++ invisible
  permittedSubclasses : c.permittedSubclasses =
    ((stream.filterMap Element.attr?).flatMap Attribute.permittedNames).map ClassName.qualified
  components : (((stream.filterMap Element.attr?).flatMap Attribute.recordComponents).mapM
    (ComponentOutline.ofComponent pool)).result = .ok c.components
  innerFlags : ∀ flags, c.innerFlags = some flags ↔
    InnerClass.Declares ((stream.filterMap Element.attr?).flatMap Attribute.nestedRows) c.name flags

end ClassOutline

/-- The annotations in a place of a class, read off its stream. -/
theorem Annot.OutlinedOptional.of_takesOnce {place : Option (List Annot)}
    {attributes : List (List Annot)} {os : List AnnotOutline} (h : OutlinedOptional pool place os)
    (hplace : TakesOnce Eq none attributes place) :
    Annot.outlineAll pool attributes.flatten = .ok os := by
  rw [← takesOnce_eq_iff.mp hplace]
  cases place with
  | none => exact h
  | some as =>
    rw [Option.toList_some, List.flatten_singleton]
    exact h

namespace ClassOutline

variable {name : String} {stream : List Element} {c : ClassOutline}

theorem Outlines.collects (h : Outlines name pool stream c) : c.Collects pool stream := by
  cases h with
  | intro hheader _ _ _ hvisible hinvisible hcomponents =>
    exact {
      annots := ⟨_, _, hvisible.of_takesOnce hheader.visible,
        hinvisible.of_takesOnce hheader.invisible, rfl⟩
      permittedSubclasses := Element.flatMap_permitted stream
      components := by
        rw [← Element.flatMap_components]
        exact (Logged.result_mapM_eq_ok_iff ComponentOutline.result_ofComponent_eq_ok_iff).mpr
          hcomponents
      innerFlags := fun flags => by
        rw [← Element.flatMap_innerClasses]
        exact InnerClass.flagsOf?_eq_some_iff }

/-- **Only the order within each kind matters.**  Of two rearranged streams, both have an outline or
neither has, and the outlines are equal; so it is for a field and for a method by itself.  An
outline lists what the attributes of its stream say in the order of the stream, but the visible
annotations in front of the invisible ones. -/
theorem result_ofElements_rearranged (name : String) (pool : Pool) :
    (∀ stream stream', Element.Rearranged stream stream' → ∀ c,
      (ofElements name pool stream').result = .ok c ↔
        (ofElements name pool stream).result = .ok c) ∧
    (∀ stream c, (ofElements name pool stream).result = .ok c → c.Collects pool stream) ∧
    (∀ f f' : Member, f.Rearranged MemberElement.fieldKind? f' → ∀ o,
      (FieldOutline.ofMember pool f').result = .ok o ↔
        (FieldOutline.ofMember pool f).result = .ok o) ∧
    ∀ m m' : Member, m.Rearranged MemberElement.methodKind? m' → ∀ o,
      (MethodOutline.ofMember pool m').result = .ok o ↔
        (MethodOutline.ofMember pool m).result = .ok o := by
  simp only [result_ofElements_eq_ok_iff, FieldOutline.result_ofMember_eq_ok_iff,
    MethodOutline.result_ofMember_eq_ok_iff]
  refine ⟨fun stream stream' h c => and_congr_right fun _ => ⟨fun hc => ?_, fun hc => ?_⟩,
    fun stream c hc => hc.2.collects, fun f f' h o => ⟨fun ho => ?_, fun ho => ?_⟩,
    fun m m' h o => ⟨fun ho => ?_, fun ho => ?_⟩⟩
  · exact hc.rearranged (h.symm Element.Alike.symm)
  · exact hc.rearranged h
  · exact ho.rearranged h.symm
  · exact ho.rearranged h
  · exact ho.rearranged h.symm
  · exact ho.rearranged h

end ClassOutline

/-- A field of the given elements. -/
def Member.side (elements : List MemberElement) : Member := ⟨"side", "I", elements⟩

/-- A method of the given elements. -/
def Member.area (elements : List MemberElement) : Member := ⟨"area", "()D", elements⟩

/-- The stream of a small class. -/
def Element.markedStream : List Element :=
  [.field (.side [.flags ⟨0x0002⟩, .attr (.signature "TT;")]),
    .method (.area [.flags ⟨0x0001⟩, .attr (.exceptions ["p/Bad"])]),
    .flags ⟨0x0001⟩, .superclass "java/lang/Object",
    .attr (.annots .visible [⟨"Lp/Mark;", []⟩]), .attr (.annots .invisible [⟨"Lp/Hidden;", []⟩])]

/-- The same elements in another order, also inside the field and the method. -/
def Element.rearrangedStream : List Element :=
  [.method (.area [.attr (.exceptions ["p/Bad"]), .flags ⟨0x0001⟩]),
    .field (.side [.attr (.signature "TT;"), .flags ⟨0x0002⟩]),
    .superclass "java/lang/Object", .flags ⟨0x0001⟩,
    .attr (.annots .invisible [⟨"Lp/Hidden;", []⟩]), .attr (.annots .visible [⟨"Lp/Mark;", []⟩])]

theorem ClassOutline.result_ofElements_rearranged_marked :
    Element.Rearranged Element.markedStream Element.rearrangedStream ∧
      (∃ c : ClassOutline, c.annots = [⟨"Lp/Mark;", []⟩, ⟨"Lp/Hidden;", []⟩] ∧
        (ofElements "p.Shape" .empty Element.rearrangedStream).result = .ok c ∧
        c.Collects .empty Element.rearrangedStream) ∧
      (∃ o, (FieldOutline.ofMember .empty
        (.side [.attr (.signature "TT;"), .flags ⟨0x0002⟩])).result = .ok o) ∧
      ∃ o, (MethodOutline.ofMember .empty
        (.area [.attr (.exceptions ["p/Bad"]), .flags ⟨0x0001⟩])).result = .ok o := by
  have hfield : Member.Rearranged MemberElement.fieldKind?
      (.side [.flags ⟨0x0002⟩, .attr (.signature "TT;")])
      (.side [.attr (.signature "TT;"), .flags ⟨0x0002⟩]) :=
    ⟨rfl, rfl, .swap rfl rfl rfl rfl (by decide) (.refl (fun _ => rfl) [])⟩
  have hmethod : Member.Rearranged MemberElement.methodKind?
      (.area [.flags ⟨0x0001⟩, .attr (.exceptions ["p/Bad"])])
      (.area [.attr (.exceptions ["p/Bad"]), .flags ⟨0x0001⟩]) :=
    ⟨rfl, rfl, .swap rfl rfl rfl rfl (by decide) (.refl (fun _ => rfl) [])⟩
  have hrearranged : Element.Rearranged Element.markedStream Element.rearrangedStream :=
    .swap (.field hfield) (.method hmethod) rfl rfl (by decide)
      (.swap (.refl _) (.refl _) rfl rfl (by decide)
        (.swap (.refl _) (.refl _) rfl rfl (by decide) (.refl .refl [])))
  obtain ⟨hclass, hcollects, hfields, hmethods⟩ := result_ofElements_rearranged "p.Shape" .empty
  have hmarked := (hclass _ _ hrearranged _).mpr rfl
  exact ⟨hrearranged, ⟨_, rfl, hmarked, hcollects _ _ hmarked⟩,
    ⟨_, (hfields _ _ hfield _).mpr rfl⟩, ⟨_, (hmethods _ _ hmethod _).mpr rfl⟩⟩

end JvmOutline
