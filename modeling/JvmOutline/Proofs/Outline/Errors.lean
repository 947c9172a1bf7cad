import JvmOutline.Assembly.Assembler
import JvmOutline.Proofs.Outline.Success

/-!
# How outlining fails

**Outlining bytes fails in few ways** (`ClassOutline.errors_ofBytes`).  Once a class file has a
stream, its class has no outline only if it has no name, if an attribute is repeated, if a field has
a constant of the wrong kind, or if the index of a constant leads nowhere or to an entry of the
wrong kind (`OutlineError.OfDeclaration`).

Two facts about the stream exclude all else.  It holds the flags of each declaration, the superclass
and the interfaces once (`ClassFile.Streams.single`), so those are neither missing nor repeated; and
each constant in it has a known tag, so a tag that has no meaning is found by the reader or not at
all.

A fold over the parts of a declaration fails at one part, and what the places hold by then is known
from the parts in front of it.
-/

namespace JvmOutline

open FormatError (Lookup)

open ElementValue (tagChar constTags)

variable {pool : Pool}

/-! ### The errors of declarations -/

/-- The kinds of attributes that a declaration has at most once. -/
def AttributeKind.once : List AttributeKind :=
  [signature, annots .visible, annots .invisible, annotDefault, constantValue]

/-- The errors of outlining declarations whose flags are there once and whose tags are known. -/
inductive OutlineError.OfDeclaration : OutlineError → Prop where
  | repeated {kind : AttributeKind} (scope : Scope) : kind ∈ AttributeKind.once →
      OfDeclaration (.repeated (.attr kind) scope)
  | constantKind (field : String) (found : EntryKind) : OfDeclaration (.constantKind field found)
  | lookup {e : FormatError} : Lookup e → OfDeclaration (.format e)

open OutlineError (OfDeclaration)

/-- The constants have tags of numbers and texts. -/
def ElementValue.KnownTags (constants : List (UInt8 × UInt16)) : Prop :=
  ∀ c ∈ constants, tagChar c.1 ∈ constTags

open ElementValue (KnownTags)

theorem ElementValue.KnownTags.of_mem {α : Type} {as : List α} {f : α → List (UInt8 × UInt16)}
    (h : KnownTags (as.flatMap f)) {a : α} (ha : a ∈ as) : KnownTags (f a) :=
  List.forall_mem_flatMap.mp h a ha

theorem failsIn_outlined {α : Type} {x : Except FormatError α} (h : FailsIn Lookup x) :
    FailsIn OfDeclaration (outlined x) := by
  cases x with
  | error e =>
    have hlookup : Lookup e := h
    cases hlookup with
    | noEntry index => exact .lookup (.noEntry index)
    | wrongEntry expected found => exact .lookup (.wrongEntry expected found)
  | ok a => trivial

theorem Part.failsIn_once {α : Type} {kind : AttributeKind} (hkind : kind ∈ AttributeKind.once)
    (scope : Scope) (place : Option α) (a : α) :
    FailsIn OfDeclaration ((Part.attr kind).once scope place a) := by
  cases place with
  | none => trivial
  | some b => exact .repeated scope hkind

/-! ### Values -/

/-- A constant whose tag is known is outlined unless its index is wrong. -/
theorem AnnotValue.failsIn_ofConst {tag : UInt8} (htag : tagChar tag ∈ constTags)
    (index : UInt16) : FailsIn OfDeclaration (ofConst pool tag index) := by
  rw [← failsIn_verdict, verdict_ofConst]
  obtain ⟨kind, hkind⟩ : ∃ kind, ElementValue.entryKind? tag = some kind := by
    unfold ElementValue.entryKind?
    generalize tagChar tag = c at htag
    simp only [constTags, List.mem_cons, List.not_mem_nil, or_false] at htag
    rcases htag with rfl | rfl | rfl | rfl | rfl | rfl | rfl | rfl | rfl <;> exact ⟨_, rfl⟩
  rw [hkind]
  exact failsIn_outlined (Pool.failsIn_expect pool index ..)

theorem ElementValue.failsIn_outline {v : ElementValue} (h : KnownTags v.constants) :
    FailsIn OfDeclaration (v.outline pool) := by
  rw [← failsIn_verdict, verdict_outline]
  exact .forM fun c hc => failsIn_verdict.mpr (AnnotValue.failsIn_ofConst (h c hc) c.2)

theorem Annot.failsIn_outlineAll {as : List Annot} (h : KnownTags (as.flatMap constants)) :
    FailsIn OfDeclaration (outlineAll pool as) := by
  rw [← failsIn_verdict, verdict_outlineAll]
  exact .forM fun c hc => failsIn_verdict.mpr (AnnotValue.failsIn_ofConst (h c hc) c.2)

theorem TypeAnnot.failsIn_outlineAll {as : List TypeAnnot}
    (h : KnownTags (as.flatMap fun a => a.annot.constants)) :
    FailsIn OfDeclaration (outlineAll pool as) :=
  Annot.failsIn_outlineAll (by rwa [List.flatMap_map])

/-- A field has no constant if the index of one leads to an entry of the wrong kind. -/
theorem ConstantValue.failsIn_ofPool (field : String) (index : UInt16) :
    FailsIn OfDeclaration (ofPool pool field index) := by
  refine (failsIn_outlined (Pool.failsIn_entry pool index)).bind fun e _ => ?_
  cases e with
  | integer | long | float | double => trivial
  | string text =>
    exact (failsIn_outlined (Pool.failsIn_expect pool text ..)).bind_pure _
  | _ => exact .constantKind field _

/-! ### Folds over parts -/

/-- A fold fails only as its steps fail after the parts in front of them. -/
theorem Logged.failsIn_foldlM {α β : Type} {E : OutlineError → Prop} {f : β → α → Logged β}
    {as : List α} {b : β} (h : ∀ front a back b', as = front ++ a :: back →
      (front.foldlM f b).result = .ok b' → FailsIn E (f b' a).result) :
    FailsIn E (as.foldlM f b).result := by
  rw [result_foldlM, failsIn_iff]
  intro e he
  obtain ⟨front, a, back, b', hsplit, hfront, hstep⟩ := foldlM_eq_error_iff.mp he
  rw [← result_foldlM] at hfront
  exact failsIn_iff.mp (h front a back b' hsplit hfront) e hstep

/-- In front of the only part of a kind there is none. -/
theorem AtMostOne.filterMap_eq_nil {α β : Type} {pick : α → Option β} {front back : List α} {a : α}
    {b : β} (h : AtMostOne pick (front ++ a :: back)) (ha : pick a = some b) :
    front.filterMap pick = [] := by
  rw [AtMostOne, List.filterMap_append, List.filterMap_cons_some ha, List.length_append,
    List.length_cons] at h
  exact List.eq_nil_of_length_eq_zero (by omega)

/-- The place of a part that occurs once is empty when the part is met. -/
theorem TakesOnce.eq_none {α β : Type} {pick : α → Option β} {front back : List α} {a : α} {b : β}
    {place : Option β} (h : TakesOnce Eq none (front.filterMap pick) place)
    (hone : AtMostOne pick (front ++ a :: back)) (ha : pick a = some b) : place = none := by
  rwa [hone.filterMap_eq_nil ha] at h

/-- The place of a part that occurs is filled in the end. -/
theorem TakesOnce.exists_eq_some {α β : Type} {pick : α → Option β} {as : List α}
    {place : Option β} (h : TakesOnce Eq none (as.filterMap pick) place)
    (hone : ExactlyOne pick as) : ∃ b, place = some b := by
  obtain ⟨b, hb⟩ := List.length_eq_one_iff.mp hone
  exact ⟨b, Option.toList_eq_singleton_iff.mp ((takesOnce_eq_iff.mp h).trans hb)⟩

theorem ExactlyOne.atMostOne {α β : Type} {pick : α → Option β} {as : List α}
    (h : ExactlyOne pick as) : AtMostOne pick as := Nat.le_of_eq h

namespace SharedParts

variable {p : SharedParts} {scope : Scope}

theorem failsIn_putFlags {E : OutlineError → Prop} (hp : p.flags = none) (flags : AccessFlags) :
    FailsIn E (p.putFlags scope flags) := by
  rw [putFlags, hp]
  trivial

theorem failsIn_putSignature (text : String) :
    FailsIn OfDeclaration (p.putSignature scope text) :=
  (Part.failsIn_once (by decide) scope p.signature text).bind_pure _

theorem failsIn_putAnnots (v : Visibility) (as : List AnnotOutline) :
    FailsIn OfDeclaration (p.putAnnots scope v as) := by
  cases v with
  | visible => exact (Part.failsIn_once (by decide) scope p.visible as).bind_pure _
  | invisible =>
    exact (Part.failsIn_once (by decide) scope p.invisible as).bind_pure _

end SharedParts

/-! ### Fields, methods and record components -/

theorem Member.knownTags_of_mem {m : Member} (h : KnownTags m.constants) {a : Attribute}
    (ha : .attr a ∈ m.elements) : KnownTags a.constants :=
  KnownTags.of_mem h ha

/-- Of the flags of a field or method there is one in the end, and no second one is met. -/
theorem Member.ends_foldlM {P : Type} {accept : P → MemberElement → Logged P} {start : P}
    {shared : P → SharedParts} {m : Member}
    (hflags : ExactlyOne MemberElement.flags? m.elements)
    (htakes : ∀ {stream p}, (stream.foldlM accept start).result = .ok p →
      SharedParts.Takes pool stream .empty (shared p))
    (hput : ∀ p flags, (shared p).flags = none →
      FailsIn OfDeclaration (accept p (.flags flags)).result)
    (hattr : ∀ p a, .attr a ∈ m.elements → FailsIn OfDeclaration (accept p (.attr a)).result) :
    Ends (fun p => ∃ flags, (shared p).flags = some flags) OfDeclaration
      (m.elements.foldlM accept start).result := by
  refine FailsIn.ends ?_ fun p hp => (htakes hp).flags.exists_eq_some hflags
  refine Logged.failsIn_foldlM fun front e back p hsplit hp => ?_
  cases e with
  | flags flags =>
    -- These are the only flags, so none have been met before.
    exact hput p flags ((htakes hp).flags.eq_none (hsplit ▸ hflags.atMostOne) rfl)
  | attr a => exact hattr p a (hsplit ▸ List.mem_append_cons_self)

theorem FieldParts.failsIn_accept {p : FieldParts} {field : String} {a : Attribute}
    (ha : KnownTags a.constants) :
    FailsIn OfDeclaration (p.accept pool field (.attr a)).result := by
  cases a with
  | signature text => exact (SharedParts.failsIn_putSignature text).bind_pure _
  | constantValue index =>
    exact (ConstantValue.failsIn_ofPool field index).bind fun value _ =>
      (Part.failsIn_once (by decide) _ p.value value).bind_pure _
  | annots v as =>
    exact (Annot.failsIn_outlineAll ha).bind fun bs _ =>
      (SharedParts.failsIn_putAnnots v bs).bind_pure _
  | _ => trivial

theorem FieldOutline.failsIn_ofMember {f : Member}
    (hflags : ExactlyOne MemberElement.flags? f.elements) (htags : KnownTags f.constants) :
    FailsIn OfDeclaration (ofMember pool f).result := by
  have hfold : Ends (fun p => ∃ flags, p.shared.flags = some flags) OfDeclaration
      (f.elements.foldlM (FieldParts.accept pool f.name) ⟨.empty, none⟩).result :=
    Member.ends_foldlM hflags (fun hp => (FieldParts.foldlM_eq_ok_iff.mp hp).shared)
      (fun _ flags hp => (SharedParts.failsIn_putFlags hp flags).bind_pure _)
      fun _ _ ha => FieldParts.failsIn_accept (Member.knownTags_of_mem htags ha)
  rw [ofMember, Logged.result_bind]
  refine hfold.bind fun p hp => ?_
  obtain ⟨flags, hsome⟩ := hp
  rw [hsome]
  trivial

theorem ParameterAnnots.failsIn_outline {map : Option ParameterAnnots} {position : Nat}
    {lists : List (List Annot)} (h : KnownTags (lists.flatten.flatMap Annot.constants)) :
    FailsIn OfDeclaration (outline pool map position lists) := by
  induction lists generalizing map position with
  | nil => trivial
  | cons as lists ih =>
    rw [List.flatten_cons, List.flatMap_append, KnownTags, List.forall_mem_append] at h
    cases as with
    | nil => exact ih h.2
    | cons a as =>
      rw [outline]
      · exact (Annot.failsIn_outlineAll h.1).bind fun _ _ => ih h.2
      · exact List.cons_ne_nil a as

theorem MethodParts.failsIn_accept {p : MethodParts} {scope : Scope} {a : Attribute}
    (ha : KnownTags a.constants) :
    FailsIn OfDeclaration (p.accept pool scope (.attr a)).result := by
  cases a with
  | signature text => exact (SharedParts.failsIn_putSignature text).bind_pure _
  | annots v as =>
    exact (Annot.failsIn_outlineAll ha).bind fun bs _ =>
      (SharedParts.failsIn_putAnnots v bs).bind_pure _
  | parameterAnnots v lists =>
    exact (ParameterAnnots.failsIn_outline ha).bind_pure _
  | annotDefault value =>
    exact (ElementValue.failsIn_outline ha).bind fun d _ =>
      (Part.failsIn_once (by decide) scope p.default d).bind_pure _
  | _ => trivial

theorem MethodOutline.failsIn_ofMember {m : Member}
    (hflags : ExactlyOne MemberElement.flags? m.elements) (htags : KnownTags m.constants) :
    FailsIn OfDeclaration (ofMember pool m).result := by
  have hfold : Ends (fun p => ∃ flags, p.shared.flags = some flags) OfDeclaration
      (m.elements.foldlM (MethodParts.accept pool (.method m.name m.descriptor))
        ⟨.empty, [], none, none, none⟩).result :=
    Member.ends_foldlM hflags (fun hp => (MethodParts.foldlM_eq_ok_iff.mp hp).shared)
      (fun _ flags hp => (SharedParts.failsIn_putFlags hp flags).bind_pure _)
      fun _ _ ha => MethodParts.failsIn_accept (Member.knownTags_of_mem htags ha)
  rw [ofMember, Logged.result_bind]
  refine hfold.bind fun p hp => ?_
  obtain ⟨flags, hsome⟩ := hp
  rw [hsome]
  trivial

theorem ComponentParts.failsIn_accept {p : ComponentParts} {scope : Scope} {a : Attribute}
    (ha : KnownTags a.constants) : FailsIn OfDeclaration (p.accept pool scope a).result := by
  cases a with
  | signature text =>
    exact (Part.failsIn_once (by decide) scope p.signature text).bind_pure _
  | annots v as => exact (Annot.failsIn_outlineAll ha).bind_pure _
  | typeAnnots v as => exact (TypeAnnot.failsIn_outlineAll ha).bind_pure _
  | _ => trivial

theorem ComponentOutline.failsIn_ofComponent {c : Component} (htags : KnownTags c.constants) :
    FailsIn OfDeclaration (ofComponent pool c).result := by
  have hfold : FailsIn OfDeclaration (c.attributes.foldlM
      (ComponentParts.accept pool (.component c.name)) ⟨none, none, none⟩).result :=
    Logged.failsIn_foldlM fun front a back p hsplit _ =>
      ComponentParts.failsIn_accept (htags.of_mem (hsplit ▸ List.mem_append_cons_self))
  rw [ofComponent, Logged.result_bind]
  exact hfold.bind_pure _

/-! ### Classes -/

/-- What a class file holds once occurs once in the stream: the flags of each declaration, the
superclass and the interfaces. -/
structure Element.Single (stream : List Element) : Prop where
  flags : ExactlyOne flags? stream
  superclass : AtMostOne superName? stream
  interfaces : AtMostOne interfaceNames? stream
  fields : ∀ f, .field f ∈ stream → ExactlyOne MemberElement.flags? f.elements
  methods : ∀ m, .method m ∈ stream → ExactlyOne MemberElement.flags? m.elements

theorem RawMember.Resolves.exactlyOne_flags {m : RawMember} {r : Member} (h : m.Resolves pool r) :
    ExactlyOne MemberElement.flags? r.elements := by
  cases h with
  | intro => simp [ExactlyOne, MemberElement.flags?, List.filterMap_map, Function.comp_def]

/-- **Once.**  The stream of a class file has no part twice that a class file holds once. -/
theorem ClassFile.Streams.single {file : ClassFile} {stream : List Element}
    (h : file.Streams stream) : Element.Single stream := by
  cases h with
  | @intro superName interfaces fields methods attributes hsuper hi hf hm ha =>
    refine ⟨?_, ?_, ?_, fun f hmem => ?_, fun m hmem => ?_⟩
    · rw [ExactlyOne, Element.filterMap_stream]
      simp [Function.comp_def, Element.flags?]
    · rw [AtMostOne, Element.filterMap_stream]
      cases superName <;> simp [Function.comp_def, Element.superName?]
    · rw [AtMostOne, Element.filterMap_stream]
      simp [Function.comp_def, Element.interfaceNames?]
    · have hmem : f ∈ fields := by simpa using hmem
      obtain ⟨_, -, hr⟩ := exists_mem_of_forall₂ hf hmem
      exact hr.exactlyOne_flags
    · have hmem : m ∈ methods := by simpa using hmem
      obtain ⟨_, -, hr⟩ := exists_mem_of_forall₂ hm hmem
      exact hr.exactlyOne_flags

namespace HeaderParts

variable {stream : List Element}

theorem failsIn_acceptAttribute {p : HeaderParts} {scope : Scope} {a : Attribute} :
    FailsIn OfDeclaration (p.acceptAttribute scope a).result := by
  cases a with
  | signature text =>
    exact (Part.failsIn_once (by decide) scope p.signature text).bind_pure _
  | annots v as =>
    cases v with
    | visible => exact (Part.failsIn_once (by decide) scope p.visible as).bind_pure _
    | invisible =>
      exact (Part.failsIn_once (by decide) scope p.invisible as).bind_pure _
  | _ => trivial

theorem failsIn_foldlM (h : Element.Single stream) (scope : Scope) :
    FailsIn OfDeclaration (stream.foldlM (accept scope) .empty).result := by
  have hempty {α β : Type} {part : Part} {place : Option α} (hplace : place = none) (a : α)
      (f : Option α → β) :
      FailsIn OfDeclaration (do return f (← part.once scope place a)) := by
    rw [hplace]
    trivial
  refine Logged.failsIn_foldlM fun front e back p hsplit hp => ?_
  -- The parts in front say what is known by now, and of a part that occurs once there is none.
  have htakes := foldlM_eq_ok_iff.mp hp
  cases e with
  | flags flags => exact hempty (htakes.flags.eq_none (hsplit ▸ h.flags.atMostOne) rfl) flags _
  | superclass name => exact hempty (htakes.superName.eq_none (hsplit ▸ h.superclass) rfl) _ _
  | interfaces names => exact hempty (htakes.interfaces.eq_none (hsplit ▸ h.interfaces) rfl) _ _
  | field f => trivial
  | method m =>
    rw [accept]
    split <;> trivial
  | attr a => exact failsIn_acceptAttribute

/-- The annotations of a class are those of attributes of its stream. -/
theorem Takes.knownTags {p : HeaderParts} (h : Takes stream .empty p)
    (htags : ∀ e ∈ stream, KnownTags e.constants) :
    (∀ as ∈ p.visible, KnownTags (as.flatMap Annot.constants)) ∧
      ∀ as ∈ p.invisible, KnownTags (as.flatMap Annot.constants) := by
  have hplace {v : Visibility} {place : Option (List Annot)}
      (hplace : TakesOnce Eq none
        ((stream.filterMap Element.attr?).filterMap (Attribute.annots? v)) place) :
      ∀ as ∈ place, KnownTags (as.flatMap Annot.constants) := by
    intro as has
    obtain ⟨_, hmem, rfl⟩ := hplace.exists_of_mem has
    exact htags _ (Element.annots_mem_of_mem_filterMap hmem)
  exact ⟨hplace h.visible, hplace h.invisible⟩

end HeaderParts

theorem Annot.failsIn_outlineOptional {as : Option (List Annot)}
    (h : ∀ list ∈ as, KnownTags (list.flatMap constants)) :
    FailsIn OfDeclaration (outlineOptional pool as) := by
  cases as with
  | none => trivial
  | some as => exact failsIn_outlineAll (h as rfl)

theorem Element.knownTags_components {e : Element} (h : KnownTags e.constants) :
    ∀ c ∈ e.components, KnownTags c.constants := by
  intro c hc
  cases e with
  | attr a =>
    cases a with
    | record components =>
      rw [Element.constants, Attribute.constants_record] at h
      exact h.of_mem hc
    | _ => nomatch hc
  | _ => nomatch hc

theorem Logged.failsIn_mapM {α β : Type} {E : OutlineError → Prop} {f : α → Logged β} {as : List α}
    (h : ∀ a ∈ as, FailsIn E (f a).result) : FailsIn E (as.mapM f).result := by
  rw [result_mapM]
  exact FailsIn.mapM h

namespace ClassOutline

variable {stream : List Element}

theorem failsIn_compose (h : Element.Single stream)
    (htags : ∀ e ∈ stream, KnownTags e.constants) (name : String) :
    FailsIn OfDeclaration (compose name pool stream).result := by
  rw [compose, Logged.result_bind]
  refine ((HeaderParts.failsIn_foldlM h _).ends fun p hp =>
    HeaderParts.foldlM_eq_ok_iff.mp hp).bind fun header hheader => ?_
  obtain ⟨flags, hflags⟩ := hheader.flags.exists_eq_some h.flags
  obtain ⟨hvisible, hinvisible⟩ := hheader.knownTags htags
  rw [hflags]
  simp only [Logged.result_bind]
  refine Ends.bind (Q := fun _ => True) trivial fun _ _ => ?_
  refine (Logged.failsIn_mapM fun m hm => ?_).bind fun _ _ => ?_
  · have hm := (Element.mem_methods_iff.mp hm).1
    exact MethodOutline.failsIn_ofMember (h.methods m hm) (htags _ hm)
  refine (Logged.failsIn_mapM fun f hf => ?_).bind fun _ _ => ?_
  · have hf := Element.mem_fields_iff.mp hf
    exact FieldOutline.failsIn_ofMember (h.fields f hf) (htags _ hf)
  refine (Annot.failsIn_outlineOptional hvisible).bind fun _ _ => ?_
  refine (Annot.failsIn_outlineOptional hinvisible).bind fun _ _ => ?_
  refine (Logged.failsIn_mapM fun c hc => ?_).bind_pure _
  obtain ⟨e, he, hc⟩ := List.mem_flatMap.mp hc
  exact ComponentOutline.failsIn_ofComponent (Element.knownTags_components (htags e he) c hc)

/-- The stream of a class file has no outline only if the class has no name, or if a declaration
has none. -/
theorem failsIn_ofElements (h : Element.Single stream)
    (htags : ∀ e ∈ stream, KnownTags e.constants) (name : String) :
    FailsIn (fun e => e = .missing .className .classFile ∧ name = "" ∨ OfDeclaration e)
      (ofElements name pool stream).result := by
  rw [ofElements, Logged.result_bind]
  refine Ends.bind (Q := fun _ => True) trivial fun _ _ => ?_
  split
  · next hname => exact .inl ⟨rfl, hname⟩
  · have hcompose : FailsIn (fun e => e = .missing .className .classFile ∧ name = "" ∨
        OfDeclaration e) (compose name pool stream).result :=
      (failsIn_compose h htags name).mono fun _ => .inr
    rw [Logged.result_bind]
    exact hcompose.bind fun _ _ => trivial

end ClassOutline

/-! ### Bytes -/

/-- Errors that outlining bytes never ends in: that bytes could not be had, that flags are missing,
that a part is repeated which a class file holds once, and that a tag is unknown as an error of the
format. -/
inductive OutlineError.Excluded : OutlineError → Prop where
  | unreadable (reason : String) : Excluded (.unreadable reason)
  | noFlags (scope : Scope) : Excluded (.missing .flags scope)
  | repeated {part : Part} (scope : Scope) : part ∈ [.flags, .superclass, .interfaces] →
      Excluded (.repeated part scope)
  | unknownTag (tag : UInt8) : Excluded (.format (.unknownValueTag tag))

/-- The errors that outlining bytes can end in. -/
inductive OutlineError.OfBytes (bytes : Bytes) : OutlineError → Prop where
  | format {e : FormatError} : (∀ tag, e ≠ .unknownValueTag tag) → OfBytes bytes (.format e)
  | valueTag {file : ClassFile} {tag : UInt8} : ClassFile.parse bytes = .ok file →
      file.elements = .error (.unknownValueTag tag) → tagChar tag ∉ ElementValue.tags →
      OfBytes bytes (.valueTag tag)
  | noName : OfBytes bytes (.missing .className .classFile)
  | declaration {e : OutlineError} : OfDeclaration e → OfBytes bytes e

open OutlineError (OfBytes)

theorem OutlineError.OfDeclaration.not_excluded {e : OutlineError} (h : OfDeclaration e) :
    ¬ e.Excluded := by
  cases h with
  | repeated scope =>
    intro h
    cases h with
    | repeated _ hpart => simp at hpart
  | constantKind => nofun
  | lookup h =>
    cases h <;> nofun

theorem OutlineError.OfBytes.not_excluded {bytes : Bytes} {e : OutlineError}
    (h : OfBytes bytes e) : ¬ e.Excluded := by
  cases h with
  | format hne =>
    intro h
    cases h with
    | unknownTag tag => exact hne tag rfl
  | valueTag | noName => nofun
  | declaration h => exact h.not_excluded

/-- An error that does not call a tag unknown remains an error of the format. -/
theorem OutlineError.ofFormat_eq {e : FormatError} (h : ∀ tag, e ≠ .unknownValueTag tag) :
    ofFormat e = .format e := by
  unfold ofFormat
  split
  · next tag => exact absurd rfl (h tag)
  · rfl

theorem failsIn_outlined_format {bytes : Bytes} {α : Type} {x : Except FormatError α}
    {E : FormatError → Prop} (hx : FailsIn E x) (hE : ∀ tag, ¬ E (.unknownValueTag tag)) :
    FailsIn (OfBytes bytes) (outlined x) := by
  cases x with
  | error e =>
    have hne (tag : UInt8) : e ≠ .unknownValueTag tag := fun h => hE tag (h ▸ hx)
    show OfBytes bytes (OutlineError.ofFormat e)
    rw [OutlineError.ofFormat_eq hne]
    exact .format hne
  | ok a => trivial

namespace ClassOutline

theorem failsIn_ofBytes (bytes : Bytes) : FailsIn (OfBytes bytes) (ofBytes bytes).result := by
  have hstorage (tag : UInt8) : ¬ FormatError.Storage (.unknownValueTag tag) := by
    intro h
    cases h
  have hlookup (tag : UInt8) : ¬ Lookup (.unknownValueTag tag) := by
    intro h
    cases h
  simp only [ofBytes, Logged.result_bind]
  refine ((failsIn_outlined_format (ClassFile.failsIn_parse bytes) hstorage).ends fun _ =>
    outlined_eq_ok_iff.mp).bind fun file hfile => ?_
  refine (failsIn_outlined_format (Pool.failsIn_className file.pool file.thisClass) hlookup).bind
    fun name _ => ?_
  cases hstream : file.elements with
  | error e =>
    have htag := failsIn_iff.mp file.failsIn_elements e hstream
    show OfBytes bytes (OutlineError.ofFormat e)
    -- An unknown tag becomes a cause of its own, and every other error stays one of the format.
    by_cases hunknown : ∃ tag, e = .unknownValueTag tag
    · obtain ⟨tag, rfl⟩ := hunknown
      exact .valueTag hfile hstream htag
    · have hne (tag : UInt8) : e ≠ .unknownValueTag tag := fun h => hunknown ⟨tag, h⟩
      rw [OutlineError.ofFormat_eq hne]
      exact .format hne
  | ok stream =>
    have hs := ClassFile.elements_eq_ok_iff.mp hstream
    refine (failsIn_ofElements hs.single hs.tag_of_mem _).mono fun e he => ?_
    rcases he with ⟨rfl, -⟩ | he
    · exact .noName
    · exact .declaration he

/-- **The errors.**  Outlining bytes never ends in an excluded error, and calls a tag unsupported
only if the class file has no stream because no element value has that tag.  Once there is a stream,
no constant in it has an unsupported tag, and the class has no outline only if it has no name, or if
a declaration has none. -/
theorem errors_ofBytes (bytes : Bytes) :
    (∀ e, (ofBytes bytes).result = .error e → ¬ e.Excluded ∧
      ∀ tag, e = .valueTag tag → ∃ file, ClassFile.parse bytes = .ok file ∧
        file.elements = .error (.unknownValueTag tag) ∧ tagChar tag ∉ ElementValue.tags) ∧
    ∀ file stream, ClassFile.parse bytes = .ok file → file.elements = .ok stream →
      (∀ e ∈ stream, ∀ c ∈ e.constants,
        ∀ tag, AnnotValue.ofConst file.pool c.1 c.2 ≠ .error (.valueTag tag)) ∧
      ∀ name e, (ofElements name file.pool stream).result = .error e →
        e = .missing .className .classFile ∧ name = "" ∨ OfDeclaration e := by
  constructor
  · intro e he
    have hof := failsIn_iff.mp (failsIn_ofBytes bytes) e he
    refine ⟨hof.not_excluded, ?_⟩
    rintro tag rfl
    cases hof with
    | valueTag hparse helements htag => exact ⟨_, hparse, helements, htag⟩
    | declaration h => nomatch h
  · intro file stream _ hstream
    have hs := ClassFile.elements_eq_ok_iff.mp hstream
    refine ⟨fun el hel c hc tag htag => ?_, fun name => ?_⟩
    · nomatch failsIn_iff.mp (AnnotValue.failsIn_ofConst (hs.tag_of_mem el hel c hc) c.2) _ htag
    · exact failsIn_iff.mp (failsIn_ofElements hs.single hs.tag_of_mem name)

end ClassOutline

/-- A class with an annotation value of a tag that means nothing. -/
def ClassDraft.mistagged : ClassDraft :=
  { ofName "p/Shape" with
    attributes := [.visibleAnnots [⟨"Lp/Mark;", [("at", .array [.indexed 0x78 1])]⟩]] }

/-- A class with two signatures. -/
def ClassDraft.doubled : ClassDraft :=
  { ofName "p/Shape" with attributes := [.signature "TT;", .signature "TU;"] }

namespace ClassOutline

theorem errors_ofBytes_samples :
    (∃ file, ClassFile.parse ClassDraft.mistagged.assemble = .ok file ∧
      file.elements = .error (.unknownValueTag 0x78)) ∧
    ∃ file stream e, ClassFile.parse ClassDraft.doubled.assemble = .ok file ∧
      file.elements = .ok stream ∧ (ofElements "p.Shape" file.pool stream).result = .error e ∧
        OfDeclaration e := by
  constructor
  · have herror : verdict (ofBytes ClassDraft.mistagged.assemble).result =
        .error (.valueTag 0x78) := by decide +kernel
    obtain ⟨-, htag⟩ :=
      (errors_ofBytes ClassDraft.mistagged.assemble).1 _ (verdict_eq_error_iff.mp herror)
    obtain ⟨file, hparse, helements, -⟩ := htag 0x78 rfl
    exact ⟨file, hparse, helements⟩
  · have hstream : ∃ stream, (ClassFile.parse ClassDraft.doubled.assemble >>= fun file =>
        (file, ·) <$> file.elements) = .ok stream := verdict_eq_ok_iff.mp (by decide +kernel)
    have herror : verdict (outlined (ClassFile.parse ClassDraft.doubled.assemble >>= fun file =>
        (file, ·) <$> file.elements) >>= fun s => (ofElements "p.Shape" s.1.pool s.2).result) =
          .error (.repeated (.attr .signature) (.class "p.Shape")) := by decide +kernel
    obtain ⟨_, hstream⟩ := hstream
    rw [hstream] at herror
    obtain ⟨file, hparse, hstream⟩ := bind_eq_ok_iff.mp hstream
    obtain ⟨stream, helements, rfl⟩ := map_eq_ok_iff.mp hstream
    have herror := verdict_eq_error_iff.mp herror
    have hof := ((errors_ofBytes ClassDraft.doubled.assemble).2 file stream hparse helements).2
      "p.Shape" _ herror
    exact ⟨file, stream, _, hparse, helements, herror, hof.resolve_left nofun⟩

end ClassOutline

end JvmOutline
