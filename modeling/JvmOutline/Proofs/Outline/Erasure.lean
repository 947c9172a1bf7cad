import JvmOutline.Proofs.ClassFile.Elements
import JvmOutline.Proofs.ClassFile.RoundTrip
import JvmOutline.Proofs.Outline.Declarations
import JvmOutline.Proofs.Outline.Kinds

/-!
# What is ignored does not matter

A declaration ignores attributes of the kinds that it has no use for, and a class ignores its
static initializers.  `Element.erase?` takes all of these out of a stream: static initializers and
ignored attributes of the class as a whole, and ignored attributes inside fields, methods and record
components.

Ignoring changes no place and raises no error (`FieldParts.result_accept_unused` and its like).  So
what is left of a stream has the same outcome as the stream itself, be it an outline or an error
(`ClassOutline.result_ofElements_erased`).

In a class file, an attribute whose name is not known is ignored wherever it stands, whatever its
body.  **Class files that differ in such attributes only have the same outcome**
(`ClassOutline.result_unaffected_by_ignored`).
-/

namespace JvmOutline

variable {pool : Pool}

/-! ### Erasing what is ignored -/

/-- The attribute is of one of the kinds that a declaration has a use for. -/
def Attribute.isUsed (kinds : List AttributeKind) (a : Attribute) : Bool :=
  (a.kindIn? kinds).isSome

/-- The element is of use to a field or method. -/
def MemberElement.isUsed (kinds : List AttributeKind) : MemberElement → Bool
  | .flags _ => true
  | .attr a => a.isUsed kinds

/-- What a field or method is without the attributes that it ignores. -/
def Member.erased (kinds : List AttributeKind) (m : Member) : Member :=
  { m with elements := m.elements.filter (MemberElement.isUsed kinds) }

/-- What a record component is without the attributes that it ignores. -/
def Component.erased (c : Component) : Component :=
  { c with attributes := c.attributes.filter (Attribute.isUsed AttributeKind.ofComponent) }

/-- What is left of an element, if the class does not ignore it. -/
def Element.erase? : Element → Option Element
  | .field f => some (.field (f.erased AttributeKind.ofField))
  | .method m =>
    if m.name = staticInitializer then none
    else some (.method (m.erased AttributeKind.ofMethod))
  | .attr (.record components) => some (.attr (.record (components.map Component.erased)))
  | .attr a => if a.isUsed AttributeKind.ofClass then some (.attr a) else none
  | e => some e

/-! ### Fields, methods and record components -/

/-- Steps that do not change the state can be left out. -/
theorem Logged.result_foldlM_filter {α P : Type} {accept : P → α → Logged P} {used : α → Bool}
    (h : ∀ p a, used a = false → (accept p a).result = .ok p) (as : List α) (p : P) :
    ((as.filter used).foldlM accept p).result = (as.foldlM accept p).result := by
  rw [result_foldlM, result_foldlM, List.foldlM_filter]
  congr 1
  funext p a
  cases ha : used a with
  | true => rfl
  | false => exact (h p a ha).symm

theorem FieldParts.result_accept_unused {field : String} (p : FieldParts) (e : MemberElement)
    (h : e.isUsed AttributeKind.ofField = false) : (accept pool field p e).result = .ok p := by
  cases e with
  | flags _ => nomatch h
  | attr a =>
    cases a with
    | annots v _ => cases v <;> nomatch h
    | signature _ | constantValue _ => nomatch h
    | _ => rfl

theorem FieldOutline.result_ofMember_erased (f : Member) :
    (ofMember pool (f.erased AttributeKind.ofField)).result = (ofMember pool f).result := by
  rw [ofMember, ofMember, Logged.result_bind, Logged.result_bind]
  exact congrArg (· >>= _) (Logged.result_foldlM_filter FieldParts.result_accept_unused _ _)

theorem MethodParts.result_accept_unused {scope : Scope} (p : MethodParts) (e : MemberElement)
    (h : e.isUsed AttributeKind.ofMethod = false) : (accept pool scope p e).result = .ok p := by
  cases e with
  | flags _ => nomatch h
  | attr a =>
    cases a with
    | annots v _ | parameterAnnots v _ => cases v <;> nomatch h
    | signature _ | exceptions _ | methodParameters _ | annotDefault _ => nomatch h
    | _ => rfl

theorem MethodOutline.result_ofMember_erased (m : Member) :
    (ofMember pool (m.erased AttributeKind.ofMethod)).result = (ofMember pool m).result := by
  rw [ofMember, ofMember, Logged.result_bind, Logged.result_bind]
  exact congrArg (· >>= _) (Logged.result_foldlM_filter MethodParts.result_accept_unused _ _)

theorem ComponentParts.result_accept_unused {scope : Scope} (p : ComponentParts) (a : Attribute)
    (h : a.isUsed AttributeKind.ofComponent = false) : (accept pool scope p a).result = .ok p := by
  cases a with
  | annots v _ | typeAnnots v _ => cases v <;> nomatch h
  | signature _ => nomatch h
  | _ => rfl

theorem ComponentOutline.result_ofComponent_erased (c : Component) :
    (ofComponent pool c.erased).result = (ofComponent pool c).result := by
  rw [ofComponent, ofComponent, Logged.result_bind, Logged.result_bind]
  exact congrArg (· >>= _) (Logged.result_foldlM_filter ComponentParts.result_accept_unused _ _)

/-! ### Classes -/

/-- No part of an outline comes from the element. -/
structure Element.Ignored (e : Element) : Prop where
  field : e.field? = none
  method : e.method? = none
  permitted : e.permitted = []
  components : e.components = []
  innerClasses : e.innerClasses = []
  accept : ∀ scope p, (HeaderParts.accept scope p e).result = .ok p

/-- What is left of an element. -/
inductive Element.ErasesTo : Element → Option Element → Prop where
  | field (f : Member) : ErasesTo (.field f) (some (.field (f.erased AttributeKind.ofField)))
  | method (m : Member) : m.name ≠ staticInitializer →
      ErasesTo (.method m) (some (.method (m.erased AttributeKind.ofMethod)))
  | record (components : List Component) :
      ErasesTo (.attr (.record components)) (some (.attr (.record (components.map .erased))))
  | ignored {e : Element} : e.Ignored → ErasesTo e none
  | kept {e : Element} : e.field? = none → e.method? = none → e.components = [] →
      ErasesTo e (some e)

namespace Element

theorem method?_eq_some {m : Member} (h : m.name ≠ staticInitializer) :
    method? (.method m) = some m :=
  if_neg h

theorem erasesTo_erase? (e : Element) : e.ErasesTo e.erase? := by
  cases e with
  | field f => exact .field f
  | method m =>
    rw [erase?]
    split
    · next hname =>
      exact .ignored ⟨rfl, if_pos hname, rfl, rfl, rfl, fun _ p => p.result_accept_method m⟩
    · next hname => exact .method m hname
  | attr a =>
    cases a with
    | record components => exact .record components
    | annots v _ => cases v <;> exact .kept rfl rfl rfl
    | signature _ | permittedSubclasses _ | innerClasses _ => exact .kept rfl rfl rfl
    | _ => exact .ignored ⟨rfl, rfl, rfl, rfl, rfl, fun _ _ => rfl⟩
  | _ => exact .kept rfl rfl rfl

end Element

namespace Element.ErasesTo

variable {e : Element} {e? : Option Element} (h : e.ErasesTo e?)

include h

/-- The header of a class takes in what is left of an element as it takes in the element. -/
theorem result_accept (scope : Scope) (p : HeaderParts) :
    e?.elim (.ok p) (fun e' => (p.accept scope e').result) = (p.accept scope e).result := by
  cases h with
  | ignored h => exact (h.accept scope p).symm
  | method m _ => exact (p.result_accept_method _).trans (p.result_accept_method m).symm
  | _ => rfl

theorem method? : e?.bind Element.method? =
    e.method?.map (Member.erased AttributeKind.ofMethod) := by
  cases h with
  | ignored h => rw [h.method]; rfl
  | kept _ hmethod _ => rw [Option.bind_some, hmethod]; rfl
  | method m hname =>
    rw [method?_eq_some hname]
    exact method?_eq_some hname
  | _ => rfl

theorem field? : e?.bind Element.field? = e.field?.map (Member.erased AttributeKind.ofField) := by
  cases h with
  | ignored h => rw [h.field]; rfl
  | kept hfield _ _ => rw [Option.bind_some, hfield]; rfl
  | _ => rfl

theorem components : e?.elim [] Element.components = e.components.map Component.erased := by
  cases h with
  | ignored h => rw [h.components]; rfl
  | kept _ _ hcomponents => rw [Option.elim_some, hcomponents]; rfl
  | _ => rfl

theorem permitted : e?.elim [] Element.permitted = e.permitted := by
  cases h with
  | ignored h => exact h.permitted.symm
  | _ => rfl

theorem innerClasses : e?.elim [] Element.innerClasses = e.innerClasses := by
  cases h with
  | ignored h => exact h.innerClasses.symm
  | _ => rfl

end Element.ErasesTo

/-- The header is read off what is left of a stream. -/
theorem HeaderParts.result_foldlM_erased {scope : Scope} (stream : List Element) (p : HeaderParts) :
    ((stream.filterMap Element.erase?).foldlM (accept scope) p).result =
      (stream.foldlM (accept scope) p).result := by
  rw [Logged.result_foldlM, Logged.result_foldlM, List.foldlM_filterMap]
  congr 1
  funext p e
  rw [← e.erasesTo_erase?.result_accept scope p]
  cases e.erase? <;> rfl

namespace Element

variable (stream : List Element)

theorem methods_erased : (stream.filterMap erase?).filterMap method? =
    (stream.filterMap method?).map (Member.erased AttributeKind.ofMethod) := by
  rw [List.filterMap_filterMap, List.map_filterMap]
  exact congrArg (stream.filterMap ·) (funext fun e => e.erasesTo_erase?.method?)

theorem fields_erased : (stream.filterMap erase?).filterMap field? =
    (stream.filterMap field?).map (Member.erased AttributeKind.ofField) := by
  rw [List.filterMap_filterMap, List.map_filterMap]
  exact congrArg (stream.filterMap ·) (funext fun e => e.erasesTo_erase?.field?)

theorem components_erased : (stream.filterMap erase?).flatMap components =
    (stream.flatMap components).map Component.erased := by
  rw [flatMap_filterMap, List.map_flatMap]
  exact congrArg (stream.flatMap ·) (funext fun e => e.erasesTo_erase?.components)

theorem permitted_erased :
    (stream.filterMap erase?).flatMap permitted = stream.flatMap permitted := by
  rw [flatMap_filterMap]
  exact congrArg (stream.flatMap ·) (funext fun e => e.erasesTo_erase?.permitted)

theorem innerClasses_erased :
    (stream.filterMap erase?).flatMap innerClasses = stream.flatMap innerClasses := by
  rw [flatMap_filterMap]
  exact congrArg (stream.flatMap ·) (funext fun e => e.erasesTo_erase?.innerClasses)

end Element

/-- Steps for what becomes of the items of a list, if each has the same result. -/
theorem Logged.result_mapM_map {α β γ : Type} {f : α → Logged γ} {g : β → Logged γ} {move : α → β}
    (h : ∀ a, (g (move a)).result = (f a).result) (as : List α) :
    ((as.map move).mapM g).result = (as.mapM f).result := by
  rw [result_mapM, result_mapM, List.mapM_map]
  exact congrArg (as.mapM ·) (funext h)

namespace ClassOutline

variable {name : String} {stream : List Element}

theorem result_compose_erased : (compose name pool (stream.filterMap Element.erase?)).result =
    (compose name pool stream).result := by
  simp only [compose, Logged.result_bind, HeaderParts.result_foldlM_erased, Element.methods_erased,
    Logged.result_mapM_map MethodOutline.result_ofMember_erased, Element.fields_erased,
    Logged.result_mapM_map FieldOutline.result_ofMember_erased, Element.components_erased,
    Logged.result_mapM_map ComponentOutline.result_ofComponent_erased, Element.permitted_erased,
    Element.innerClasses_erased]

theorem result_ofElements_erased :
    (ofElements name pool (stream.filterMap Element.erase?)).result =
      (ofElements name pool stream).result := by
  rw [ofElements, ofElements, Logged.result_bind, Logged.result_bind]
  refine bind_congr fun _ => ?_
  split
  · rfl
  · rw [Logged.result_bind, Logged.result_bind, result_compose_erased]

end ClassOutline

/-! ### Class files -/

/-- Attributes of unknown names have been put among stored attributes. -/
inductive RawAttribute.Padded (pool : Pool) : List RawAttribute → List RawAttribute → Prop where
  | nil : Padded pool [] []
  | keep (a : RawAttribute) {as as' : List RawAttribute} :
      Padded pool as as' → Padded pool (a :: as) (a :: as')
  | insert {a : RawAttribute} {name : String} {as as' : List RawAttribute} :
      pool.HasText a.name name → (∀ kind : AttributeKind, kind.name ≠ name) →
      Padded pool as as' → Padded pool as (a :: as')

/-- Attributes of unknown names have been put among those of a field or method. -/
inductive RawMember.Padded (pool : Pool) (m : RawMember) : RawMember → Prop where
  | intro {attributes : List RawAttribute} : RawAttribute.Padded pool m.attributes attributes →
      Padded pool m { m with attributes := attributes }

/-- Attributes of unknown names have been put among those of a class file and of its members. -/
inductive ClassFile.Padded (file : ClassFile) : ClassFile → Prop where
  | intro {fields methods : List RawMember} {attributes : List RawAttribute} :
      List.Forall₂ (RawMember.Padded file.pool) file.fields fields →
      List.Forall₂ (RawMember.Padded file.pool) file.methods methods →
      RawAttribute.Padded file.pool file.attributes attributes →
      Padded file { file with fields := fields, methods := methods, attributes := attributes }

section

variable {ε α β γ : Type} {f : α → Except ε β} {pick : β → Option γ}

/-- What is picked out of the values of a list of steps, step by step. -/
theorem filterMap_mapM_cons (a : α) (as : List α) :
    List.filterMap pick <$> (a :: as).mapM f = (do
      let c? ← pick <$> f a
      (c?.toList ++ ·) <$> (List.filterMap pick <$> as.mapM f)) := by
  rw [List.mapM_cons]
  cases f a with
  | error e => rfl
  | ok b =>
    cases as.mapM f with
    | error e => rfl
    | ok bs =>
      show Except.ok ((b :: bs).filterMap pick) = .ok ((pick b).toList ++ bs.filterMap pick)
      rw [List.filterMap_cons]
      cases pick b <;> rfl

theorem filterMap_mapM_congr {as as' : List α}
    (h : List.Forall₂ (fun a a' => pick <$> f a' = pick <$> f a) as as') :
    List.filterMap pick <$> as'.mapM f = List.filterMap pick <$> as.mapM f := by
  induction h with
  | nil => rfl
  | cons ha _ ih => rw [filterMap_mapM_cons, filterMap_mapM_cons, ha, ih]

end

/-- A view that does not see attributes of unknown names does not see padding. -/
theorem RawAttribute.Padded.filterMap_mapM_decode {as as' : List RawAttribute}
    (h : Padded pool as as') {β : Type} {pick : Attribute → Option β}
    (hpick : ∀ name, pick (.other name) = none) :
    List.filterMap pick <$> as'.mapM (RawAttribute.decode pool) =
      List.filterMap pick <$> as.mapM (RawAttribute.decode pool) := by
  induction h with
  | nil => rfl
  | keep a _ ih => rw [filterMap_mapM_cons, filterMap_mapM_cons, ih]
  | @insert a name as as' hname hunknown _ ih =>
    have hnone : pick <$> a.decode pool = .ok none := by
      rw [decode_iff_stored.mpr (.other hname hunknown)]
      exact congrArg _ (hpick name)
    rw [filterMap_mapM_cons, ih, hnone]
    exact id_map (List.filterMap pick <$> as.mapM (RawAttribute.decode pool))

theorem RawMember.Padded.map_resolve {m m' : RawMember} (h : m.Padded pool m')
    (kinds : List AttributeKind) :
    Member.erased kinds <$> m'.resolve pool = Member.erased kinds <$> m.resolve pool := by
  have hresolve (m : RawMember) : Member.erased kinds <$> m.resolve pool = (do
      let name ← m.nameIn pool
      let descriptor ← m.descriptorIn pool
      let attributes ← List.filterMap (Option.guard (Attribute.isUsed kinds)) <$>
        m.attributes.mapM (RawAttribute.decode pool)
      return ⟨name, descriptor, .flags m.flags :: attributes.map .attr⟩) := by
    have hfilter (as : List Attribute) :
        (.flags m.flags :: as.map .attr).filter (MemberElement.isUsed kinds) =
          .flags m.flags :: (as.filterMap (Option.guard (Attribute.isUsed kinds))).map .attr := by
      rw [List.filterMap_eq_filter, List.filter_cons, List.filter_map]
      rfl
    simp only [resolve, map_bind, map_pure, bind_map_left, Member.erased, hfilter]
  cases h with
  | intro has =>
    rw [hresolve, hresolve, has.filterMap_mapM_decode fun _ => rfl]
    rfl

namespace ClassFile

/-- What is picked out of the stream of a class file, table by table. -/
theorem filterMap_elements {β : Type} (pick : Element → Option β) (file : ClassFile) :
    List.filterMap pick <$> file.elements = (do
      let superName ← file.superName
      let interfaces ← file.interfaceNames
      let fields ← List.filterMap (pick ∘ .field) <$>
        file.fields.mapM (RawMember.resolve file.pool)
      let methods ← List.filterMap (pick ∘ .method) <$>
        file.methods.mapM (RawMember.resolve file.pool)
      let attributes ← List.filterMap (pick ∘ .attr) <$>
        file.attributes.mapM (RawAttribute.decode file.pool)
      return (pick (.flags file.flags)).toList ++ superName.toList.filterMap (pick ∘ .superclass) ++
        (pick (.interfaces interfaces)).toList ++ fields ++ methods ++ attributes) := by
  simp only [elements, map_bind, map_pure, bind_map_left, Element.filterMap_stream]

theorem Padded.filterMap_elements {file file' : ClassFile} (h : file.Padded file') :
    List.filterMap Element.erase? <$> file'.elements =
      List.filterMap Element.erase? <$> file.elements := by
  rw [ClassFile.filterMap_elements, ClassFile.filterMap_elements]
  cases h with
  | intro hfields hmethods has =>
    -- What is left of a member is found from what is left inside it.
    have hfield {m m' : RawMember} (hm : m.Padded file.pool m') :
        (Element.erase? ∘ .field) <$> m'.resolve file.pool =
          (Element.erase? ∘ .field) <$> m.resolve file.pool := by
      have hcomp : Element.erase? ∘ .field =
          (some ∘ .field) ∘ Member.erased AttributeKind.ofField := rfl
      rw [hcomp, comp_map, hm.map_resolve, ← comp_map]
    have hmethod {m m' : RawMember} (hm : m.Padded file.pool m') :
        (Element.erase? ∘ .method) <$> m'.resolve file.pool =
          (Element.erase? ∘ .method) <$> m.resolve file.pool := by
      have hcomp : Element.erase? ∘ .method =
          (fun m => if m.name = staticInitializer then none else some (.method m)) ∘
            Member.erased AttributeKind.ofMethod := rfl
      rw [hcomp, comp_map, hm.map_resolve, ← comp_map]
    rw [has.filterMap_mapM_decode fun _ => rfl,
      filterMap_mapM_congr (hfields.imp fun _ _ => hfield),
      filterMap_mapM_congr (hmethods.imp fun _ _ => hmethod)]
    rfl

end ClassFile

/-- What follows a step needs only what a view of its value shows. -/
theorem outlined_map_bind {α β γ : Type} {x : Except FormatError α} (view : α → β)
    {next : α → Except OutlineError γ} {next' : β → Except OutlineError γ}
    (h : ∀ a, next a = next' (view a)) :
    outlined x >>= next = outlined (view <$> x) >>= next' := by
  cases x with
  | error e => rfl
  | ok a => exact h a

namespace ClassOutline

theorem result_ofBytes_of_parse {bytes : Bytes} {file : ClassFile}
    (h : ClassFile.parse bytes = .ok file) : (ofBytes bytes).result = (do
      let name ← outlined file.className
      let stream ← outlined (List.filterMap Element.erase? <$> file.elements)
      (ofElements (ClassName.qualified name) file.pool stream).result) := by
  rw [ofBytes, h]
  simp only [Logged.result_bind]
  exact congrArg (outlined file.className >>= ·) (funext fun name =>
    outlined_map_bind _ fun stream => result_ofElements_erased.symm)

/-- **What is ignored does not matter.**  A stream has the outcome of what is left of it, outline or
error; and attributes of unknown names, put among the attributes of a class file and of its fields
and methods, leave its outcome as it is. -/
theorem result_unaffected_by_ignored :
    (∀ name pool stream, (ofElements name pool (stream.filterMap Element.erase?)).result =
      (ofElements name pool stream).result) ∧
    ∀ bytes bytes' file file', ClassFile.parse bytes = .ok file →
      ClassFile.parse bytes' = .ok file' → file.Padded file' →
        (ofBytes bytes').result = (ofBytes bytes).result := by
  refine ⟨fun _ _ _ => result_ofElements_erased, ?_⟩
  intro bytes bytes' file file' h h' hpadded
  rw [result_ofBytes_of_parse h, result_ofBytes_of_parse h', hpadded.filterMap_elements]
  cases hpadded with
  | intro => rfl

end ClassOutline

/-- The sample class file without the attribute of its field, whose name is not known. -/
def ClassFile.bareSample : ClassFile := { sample with fields := [⟨⟨1⟩, 1, 1, []⟩] }

/-- The sample class file with one more attribute of that name. -/
def ClassFile.paddedSample : ClassFile := { sample with attributes := [⟨1, [0xFF, 0xFF]⟩] }

theorem ClassOutline.result_unaffected_by_ignored_sample :
    ClassFile.bareSample.Padded ClassFile.paddedSample ∧
      ∃ bytes bytes' c, ClassFile.parse bytes = .ok ClassFile.bareSample ∧
        ClassFile.parse bytes' = .ok ClassFile.paddedSample ∧
        (ofBytes bytes).result = .ok c ∧ (ofBytes bytes').result = .ok c := by
  have hname : ClassFile.sample.pool.HasText 1 "é" := rfl
  have hunknown : ∀ kind : AttributeKind, kind.name ≠ "é" := by
    intro kind
    cases kind with
    | annots v | parameterAnnots v | typeAnnots v => cases v <;> decide
    | _ => decide
  have hpadded : ClassFile.bareSample.Padded ClassFile.paddedSample :=
    .intro (.cons (.intro (.insert hname hunknown .nil)) .nil) .nil (.insert hname hunknown .nil)
  have hbare : ClassFile.bareSample.WellFormed :=
    ⟨ClassFile.sample_wellFormed.pool, by decide, by decide, by decide, by decide⟩
  have hwhole : ClassFile.paddedSample.WellFormed :=
    ⟨ClassFile.sample_wellFormed.pool, by decide, by decide, by decide, by decide⟩
  have hok : ∃ c, (ofBytes (ClassFile.bareSample.layout ModifiedUtf8.encode)).result = .ok c :=
    verdict_eq_ok_iff.mp (by decide +kernel)
  obtain ⟨c, hc⟩ := hok
  have hsame :=
    result_unaffected_by_ignored.2 _ _ _ _ hbare.parse_layout hwhole.parse_layout hpadded
  exact ⟨hpadded, _, _, c, hbare.parse_layout, hwhole.parse_layout, hc, hsame.trans hc⟩

end JvmOutline
