import JvmOutline.Assembly.Assembler
import JvmOutline.Proofs.Outline.Erasure

/-!
# The table of nested classes

A class file can list nested classes, in one attribute or in several; put together in file order
these are one table (`Attribute.nestedRows`).  Rows name all sorts of classes, and the first one
that names the class itself is about it: `InnerClass.Declares` says which modifiers the table
declares for a class.

The outline of a class has declared modifiers exactly if the table has such a row
(`ClassOutline.NestedBy`).  Nothing else comes from tables of nested classes, and those of fields,
methods and record components are ignored: streams that are the same without their tables
(`Element.withoutTables?`), and whose own tables declare the same, have the same outcome
(**`ClassOutline.nested_by_first_row`**).
-/

namespace JvmOutline

variable {pool : Pool}

/-! ### Without the tables -/

mutual

/-- What is left of an attribute without tables of nested classes. -/
def Attribute.withoutTables? : Attribute → Option Attribute
  | .innerClasses _ => none
  | .record components => some (.record (Component.withoutTablesList components))
  | a => some a

/-- What is left of record components without tables of nested classes. -/
def Component.withoutTablesList : List Component → List Component
  | [] => []
  | ⟨name, descriptor, attributes⟩ :: rest =>
    ⟨name, descriptor, Attribute.withoutTablesList attributes⟩ :: Component.withoutTablesList rest

/-- What is left of the attributes of a record component without tables of nested classes. -/
def Attribute.withoutTablesList : List Attribute → List Attribute
  | [] => []
  | a :: rest => a.withoutTables?.toList ++ Attribute.withoutTablesList rest

end

/-- What is left of a record component without tables of nested classes. -/
def Component.withoutTables (c : Component) : Component :=
  { c with attributes := c.attributes.filterMap Attribute.withoutTables? }

/-- What is left of an element of a field or method without tables of nested classes. -/
def MemberElement.withoutTables? : MemberElement → Option MemberElement
  | .flags f => some (.flags f)
  | .attr a => a.withoutTables?.map .attr

/-- What is left of a field or method without tables of nested classes. -/
def Member.withoutTables (m : Member) : Member :=
  { m with elements := m.elements.filterMap MemberElement.withoutTables? }

/-- What is left of an element without tables of nested classes. -/
def Element.withoutTables? : Element → Option Element
  | .field f => some (.field f.withoutTables)
  | .method m => some (.method m.withoutTables)
  | .attr a => a.withoutTables?.map .attr
  | e => some e

theorem Attribute.withoutTablesList_eq (as : List Attribute) :
    withoutTablesList as = as.filterMap withoutTables? := by
  induction as with
  | nil => rfl
  | cons a as ih =>
    rw [withoutTablesList, ih, List.filterMap_cons]
    cases a.withoutTables? <;> rfl

theorem Component.withoutTablesList_eq (cs : List Component) :
    withoutTablesList cs = cs.map withoutTables := by
  induction cs with
  | nil => rfl
  | cons c cs ih =>
    obtain ⟨name, descriptor, attributes⟩ := c
    rw [withoutTablesList, ih, List.map_cons, withoutTables, Attribute.withoutTablesList_eq]

/-! ### Fields, methods and record components ignore the tables -/

/-- Taking away what a filter drops, in whole or in part, does not change what it keeps. -/
theorem filter_filterMap_eq {α : Type} {strip : α → Option α} {used : α → Bool}
    (h : ∀ a, strip a = some a ∨ used a = false ∧ ∀ b ∈ strip a, used b = false) (as : List α) :
    (as.filterMap strip).filter used = as.filter used := by
  induction as with
  | nil => rfl
  | cons a as ih =>
    rw [List.filterMap_cons, List.filter_cons]
    rcases h a with ha | ⟨hunused, ha⟩
    · rw [ha, List.filter_cons, ih]
    · rw [hunused, ← ih]
      cases hb : strip a with
      | none => rfl
      | some b => rw [List.filter_cons, ha b hb]; rfl

/-- Attributes with tables are of no use to a declaration. -/
structure AttributeKind.IgnoresTables (kinds : List AttributeKind) : Prop where
  innerClasses : ∀ rows, (Attribute.innerClasses rows).isUsed kinds = false
  record : ∀ components, (Attribute.record components).isUsed kinds = false

section

variable {kinds : List AttributeKind}

theorem Attribute.withoutTables?_cases (h : AttributeKind.IgnoresTables kinds) (a : Attribute) :
    a.withoutTables? = some a ∨
      a.isUsed kinds = false ∧ ∀ b ∈ a.withoutTables?, b.isUsed kinds = false := by
  cases a with
  | innerClasses rows => exact .inr ⟨h.innerClasses rows, nofun⟩
  | record components =>
    refine .inr ⟨h.record components, ?_⟩
    rintro _ ⟨⟩
    exact h.record _
  | _ => exact .inl rfl

theorem MemberElement.withoutTables?_cases (h : AttributeKind.IgnoresTables kinds)
    (e : MemberElement) : e.withoutTables? = some e ∨
      e.isUsed kinds = false ∧ ∀ b ∈ e.withoutTables?, b.isUsed kinds = false := by
  cases e with
  | flags f => exact .inl rfl
  | attr a =>
    rcases a.withoutTables?_cases h with ha | ⟨hunused, ha⟩
    · exact .inl (congrArg (Option.map attr) ha)
    · refine .inr ⟨hunused, fun b hb => ?_⟩
      obtain ⟨a', ha', rfl⟩ := Option.map_eq_some_iff.mp hb
      exact ha a' ha'

theorem Member.erased_withoutTables (h : AttributeKind.IgnoresTables kinds) (m : Member) :
    m.withoutTables.erased kinds = m.erased kinds :=
  congrArg (Member.mk m.name m.descriptor)
    (filter_filterMap_eq (MemberElement.withoutTables?_cases h) m.elements)

end

theorem Component.erased_withoutTables (c : Component) : c.withoutTables.erased = c.erased :=
  congrArg (Component.mk c.name c.descriptor)
    (filter_filterMap_eq (Attribute.withoutTables?_cases ⟨fun _ => rfl, fun _ => rfl⟩) c.attributes)

/-! ### The tables of a class -/

namespace Element

/-- The element is no table of nested classes. -/
def isNoTable : Element → Bool
  | .attr (.innerClasses _) => false
  | _ => true

/-- What is left of an element that is not ignored, without tables of nested classes. -/
theorem bind_withoutTables?_erase? (e : Element) :
    e.withoutTables?.bind erase? = e.erase?.filter isNoTable := by
  cases e with
  | field f =>
    show some (field (f.withoutTables.erased _)) = some (field (f.erased _))
    rw [f.erased_withoutTables ⟨fun _ => rfl, fun _ => rfl⟩]
  | method m =>
    show ite (m.name = staticInitializer) none (some (method (m.withoutTables.erased _))) =
      Option.filter isNoTable (ite ..)
    rw [m.erased_withoutTables ⟨fun _ => rfl, fun _ => rfl⟩]
    split <;> rfl
  | attr a =>
    cases a with
    | record components =>
      show some (attr (.record ((Component.withoutTablesList components).map _))) =
        some (attr (.record (components.map _)))
      rw [Component.withoutTablesList_eq, List.map_map]
      congr 3
      exact List.map_congr_left fun c _ => c.erased_withoutTables
    | annots v _ => cases v <;> rfl
    | _ => rfl
  | _ => rfl

theorem filter_erased (stream : List Element) :
    (stream.filterMap erase?).filter isNoTable =
      (stream.filterMap withoutTables?).filterMap erase? := by
  rw [List.filter_filterMap, List.filterMap_filterMap]
  exact congrArg (stream.filterMap ·) (funext fun e => e.bind_withoutTables?_erase?.symm)

theorem eq_of_isNoTable {e : Element} (h : e.isNoTable = false) :
    ∃ rows, e = .attr (.innerClasses rows) := by
  cases e with
  | attr a =>
    cases a with
    | innerClasses rows => exact ⟨rows, rfl⟩
    | _ => nomatch h
  | _ => nomatch h

variable {stream stream' : List Element} (h : stream.filter isNoTable = stream'.filter isNoTable)

include h

/-- A view that sees nothing in tables of nested classes. -/
theorem filterMap_eq_of_isNoTable {α : Type} {pick : Element → Option α}
    (hpick : ∀ rows, pick (.attr (.innerClasses rows)) = none) :
    stream.filterMap pick = stream'.filterMap pick := by
  have hunseen (e : Element) (he : e.isNoTable = false) : pick e = none := by
    obtain ⟨rows, rfl⟩ := eq_of_isNoTable he
    exact hpick rows
  rw [← filterMap_filter_of_unseen hunseen, h, filterMap_filter_of_unseen hunseen]

theorem flatMap_eq_of_isNoTable {α : Type} {list : Element → List α}
    (hlist : ∀ rows, list (.attr (.innerClasses rows)) = []) :
    stream.flatMap list = stream'.flatMap list := by
  have hunseen (e : Element) (he : e.isNoTable = false) : list e = [] := by
    obtain ⟨rows, rfl⟩ := eq_of_isNoTable he
    exact hlist rows
  rw [← flatMap_filter_of_unseen hunseen, h, flatMap_filter_of_unseen hunseen]

end Element

namespace ClassOutline

variable {name : String} {stream stream' : List Element}

/-- Only what the tables declare for the class itself matters. -/
theorem result_compose_congr
    (h : stream.filter Element.isNoTable = stream'.filter Element.isNoTable)
    (hflags : InnerClass.flagsOf? name (stream.flatMap Element.innerClasses) =
      InnerClass.flagsOf? name (stream'.flatMap Element.innerClasses)) :
    (compose name pool stream).result = (compose name pool stream').result := by
  have hheader : (stream.foldlM (HeaderParts.accept (.class name)) .empty).result =
      (stream'.foldlM (HeaderParts.accept (.class name)) .empty).result := by
    have haccept (p : HeaderParts) (e : Element) (he : e.isNoTable = false) :
        (p.accept (.class name) e).result = .ok p := by
      obtain ⟨rows, rfl⟩ := Element.eq_of_isNoTable he
      rfl
    rw [← Logged.result_foldlM_filter haccept, h, Logged.result_foldlM_filter haccept]
  have hmethods : stream.filterMap Element.method? = stream'.filterMap Element.method? :=
    Element.filterMap_eq_of_isNoTable h fun _ => rfl
  have hfields : stream.filterMap Element.field? = stream'.filterMap Element.field? :=
    Element.filterMap_eq_of_isNoTable h fun _ => rfl
  have hpermitted : stream.flatMap Element.permitted = stream'.flatMap Element.permitted :=
    Element.flatMap_eq_of_isNoTable h fun _ => rfl
  have hcomponents : stream.flatMap Element.components = stream'.flatMap Element.components :=
    Element.flatMap_eq_of_isNoTable h fun _ => rfl
  simp only [compose, Logged.result_bind, hheader, hmethods, hfields, hpermitted, hcomponents,
    hflags]

/-- Of streams that are the same without their tables, only what their own tables declare for the
class matters. -/
theorem result_ofElements_congr
    (h : stream.filterMap Element.withoutTables? = stream'.filterMap Element.withoutTables?)
    (hflags : InnerClass.flagsOf? name (stream.flatMap Element.innerClasses) =
      InnerClass.flagsOf? name (stream'.flatMap Element.innerClasses)) :
    (ofElements name pool stream).result = (ofElements name pool stream').result := by
  have hcompose : (compose name pool stream).result = (compose name pool stream').result := by
    refine result_compose_erased.symm.trans (Eq.trans ?_ result_compose_erased)
    refine result_compose_congr ?_ ?_
    · rw [Element.filter_erased, Element.filter_erased, h]
    · rw [Element.innerClasses_erased, Element.innerClasses_erased, hflags]
  rw [ofElements, ofElements, Logged.result_bind, Logged.result_bind]
  refine bind_congr fun _ => ?_
  split
  · rfl
  · rw [Logged.result_bind, Logged.result_bind, hcompose]

end ClassOutline

/-! ### The modifiers of an outline -/

/-- What the modifiers of an outline are: those of the header, and those that a table of nested
classes declares for the class itself. -/
structure ClassOutline.NestedBy (c : ClassOutline) (header : AccessFlags) (rows : List InnerClass) :
    Prop where
  flags : c.flags = header.masked .classMask
  isSome : c.innerFlags.isSome = true ↔ ∃ row ∈ rows, row.Names c.name
  innerFlags : ∀ flags, c.innerFlags = some flags ↔ InnerClass.Declares rows c.name flags
  isNested : c.isNested = true ↔ ∃ row ∈ rows, row.Names c.name
  undeclared : (∀ row ∈ rows, ¬ row.Names c.name) → c.effectiveFlags = c.flags
  declared : ∀ flags, InnerClass.Declares rows c.name flags → c.effectiveFlags = flags

/-- The header of a class file, and its attributes, as its stream has them. -/
theorem ClassFile.Streams.views {file : ClassFile} {stream : List Element}
    (h : file.Streams stream) : stream.filterMap Element.flags? = [file.flags] ∧
      RawAttribute.DecodeTo file.pool file.attributes (stream.filterMap Element.attr?) := by
  obtain ⟨-, -, -, -, has⟩ := h
  constructor
  · rw [Element.filterMap_stream]
    simp [Function.comp_def, Element.flags?]
  · rw [Element.filterMap_stream]
    simpa [Function.comp_def, Element.attr?] using RawAttribute.decodeTo_iff.mpr has

namespace ClassOutline

theorem Outlines.nestedBy {name : String} {stream : List Element} {c : ClassOutline}
    {flags : AccessFlags} (h : Outlines name pool stream c)
    (hflags : stream.filterMap Element.flags? = [flags]) :
    c.name = name ∧ c.NestedBy flags (stream.flatMap Element.innerClasses) := by
  obtain ⟨htakes, hplace, -⟩ := h
  have hheader := takesOnce_eq_iff.mp htakes.flags
  rw [hflags, hplace] at hheader
  cases hheader
  refine ⟨rfl, rfl, InnerClass.isSome_flagsOf?_iff, fun _ => InnerClass.flagsOf?_eq_some_iff,
    InnerClass.isSome_flagsOf?_iff, ?_, ?_⟩
  · intro hno
    have hnone : InnerClass.flagsOf? name (stream.flatMap Element.innerClasses) = none := by
      rw [← Option.not_isSome_iff_eq_none, InnerClass.isSome_flagsOf?_iff]
      exact fun ⟨row, hrow, hname⟩ => hno row hrow hname
    rw [effectiveFlags, hnone]
    rfl
  · intro flags hdeclares
    rw [effectiveFlags, InnerClass.flagsOf?_eq_some_iff.mpr hdeclares]
    rfl

/-- **The first row about the class.**  The declared modifiers of a class are those of the first row
about it in the table of its class file, if there is one.  No other row has a part in the outcome,
and neither have the tables of fields, methods and record components. -/
theorem nested_by_first_row :
    (∀ bytes c, (ofBytes bytes).result = .ok c → ∃ file internal as,
      ClassFile.parse bytes = .ok file ∧ file.className = .ok internal ∧
        RawAttribute.DecodeTo file.pool file.attributes as ∧
        c.name = ClassName.qualified internal ∧
        c.NestedBy file.flags (as.flatMap Attribute.nestedRows)) ∧
    ∀ name pool stream stream',
      stream.filterMap Element.withoutTables? = stream'.filterMap Element.withoutTables? →
      (∀ flags,
        InnerClass.Declares ((stream.filterMap Element.attr?).flatMap Attribute.nestedRows) name
            flags ↔
          InnerClass.Declares ((stream'.filterMap Element.attr?).flatMap Attribute.nestedRows) name
            flags) →
      (ofElements name pool stream).result = (ofElements name pool stream').result := by
  refine ⟨fun bytes c h => ?bytes, fun name pool stream stream' h hdeclares => ?streams⟩
  case bytes =>
    obtain ⟨file, internal, stream, hparse, hname, hstream, -, houtlines⟩ :=
      result_ofBytes_eq_ok_iff.mp h
    obtain ⟨hflags, has⟩ := hstream.views
    obtain ⟨hcname, hnested⟩ := houtlines.nestedBy hflags
    rw [Element.flatMap_innerClasses] at hnested
    exact ⟨file, internal, _, hparse, Pool.className_eq_ok_iff.mpr hname, has, hcname, hnested⟩
  case streams =>
    rw [← Element.flatMap_innerClasses, ← Element.flatMap_innerClasses] at hdeclares
    exact result_ofElements_congr h (InnerClass.flagsOf?_congr hdeclares)

end ClassOutline

/-- A nested class whose first table lists a class of the same simple name, and whose second one
lists the class itself twice. -/
def ClassDraft.nestedNode : ClassDraft :=
  { ofName "p/List$Node" with
    attributes := [.innerClasses [⟨"p/Tree$Node", some "p/Tree", some "Node", ⟨0x0001⟩⟩],
      .innerClasses [⟨"p/List$Node", some "p/List", some "Node", ⟨0x000A⟩⟩,
        ⟨"p/List$Node", some "p/List", some "Node", ⟨0x0009⟩⟩]] }

/-- A stream with tables of its own, and with one in its field and one in its record component. -/
def Element.tabledStream : List Element :=
  [.attr (.innerClasses [⟨"p/Tree$Node", none, none, ⟨0x0001⟩⟩]), .flags ⟨0x0001⟩,
    .field ⟨"side", "I", [.flags ⟨0x0002⟩,
      .attr (.innerClasses [⟨"p/List$Node", none, none, ⟨0x0001⟩⟩])]⟩,
    .attr (.record [⟨"side", "I", [.innerClasses []]⟩]),
    .attr (.innerClasses [⟨"p/List$Node", none, none, ⟨0x000A⟩⟩])]

/-- The same stream with one table, which lists the class itself twice. -/
def Element.retabledStream : List Element :=
  [.flags ⟨0x0001⟩, .field ⟨"side", "I", [.flags ⟨0x0002⟩]⟩,
    .attr (.innerClasses [⟨"p/List$Node", some "p/List", some "Node", ⟨0x000A⟩⟩,
      ⟨"p/List$Node", some "p/List", some "Node", ⟨0x0009⟩⟩]),
    .attr (.record [⟨"side", "I", []⟩])]

namespace ClassOutline

theorem nested_by_first_row_node :
    (∃ c file as, (ofBytes ClassDraft.nestedNode.assemble).result = .ok c ∧
      c.innerFlags = some ⟨0x000A⟩ ∧ ClassFile.parse ClassDraft.nestedNode.assemble = .ok file ∧
        RawAttribute.DecodeTo file.pool file.attributes as ∧
          c.NestedBy file.flags (as.flatMap Attribute.nestedRows)) ∧
    Element.tabledStream.filterMap Element.withoutTables? =
      Element.retabledStream.filterMap Element.withoutTables? ∧
    (∀ flags, InnerClass.Declares
      ((Element.tabledStream.filterMap Element.attr?).flatMap Attribute.nestedRows)
        "p.List$Node" flags ↔ InnerClass.Declares
          ((Element.retabledStream.filterMap Element.attr?).flatMap Attribute.nestedRows)
            "p.List$Node" flags) ∧
    (ofElements "p.List$Node" .empty Element.tabledStream).result =
      (ofElements "p.List$Node" .empty Element.retabledStream).result := by
  have hok : innerFlags <$> (ofBytes ClassDraft.nestedNode.assemble).result =
      .ok (some ⟨0x000A⟩) := by decide +kernel
  obtain ⟨c, hc, hflags⟩ := map_eq_ok_iff.mp hok
  have hsame : Element.tabledStream.filterMap Element.withoutTables? =
      Element.retabledStream.filterMap Element.withoutTables? := rfl
  have hdeclares : ∀ flags, InnerClass.Declares
      ((Element.tabledStream.filterMap Element.attr?).flatMap Attribute.nestedRows)
        "p.List$Node" flags ↔ InnerClass.Declares
          ((Element.retabledStream.filterMap Element.attr?).flatMap Attribute.nestedRows)
            "p.List$Node" flags := by
    intro flags
    rw [← InnerClass.flagsOf?_eq_some_iff, ← InnerClass.flagsOf?_eq_some_iff]
    exact Iff.rfl
  obtain ⟨hbytes, hstreams⟩ := nested_by_first_row
  obtain ⟨file, _, as, hparse, -, has, -, hnested⟩ := hbytes _ c hc
  exact ⟨⟨c, file, as, hc, hflags, hparse, has, hnested⟩, hsame, hdeclares,
    hstreams _ _ _ _ hsame hdeclares⟩

end ClassOutline

end JvmOutline
