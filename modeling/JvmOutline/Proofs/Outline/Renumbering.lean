import JvmOutline.Proofs.Attribute.Extension
import JvmOutline.Proofs.Outline.Declarations

/-!
# The numbers of constants do not matter

A stream refers to constants by number: in the constant values of fields, and in the numbers and
texts of annotations, at any depth.  `Element.renumber r` moves every such index along `r`, and
`Element.indexes` lists them.

An outline holds the constants and not their numbers.  If the new index of each constant leads, in
another pool, to the same constant (`Pool.SameConstant`), then each step of outlining keeps its
value, from single constants (`AnnotValue.keeps_ofConst`, `ConstantValue.keeps_ofPool`) to values,
members and classes.  **So a stream that has an outline has the same outline under other numbers**
(`ClassOutline.result_independent_of_numbering`).
-/

namespace JvmOutline

/-! ### Other numbers -/

section

variable (r : UInt16 → UInt16)

mutual

/-- The value with its constants at other indexes. -/
def ElementValue.renumber : ElementValue → ElementValue
  | .const tag index => .const tag (r index)
  | .enumConst descriptor constant => .enumConst descriptor constant
  | .classLit descriptor => .classLit descriptor
  | .annot a => .annot a.renumber
  | .array values => .array (ElementValue.renumberList values)

/-- The annotation with its constants at other indexes. -/
def Annot.renumber : Annot → Annot
  | ⟨descriptor, members⟩ => ⟨descriptor, ElementValue.renumberMembers members⟩

/-- Members with their constants at other indexes. -/
def ElementValue.renumberMembers : List (String × ElementValue) → List (String × ElementValue)
  | [] => []
  | (name, value) :: rest => (name, value.renumber) :: ElementValue.renumberMembers rest

/-- The elements of an array with their constants at other indexes. -/
def ElementValue.renumberList : List ElementValue → List ElementValue
  | [] => []
  | value :: rest => value.renumber :: ElementValue.renumberList rest

end

/-- The type annotation with its constants at other indexes. -/
def TypeAnnot.renumber (a : TypeAnnot) : TypeAnnot := { a with annot := a.annot.renumber r }

mutual

/-- The attribute with its constants at other indexes. -/
def Attribute.renumber : Attribute → Attribute
  | .constantValue index => .constantValue (r index)
  | .annots v as => .annots v (as.map (Annot.renumber r))
  | .parameterAnnots v lists => .parameterAnnots v (lists.map (List.map (Annot.renumber r)))
  | .typeAnnots v as => .typeAnnots v (as.map (TypeAnnot.renumber r))
  | .annotDefault value => .annotDefault (value.renumber r)
  | .record components => .record (Component.renumberList components)
  | a => a

/-- Record components with their constants at other indexes. -/
def Component.renumberList : List Component → List Component
  | [] => []
  | ⟨name, descriptor, attributes⟩ :: rest =>
    ⟨name, descriptor, Attribute.renumberList attributes⟩ :: Component.renumberList rest

/-- The attributes of a record component with their constants at other indexes. -/
def Attribute.renumberList : List Attribute → List Attribute
  | [] => []
  | a :: rest => a.renumber :: Attribute.renumberList rest

end

/-- The record component with its constants at other indexes. -/
def Component.renumber (c : Component) : Component :=
  { c with attributes := c.attributes.map (Attribute.renumber r) }

/-- The element of a field or method with its constants at other indexes. -/
def MemberElement.renumber : MemberElement → MemberElement
  | .flags f => .flags f
  | .attr a => .attr (a.renumber r)

/-- The field or method with its constants at other indexes. -/
def Member.renumber (m : Member) : Member :=
  { m with elements := m.elements.map (MemberElement.renumber r) }

/-- The element with its constants at other indexes. -/
def Element.renumber : Element → Element
  | .field f => .field (f.renumber r)
  | .method m => .method (m.renumber r)
  | .attr a => .attr (a.renumber r)
  | e => e

theorem ElementValue.renumberMembers_eq (members : List (String × ElementValue)) :
    renumberMembers r members = members.map fun m => (m.1, m.2.renumber r) := by
  induction members with
  | nil => rfl
  | cons m members ih => rw [renumberMembers, ih, List.map_cons]

theorem ElementValue.renumberList_eq (values : List ElementValue) :
    renumberList r values = values.map (renumber r) := by
  induction values with
  | nil => rfl
  | cons v values ih => rw [renumberList, ih, List.map_cons]

theorem Attribute.renumberList_eq (as : List Attribute) :
    renumberList r as = as.map (renumber r) := by
  induction as with
  | nil => rfl
  | cons a as ih => rw [renumberList, ih, List.map_cons]

theorem Component.renumberList_eq (cs : List Component) :
    renumberList r cs = cs.map (renumber r) := by
  induction cs with
  | nil => rfl
  | cons c cs ih =>
    obtain ⟨name, descriptor, attributes⟩ := c
    rw [renumberList, ih, List.map_cons, renumber, Attribute.renumberList_eq]

end

/-! ### The indexes of constants -/

mutual

/-- The indexes of the constants of an attribute. -/
def Attribute.indexes : Attribute → List UInt16
  | .constantValue index => [index]
  | .record components => Component.indexesList components
  | a => a.constants.map Prod.snd

/-- The indexes of the constants of record components. -/
def Component.indexesList : List Component → List UInt16
  | [] => []
  | ⟨_, _, attributes⟩ :: rest => Attribute.indexesList attributes ++ Component.indexesList rest

/-- The indexes of the constants of the attributes of a record component. -/
def Attribute.indexesList : List Attribute → List UInt16
  | [] => []
  | a :: rest => a.indexes ++ Attribute.indexesList rest

end

theorem Attribute.indexesList_eq (as : List Attribute) :
    indexesList as = as.flatMap indexes := by
  induction as with
  | nil => rfl
  | cons a as ih => rw [indexesList, ih, List.flatMap_cons]

/-- The indexes of the constants of a record component. -/
def Component.indexes (c : Component) : List UInt16 := c.attributes.flatMap Attribute.indexes

theorem Component.indexesList_eq (cs : List Component) :
    indexesList cs = cs.flatMap indexes := by
  induction cs with
  | nil => rfl
  | cons c cs ih =>
    obtain ⟨name, descriptor, attributes⟩ := c
    rw [indexesList, ih, List.flatMap_cons, indexes, Attribute.indexesList_eq]

/-- The indexes of the constants of an element of a field or method. -/
def MemberElement.indexes : MemberElement → List UInt16
  | .flags _ => []
  | .attr a => a.indexes

/-- The indexes of the constants of a field or method. -/
def Member.indexes (m : Member) : List UInt16 := m.elements.flatMap MemberElement.indexes

/-- The indexes of the constants of an element. -/
def Element.indexes : Element → List UInt16
  | .field f => f.indexes
  | .method m => m.indexes
  | .attr a => a.indexes
  | _ => []

/-! ### Constants -/

/-- The kinds of entries that are constants by themselves. -/
def EntryKind.plain : List EntryKind := [integer, long, float, double, utf8]

/-- If the first index leads to a constant in the first pool, then the second index leads to the
same constant in the second pool.  A string is the same if its text is. -/
structure Pool.SameConstant (pool pool' : Pool) (index index' : UInt16) : Prop where
  plain : ∀ e, pool.entry? index = some e → e.kind ∈ EntryKind.plain → pool'.entry? index' = some e
  string : ∀ textIndex text, pool.entry? index = some (.string textIndex) →
    pool.HasText textIndex text →
    ∃ textIndex', pool'.entry? index' = some (.string textIndex') ∧ pool'.HasText textIndex' text

variable {pool pool' : Pool} {r : UInt16 → UInt16}

theorem Keeps.outlined {α : Type} {x y : Except FormatError α} (h : Keeps x y) :
    Keeps (outlined x) (outlined y) :=
  fun a ha => outlined_eq_ok_iff.mpr (h a (outlined_eq_ok_iff.mp ha))

/-- A look-up that is content with plain constants only. -/
theorem Pool.SameConstant.keeps_expect {index index' : UInt16}
    (h : pool.SameConstant pool' index index') {α : Type} (kind : EntryKind)
    {pick : Entry → Option α} (hkind : kind ∈ EntryKind.plain)
    (hpick : ∀ e, (pick e).map (fun _ => ()) = if e.kind = kind then some () else none) :
    Keeps (pool.expect kind pick index) (pool'.expect kind pick index') := by
  intro a ha
  obtain ⟨e, he, hpicked⟩ := expect_eq_ok_iff.mp ha
  have hekind : e.kind = kind := by
    by_contra hne
    have hnone := hpick e
    rw [hpicked, if_neg hne] at hnone
    nomatch hnone
  exact expect_eq_ok_iff.mpr ⟨e, h.plain e he (hekind ▸ hkind), hpicked⟩

/-- The numbers and texts in annotations. -/
theorem AnnotValue.keeps_ofConst {index index' : UInt16}
    (h : pool.SameConstant pool' index index') (tag : UInt8) :
    Keeps (ofConst pool tag index) (ofConst pool' tag index') := by
  have hinteger : Keeps (pool.integer index) (pool'.integer index') :=
    h.keeps_expect _ (by decide) fun e => by cases e <;> rfl
  have hlong : Keeps (pool.long index) (pool'.long index') :=
    h.keeps_expect _ (by decide) fun e => by cases e <;> rfl
  have hfloat : Keeps (pool.float index) (pool'.float index') :=
    h.keeps_expect _ (by decide) fun e => by cases e <;> rfl
  have hdouble : Keeps (pool.double index) (pool'.double index') :=
    h.keeps_expect _ (by decide) fun e => by cases e <;> rfl
  have hutf8 : Keeps (pool.utf8 index) (pool'.utf8 index') :=
    h.keeps_expect _ (by decide) fun e => by cases e <;> rfl
  unfold ofConst
  generalize ElementValue.tagChar tag = c
  split
  · exact (hinteger.andThen _).outlined
  · exact (hinteger.andThen _).outlined
  · exact (hinteger.andThen _).outlined
  · exact (hinteger.andThen _).outlined
  · exact (hinteger.andThen _).outlined
  · exact (hlong.andThen _).outlined
  · exact (hfloat.andThen _).outlined
  · exact (hdouble.andThen _).outlined
  · exact (hutf8.andThen _).outlined
  · exact .error _

/-- The constant values of fields. -/
theorem ConstantValue.keeps_ofPool {index index' : UInt16}
    (h : pool.SameConstant pool' index index') (field : String) :
    Keeps (ofPool pool field index) (ofPool pool' field index') := by
  intro value hvalue
  obtain ⟨e, he, hvalue⟩ := bind_eq_ok_iff.mp hvalue
  have hentry := Pool.entry_eq_ok_iff.mp (outlined_eq_ok_iff.mp he)
  have hok {e' : Entry} (he' : pool'.entry? index' = some e') :
      outlined (pool'.entry index') = .ok e' :=
    outlined_eq_ok_iff.mpr (Pool.entry_eq_ok_iff.mpr he')
  cases e with
  | integer _ | long _ | float _ | double _ =>
    have hentry' := hok (h.plain _ hentry (by dsimp only [Entry.kind]; decide))
    exact bind_eq_ok_iff.mpr ⟨_, hentry', hvalue⟩
  | string textIndex =>
    obtain ⟨text, htext, hvalue⟩ := bind_eq_ok_iff.mp hvalue
    have htext := Pool.utf8_eq_ok_iff.mp (outlined_eq_ok_iff.mp htext)
    obtain ⟨textIndex', hentry', htext'⟩ := h.string textIndex text hentry htext
    have htext' := outlined_eq_ok_iff.mpr (Pool.utf8_eq_ok_iff.mpr htext')
    exact bind_eq_ok_iff.mpr ⟨_, hok hentry', bind_eq_ok_iff.mpr ⟨text, htext', hvalue⟩⟩
  | _ => nomatch hvalue

/-! ### Annotations -/

/-- Along `r`, each of the indexes leads to the same constant. -/
def Pool.SameConstants (pool pool' : Pool) (r : UInt16 → UInt16) (indexes : List UInt16) : Prop :=
  ∀ index ∈ indexes, pool.SameConstant pool' index (r index)

theorem Pool.SameConstants.of_mem {α : Type} {f : α → List UInt16} {as : List α}
    (h : pool.SameConstants pool' r (as.flatMap f)) {a : α} (ha : a ∈ as) :
    pool.SameConstants pool' r (f a) :=
  fun index hindex => h index (List.mem_flatMap.mpr ⟨a, ha, hindex⟩)

theorem Annot.keeps_outline_of_members {a : Annot}
    (h : ∀ m ∈ a.members, Keeps (m.2.outline pool) ((m.2.renumber r).outline pool')) :
    Keeps (a.outline pool) ((a.renumber r).outline pool') := by
  obtain ⟨descriptor, members⟩ := a
  rw [Annot.outline_eq, Annot.outline_eq, Annot.renumber, ElementValue.renumberMembers_eq]
  exact .andThen (.mapM_map fun m hm => (h m hm).andThen _) _

/-- Values, by induction on the value. -/
theorem ElementValue.keeps_outline {v : ElementValue}
    (h : pool.SameConstants pool' r (v.constants.map Prod.snd)) :
    Keeps (v.outline pool) ((v.renumber r).outline pool') := by
  induction v using induct with
  | const tag index => exact AnnotValue.keeps_ofConst (h index (List.mem_singleton_self _)) tag
  | enumConst | classLit => exact .refl _
  | annot a ih =>
    rw [constants_annot, List.map_flatMap] at h
    rw [renumber, outline, outline]
    exact .andThen (Annot.keeps_outline_of_members fun m hm => ih m hm (h.of_mem hm)) _
  | array values ih =>
    rw [constants_array, List.map_flatMap] at h
    rw [renumber, outline, outline, outlineList_eq, outlineList_eq, renumberList_eq]
    exact .andThen (.mapM_map fun v hv => ih v hv (h.of_mem hv)) _

namespace Annot

theorem keeps_outline {a : Annot} (h : pool.SameConstants pool' r (a.constants.map Prod.snd)) :
    Keeps (a.outline pool) ((a.renumber r).outline pool') := by
  have hmembers : pool.SameConstants pool' r ((ElementValue.annot a).constants.map Prod.snd) := h
  rw [ElementValue.constants_annot, List.map_flatMap] at hmembers
  exact keeps_outline_of_members fun m hm => ElementValue.keeps_outline (hmembers.of_mem hm)

theorem keeps_outlineAll {as : List Annot}
    (h : pool.SameConstants pool' r ((as.flatMap constants).map Prod.snd)) :
    Keeps (outlineAll pool as) (outlineAll pool' (as.map (renumber r))) := by
  rw [List.map_flatMap] at h
  exact .mapM_map fun a ha => keeps_outline (h.of_mem ha)

end Annot

theorem TypeAnnot.keeps_outlineAll {as : List TypeAnnot}
    (h : pool.SameConstants pool' r ((as.flatMap fun a => a.annot.constants).map Prod.snd)) :
    Keeps (outlineAll pool as) (outlineAll pool' (as.map (renumber r))) := by
  have hmap : (as.map (renumber r)).map annot = (as.map annot).map (Annot.renumber r) := by
    rw [List.map_map, List.map_map]
    rfl
  rw [outlineAll, outlineAll, hmap]
  refine Annot.keeps_outlineAll ?_
  rw [List.flatMap_map]
  exact h

/-! ### Fields, methods and record components -/

theorem FieldParts.keeps_accept {field : String} (p : FieldParts) {e : MemberElement}
    (h : pool.SameConstants pool' r e.indexes) :
    Keeps (accept pool field p e).result (accept pool' field p (e.renumber r)).result := by
  cases e with
  | flags _ => exact .refl _
  | attr a =>
    cases a with
    | constantValue index =>
      exact (ConstantValue.keeps_ofPool (h index (List.mem_singleton_self _)) field).andThen _
    | annots v as => exact (Annot.keeps_outlineAll h).andThen _
    | _ => exact .refl _

theorem FieldOutline.keeps_ofMember {f : Member} (h : pool.SameConstants pool' r f.indexes) :
    Keeps (ofMember pool f).result (ofMember pool' (f.renumber r)).result := by
  rw [ofMember, ofMember, Logged.result_bind, Logged.result_bind, Logged.result_foldlM,
    Logged.result_foldlM]
  exact .andThen (.foldlM_map (fun e he p => p.keeps_accept (h.of_mem he)) _) _

theorem ParameterAnnots.keeps_outline {lists : List (List Annot)}
    (h : pool.SameConstants pool' r ((lists.flatten.flatMap Annot.constants).map Prod.snd))
    (map : Option ParameterAnnots) (position : Nat) :
    Keeps (outline pool map position lists)
      (outline pool' map position (lists.map (List.map (Annot.renumber r)))) := by
  induction lists generalizing map position with
  | nil => exact .refl _
  | cons as rest ih =>
    rw [List.flatten_cons, List.flatMap_append, List.map_append] at h
    have hrest : pool.SameConstants pool' r ((rest.flatten.flatMap Annot.constants).map Prod.snd) :=
      fun index hindex => h index (List.mem_append_right _ hindex)
    cases as with
    | nil => exact ih hrest map (position + 1)
    | cons a as =>
      refine Keeps.bind (Annot.keeps_outlineAll fun index hindex => ?_) fun os => ih hrest _ _
      exact h index (List.mem_append_left _ hindex)

theorem MethodParts.keeps_accept {scope : Scope} (p : MethodParts) {e : MemberElement}
    (h : pool.SameConstants pool' r e.indexes) :
    Keeps (accept pool scope p e).result (accept pool' scope p (e.renumber r)).result := by
  cases e with
  | flags _ => exact .refl _
  | attr a =>
    cases a with
    | annots v as => exact (Annot.keeps_outlineAll h).andThen _
    | parameterAnnots v lists => exact (ParameterAnnots.keeps_outline h _ 0).andThen _
    | annotDefault value => exact (ElementValue.keeps_outline h).andThen _
    | _ => exact .refl _

theorem MethodOutline.keeps_ofMember {m : Member} (h : pool.SameConstants pool' r m.indexes) :
    Keeps (ofMember pool m).result (ofMember pool' (m.renumber r)).result := by
  rw [ofMember, ofMember, Logged.result_bind, Logged.result_bind, Logged.result_foldlM,
    Logged.result_foldlM]
  exact .andThen (.foldlM_map (fun e he p => p.keeps_accept (h.of_mem he)) _) _

theorem ComponentParts.keeps_accept {scope : Scope} (p : ComponentParts) {a : Attribute}
    (h : pool.SameConstants pool' r a.indexes) :
    Keeps (accept pool scope p a).result (accept pool' scope p (a.renumber r)).result := by
  cases a with
  | annots v as => exact (Annot.keeps_outlineAll h).andThen _
  | typeAnnots v as => exact (TypeAnnot.keeps_outlineAll h).andThen _
  | _ => exact .refl _

theorem ComponentOutline.keeps_ofComponent {c : Component}
    (h : pool.SameConstants pool' r c.indexes) :
    Keeps (ofComponent pool c).result (ofComponent pool' (c.renumber r)).result := by
  rw [ofComponent, ofComponent, Logged.result_bind, Logged.result_bind, Logged.result_foldlM,
    Logged.result_foldlM]
  exact .andThen (.foldlM_map (fun a ha p => p.keeps_accept (h.of_mem ha)) _) _

/-! ### Classes -/

namespace HeaderParts

/-- The header with the constants of its annotations at other indexes. -/
def renumber (r : UInt16 → UInt16) (p : HeaderParts) : HeaderParts :=
  { p with
    visible := p.visible.map (List.map (Annot.renumber r))
    invisible := p.invisible.map (List.map (Annot.renumber r)) }

/-- The header takes in an element with other indexes as it takes in the element. -/
theorem result_accept_renumber {scope : Scope} (p : HeaderParts) (e : Element) :
    (accept scope (p.renumber r) (e.renumber r)).result =
      renumber r <$> (accept scope p e).result := by
  obtain ⟨flags, superName, interfaces, signature, visible, invisible⟩ := p
  cases e with
  | flags _ => cases flags <;> rfl
  | superclass _ => cases superName <;> rfl
  | interfaces _ => cases interfaces <;> rfl
  | field _ => rfl
  | method m =>
    rw [result_accept_method]
    exact result_accept_method _ _
  | attr a =>
    cases a with
    | signature _ => cases signature <;> rfl
    | annots v _ =>
      cases v with
      | visible => cases visible <;> rfl
      | invisible => cases invisible <;> rfl
    | _ => rfl

theorem result_foldlM_renumber {scope : Scope} (stream : List Element) (p : HeaderParts) :
    ((stream.map (Element.renumber r)).foldlM (accept scope) (p.renumber r)).result =
      renumber r <$> (stream.foldlM (accept scope) p).result := by
  rw [Logged.result_foldlM, Logged.result_foldlM]
  induction stream generalizing p with
  | nil => rfl
  | cons e stream ih =>
    rw [List.map_cons, List.foldlM_cons, List.foldlM_cons, result_accept_renumber, map_bind,
      bind_map_left]
    exact bind_congr fun q => ih q

end HeaderParts

namespace Element

variable {stream : List Element}

theorem methods_renumber : (stream.map (renumber r)).filterMap method? =
    (stream.filterMap method?).map (Member.renumber r) := by
  rw [List.filterMap_map, List.map_filterMap]
  congr 1
  funext e
  cases e with
  | method m =>
    show (if m.name = staticInitializer then none else some (m.renumber r)) =
      (if m.name = staticInitializer then none else some m).map _
    split <;> rfl
  | _ => rfl

theorem fields_renumber : (stream.map (renumber r)).filterMap field? =
    (stream.filterMap field?).map (Member.renumber r) := by
  rw [List.filterMap_map, List.map_filterMap]
  congr 1
  funext e
  cases e <;> rfl

theorem components_renumber : (stream.map (renumber r)).flatMap components =
    (stream.flatMap components).map (Component.renumber r) := by
  rw [List.flatMap_map, List.map_flatMap]
  congr 1
  funext e
  cases e with
  | attr a =>
    cases a with
    | record components => exact Component.renumberList_eq r components
    | _ => rfl
  | _ => rfl

theorem permitted_renumber :
    (stream.map (renumber r)).flatMap permitted = stream.flatMap permitted := by
  rw [List.flatMap_map]
  congr 1
  funext e
  cases e with
  | attr a => cases a <;> rfl
  | _ => rfl

theorem innerClasses_renumber :
    (stream.map (renumber r)).flatMap innerClasses = stream.flatMap innerClasses := by
  rw [List.flatMap_map]
  congr 1
  funext e
  cases e with
  | attr a => cases a <;> rfl
  | _ => rfl

end Element

/-- The constants of the record components of a stream are constants of it. -/
theorem Pool.SameConstants.components {stream : List Element}
    (h : pool.SameConstants pool' r (stream.flatMap Element.indexes)) {c : Component}
    (hc : c ∈ stream.flatMap Element.components) : pool.SameConstants pool' r c.indexes := by
  obtain ⟨e, he, hc⟩ := List.mem_flatMap.mp hc
  cases e with
  | attr a =>
    cases a with
    | record components =>
      have hrecord : pool.SameConstants pool' r (Component.indexesList components) := h.of_mem he
      rw [Component.indexesList_eq] at hrecord
      exact hrecord.of_mem hc
    | _ => nomatch hc
  | _ => nomatch hc

/-- The annotations in a place of a class, which are annotations of its stream. -/
theorem Annot.keeps_outlineOptional {stream : List Element}
    (h : pool.SameConstants pool' r (stream.flatMap Element.indexes)) {v : Visibility}
    {place : Option (List Annot)}
    (hplace : TakesOnce Eq none
      ((stream.filterMap Element.attr?).filterMap (Attribute.annots? v)) place) :
    Keeps (outlineOptional pool place)
      (outlineOptional pool' (place.map (List.map (renumber r)))) := by
  cases place with
  | none => exact .refl _
  | some as =>
    obtain ⟨_, hmem, rfl⟩ := hplace.exists_of_mem rfl
    exact keeps_outlineAll (h.of_mem (Element.annots_mem_of_mem_filterMap hmem))

namespace ClassOutline

variable {name : String} {stream : List Element}

theorem keeps_compose (h : pool.SameConstants pool' r (stream.flatMap Element.indexes)) :
    Keeps (compose name pool stream).result
      (compose name pool' (stream.map (Element.renumber r))).result := by
  have hmethod {m : Member} (hm : m ∈ stream.filterMap Element.method?) :
      pool.SameConstants pool' r m.indexes :=
    h.of_mem (Element.mem_methods_iff.mp hm).1
  have hfield {f : Member} (hf : f ∈ stream.filterMap Element.field?) :
      pool.SameConstants pool' r f.indexes :=
    h.of_mem (Element.mem_fields_iff.mp hf)
  have hheader : ((stream.map (Element.renumber r)).foldlM
      (HeaderParts.accept (.class name)) .empty).result = HeaderParts.renumber r <$>
        (stream.foldlM (HeaderParts.accept (.class name)) .empty).result :=
    HeaderParts.result_foldlM_renumber stream .empty
  simp only [compose, Logged.result_bind, Element.methods_renumber, Element.fields_renumber,
    Element.components_renumber, Element.permitted_renumber, Element.innerClasses_renumber,
    Logged.result_mapM]
  rw [hheader, bind_map_left]
  -- The header holds annotations as they are in the stream, so that their constants are known.
  refine Keeps.bind_of_ok (.refl _) fun header hok => .bind (.refl _) fun flags => ?_
  have htakes := HeaderParts.foldlM_eq_ok_iff.mp hok
  refine .bind (.mapM_map fun m hm => MethodOutline.keeps_ofMember (hmethod hm)) fun methods => ?_
  refine .bind (.mapM_map fun f hf => FieldOutline.keeps_ofMember (hfield hf)) fun fields => ?_
  refine .bind (Annot.keeps_outlineOptional h htakes.visible) fun visible => ?_
  refine .bind (Annot.keeps_outlineOptional h htakes.invisible) fun invisible => ?_
  refine .bind (.mapM_map fun c hc => ComponentOutline.keeps_ofComponent (h.components hc)) ?_
  exact fun components => .refl _

theorem keeps_ofElements (h : pool.SameConstants pool' r (stream.flatMap Element.indexes)) :
    Keeps (ofElements name pool stream).result
      (ofElements name pool' (stream.map (Element.renumber r))).result := by
  rw [ofElements, ofElements, Logged.result_bind, Logged.result_bind]
  refine .bind (.refl _) fun _ => ?_
  split
  · exact .refl _
  · rw [Logged.result_bind, Logged.result_bind]
    exact (keeps_compose h).andThen _

/-- **The numbers of constants do not matter.**  If the constants of a stream are in another pool at
other indexes, then the stream with these indexes has the same outline under that pool.  Under a
pool that only grew at its end, each attribute that could be decoded has the same contents. -/
theorem result_independent_of_numbering (pool pool' : Pool) :
    (∀ (r : UInt16 → UInt16) name stream,
      (∀ e ∈ stream, ∀ index ∈ Element.indexes e, pool.SameConstant pool' index (r index)) →
      ∀ c, (ofElements name pool stream).result = .ok c →
        (ofElements name pool' (stream.map (Element.renumber r))).result = .ok c) ∧
    (pool.Extends pool' →
      (∀ name body a, Attribute.decode pool name body = .ok a →
        Attribute.decode pool' name body = .ok a) ∧
      ∀ (stored : RawAttribute) a, stored.decode pool = .ok a → stored.decode pool' = .ok a) := by
  refine ⟨fun r name stream h => ?_, fun h => ⟨h.keeps_decode, h.keeps_decode_stored⟩⟩
  exact keeps_ofElements (List.forall_mem_flatMap.mpr h)

end ClassOutline

/-- A text, a string and a number. -/
def Pool.threeConstants : Pool := ⟨#[.utf8 "side", .string 1, .integer 7]⟩

/-- The same constants, and then once more at other indexes. -/
def Pool.sixConstants : Pool :=
  ⟨#[.utf8 "side", .string 1, .integer 7, .integer 7, .utf8 "side", .string 5]⟩

/-- The stream of a class with a constant field and an annotation. -/
def Element.constantStream : List Element :=
  [.flags ⟨0x0001⟩,
    .field ⟨"NAME", "Ljava/lang/String;", [.flags ⟨0x0018⟩, .attr (.constantValue 2)]⟩,
    .attr (.annots .visible [⟨"Lp/Mark;", [("at", .array [.const 0x49 3, .const 0x73 1])]⟩])]

theorem ClassOutline.result_independent_of_numbering_sample :
    Pool.threeConstants.Extends Pool.sixConstants ∧
      (∃ c, (ofElements "p.Shape" .threeConstants Element.constantStream).result = .ok c ∧
        (ofElements "p.Shape" .sixConstants (Element.constantStream.map
          (Element.renumber fun index => if index = 3 then 4 else index + 4))).result = .ok c) ∧
      ∃ a, Attribute.decode .threeConstants "Signature" [0, 1] = .ok a ∧
        Attribute.decode .sixConstants "Signature" [0, 1] = .ok a := by
  have htext : Pool.threeConstants.SameConstant .sixConstants 1 5 :=
    ⟨fun e he _ => by cases Option.some.inj he; rfl, fun _ _ he => nomatch Option.some.inj he⟩
  have hstring : Pool.threeConstants.SameConstant .sixConstants 2 6 := by
    refine ⟨fun e he hkind => ?_, fun textIndex text he htext => ?_⟩
    · cases Option.some.inj he
      exact absurd hkind (by decide)
    · cases Option.some.inj he
      exact ⟨5, rfl, htext⟩
  have hnumber : Pool.threeConstants.SameConstant .sixConstants 3 4 :=
    ⟨fun e he _ => by cases Option.some.inj he; rfl, fun _ _ he => nomatch Option.some.inj he⟩
  have hsame : ∀ index ∈ Element.constantStream.flatMap Element.indexes,
      Pool.threeConstants.SameConstant .sixConstants index
        (if index = 3 then 4 else index + 4) := by
    rintro index (_ | ⟨_, _ | ⟨_, _ | ⟨_, ⟨⟩⟩⟩⟩)
    · exact hstring
    · exact hnumber
    · exact htext
  have hextends : Pool.threeConstants.Extends .sixConstants :=
    ⟨[.integer 7, .utf8 "side", .string 5], rfl⟩
  obtain ⟨hnumbers, hdecode⟩ :=
    result_independent_of_numbering Pool.threeConstants Pool.sixConstants
  exact ⟨hextends, ⟨_, rfl, hnumbers _ _ _ (List.forall_mem_flatMap.mp hsame) _ rfl⟩, _, rfl,
    (hdecode hextends).1 _ _ _ rfl⟩

end JvmOutline
