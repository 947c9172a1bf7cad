import JvmOutline.Proofs.Assembly.ClassFile
import JvmOutline.Proofs.ClassFile.Elements
import JvmOutline.Proofs.Outline.Declarations

/-!
# Outlining what a draft says

A stream that says what a draft says has the outline of the draft.  The views on the stream answer
as those on the draft do, attribute by attribute, so each place takes what the draft has for it
(`MemberDraft.result_ofMember_field`, `MemberDraft.result_ofMember_method`,
`ComponentDraft.result_ofComponent`, **`ClassDraft.result_compose`**).
-/

namespace JvmOutline

variable {pool : Pool}

/-! ### Places for related streams -/

section

variable {α β δ : Type} {Found : α → β → Prop} {as : List α} {ds : List δ}

theorem takesOnce_head (h : as.length ≤ 1) : TakesOnce Eq none as as.head? := by
  match as, h with
  | [], _ => rfl
  | [a], _ => exact ⟨rfl, rfl, a, rfl, rfl⟩

/-- A place takes what is found for the only part, if there is one. -/
theorem takesOnce_of_forall₂ {pick : δ → Option β}
    (h : List.Forall₂ (fun d a => ∃ b, pick d = some b ∧ Found a b) ds as) (hn : ds.length ≤ 1) :
    TakesOnce Found none as (ds.head?.bind pick) := by
  cases h with
  | nil => rfl
  | cons h hs =>
    obtain ⟨b, hb, hfound⟩ := h
    cases hs with
    | nil => exact ⟨rfl, rfl, b, hfound, hb⟩
    | cons _ _ => exact absurd hn (by simp)

theorem takesOnce_map {f : δ → β} (h : List.Forall₂ (fun d a => Found a (f d)) ds as)
    (hn : ds.length ≤ 1) : TakesOnce Found none as (ds.head?.map f) := by
  rw [Option.map_eq_bind]
  exact takesOnce_of_forall₂ (h.imp fun d a hd => ⟨f d, rfl, hd⟩) hn

/-- A place gathers what is found for all parts. -/
theorem gathers_of_forall₂ {Found : α → List β → Prop} {f : δ → List β}
    (h : List.Forall₂ (fun d a => Found a (f d)) ds as) (place : Option (List β)) :
    Gathers Found place as
      (if ds.isEmpty then place else some (place.getD [] ++ ds.flatMap f)) := by
  induction h generalizing place with
  | nil => rfl
  | @cons d a ds as hd h ih =>
    refine ⟨f d, hd, ?_⟩
    have hrest := ih (some (place.getD [] ++ f d))
    rw [List.isEmpty_cons, if_neg Bool.false_ne_true, List.flatMap_cons, ← List.append_assoc]
    cases ds with
    | nil => rwa [List.flatMap_nil, List.append_nil]
    | cons d' ds => exact hrest

end

/-! ### Views on a draft and on what says the same -/

namespace AttributeDraft

variable {a : AttributeDraft} {x : Attribute}

theorem Says.rel_signature (h : a.Says pool x) : Option.Rel Eq a.signature? x.signature? := by
  cases h with
  | signature text => exact .some rfl
  | _ => exact .none

theorem Says.rel_constant (h : a.Says pool x) :
    Option.Rel (fun c index => c.IsAt pool index) a.constant? x.constantIndex? := by
  cases h with
  | constant h => exact .some h
  | _ => exact .none

theorem Says.rel_annots (v : Visibility) (h : a.Says pool x) :
    Option.Rel (List.Forall₂ (AnnotDraft.Says pool)) (a.annots? v) (x.annots? v) := by
  cases h with
  | visibleAnnots h => cases v with
    | visible => exact .some h
    | invisible => exact .none
  | invisibleAnnots h => cases v with
    | visible => exact .none
    | invisible => exact .some h
  | _ => cases v <;> exact .none

theorem Says.rel_anyAnnots (h : a.Says pool x) :
    Option.Rel (List.Forall₂ (AnnotDraft.Says pool)) a.anyAnnots? x.anyAnnots? := by
  cases h with
  | visibleAnnots h | invisibleAnnots h => exact .some h
  | _ => exact .none

theorem Says.rel_anyTypeAnnots (h : a.Says pool x) :
    Option.Rel (fun as bs => List.Forall₂ (AnnotDraft.Says pool) as (bs.map TypeAnnot.annot))
      a.anyTypeAnnots? x.anyTypeAnnots? := by
  cases h with
  | visibleTypeAnnots h | invisibleTypeAnnots h =>
    exact .some (List.forall₂_map_left_iff.mpr (List.forall₂_map_right_iff.mpr h))
  | _ => exact .none

theorem Says.rel_parameterAnnots (h : a.Says pool x) :
    Option.Rel (List.Forall₂ (List.Forall₂ (AnnotDraft.Says pool))) a.parameterAnnots?
      x.parameterAnnots? := by
  cases h with
  | visibleParameterAnnots h | invisibleParameterAnnots h => exact .some h
  | _ => exact .none

theorem Says.rel_parameters (h : a.Says pool x) :
    Option.Rel (fun as bs => bs.map Parameter.name = as.map Prod.fst) a.parameters?
      x.parameters? := by
  cases h with
  | methodParameters ps => exact .some (List.map_map ..)
  | _ => exact .none

theorem Says.rel_default (h : a.Says pool x) :
    Option.Rel (fun value e => e.outline pool = .ok value.outline) a.default? x.default? := by
  cases h with
  | annotDefault h => exact .some h
  | _ => exact .none

theorem Says.eq_exceptionNames (h : a.Says pool x) : a.exceptionNames = x.exceptionNames := by
  cases h <;> rfl

theorem Says.eq_permittedNames (h : a.Says pool x) : a.permittedNames = x.permittedNames := by
  cases h <;> rfl

theorem Says.eq_nestedRows (h : a.Says pool x) :
    (a.innerRows.map fun row => ⟨row.inner, row.outer, row.simpleName, row.flags⟩) =
      x.nestedRows := by
  cases h <;> rfl

theorem Says.rel_components (h : a.Says pool x) :
    List.Forall₂ (ComponentDraft.Says pool) a.components x.recordComponents := by
  cases h with
  | record h => exact h
  | _ => exact .nil

end AttributeDraft

/-- A step for each item of a list succeeds, when it does for each item that is related to one of
another list. -/
theorem Logged.result_mapM_of_forall₂ {α β δ : Type} {R : δ → α → Prop} {f : α → Logged β}
    {g : δ → β} {ds : List δ} {as : List α} (h : List.Forall₂ R ds as)
    (hf : ∀ d ∈ ds, ∀ a, R d a → (f a).result = .ok (g d)) :
    (as.mapM f).result = .ok (ds.map g) := by
  rw [Logged.result_mapM]
  induction h with
  | nil => rfl
  | cons h _ ih =>
    rw [List.forall_mem_cons] at hf
    rw [List.mapM_cons, hf.1 _ h, ih hf.2]
    rfl

/-- Lists that are read off related items one by one. -/
theorem flatMap_eq_of_forall₂ {α β γ : Type} {R : α → β → Prop} {f : α → List γ} {g : β → List γ}
    {as : List α} {bs : List β} (h : List.Forall₂ R as bs) (hfg : ∀ a b, R a b → f a = g b) :
    as.flatMap f = bs.flatMap g := by
  induction h with
  | nil => rfl
  | cons h _ ih => rw [List.flatMap_cons, List.flatMap_cons, hfg _ _ h, ih]

/-! ### Annotations and constants -/

theorem AnnotDraft.outlinedAs {as : List AnnotDraft} {bs : List Annot}
    (h : List.Forall₂ (AnnotDraft.Says pool) as bs) :
    Annot.OutlinedAs pool bs (as.map AnnotDraft.outline) :=
  (mapM_eq_ok_iff fun _ _ _ => Iff.rfl).mpr (List.forall₂_map_right_iff.mpr h.flip)

theorem AnnotDraft.forall₂_outlinedAs {as : List (List AnnotDraft)} {bs : List (List Annot)}
    (h : List.Forall₂ (List.Forall₂ (AnnotDraft.Says pool)) as bs) :
    List.Forall₂ (Annot.OutlinedAs pool) bs (as.map (List.map AnnotDraft.outline)) := by
  induction h with
  | nil => exact .nil
  | cons h _ ih => exact .cons (AnnotDraft.outlinedAs h) ih

theorem ConstantDraft.ofPool_eq {c : ConstantDraft} {index : UInt16} (h : c.IsAt pool index)
    {value : ConstantValue} (hc : c.value? = some value) (field : String) :
    ConstantValue.ofPool pool field index = .ok value := by
  refine ConstantValue.ofPool_eq_ok_iff.mpr ?_
  cases c with
  | int =>
    cases hc
    exact .int h
  | long =>
    cases hc
    exact .long h
  | float =>
    cases hc
    exact .float h
  | double =>
    cases hc
    exact .double h
  | string text =>
    cases hc
    obtain ⟨_, h, htext⟩ := h
    exact .string h htext
  | classRef name => nomatch hc

theorem ComponentDraft.signature_of_mem {cs : List ComponentDraft}
    (h : ComponentDraft.fitAll cs = true) {c : ComponentDraft} (hc : c ∈ cs) :
    AttributeDraft.atMostOne AttributeDraft.signature? c.attributes = true := by
  induction cs with
  | nil => nomatch hc
  | cons d cs ih =>
    obtain ⟨name, descriptor, as⟩ := d
    obtain ⟨-, h⟩ := Bool.and_eq_true_iff.mp h
    obtain ⟨-, h⟩ := Bool.and_eq_true_iff.mp h
    obtain ⟨hd, hrest⟩ := Bool.and_eq_true_iff.mp h
    rcases List.mem_cons.mp hc with rfl | hc
    · exact hd
    · exact ih hrest hc

namespace AttributeDraft

variable {as : List AttributeDraft} {xs : List Attribute}

/-- The answers of related views on related attributes are related. -/
theorem forall₂_filterMap {α β : Type} {R : α → β → Prop} {pick : AttributeDraft → Option α}
    {pick' : Attribute → Option β}
    (hpick : ∀ {a x}, Says pool a x → Option.Rel R (pick a) (pick' x))
    (h : List.Forall₂ (Says pool) as xs) :
    List.Forall₂ R (as.filterMap pick) (xs.filterMap pick') :=
  List.rel_filterMap (fun _ _ hs => hpick hs) h

/-- Whether at most one attribute has an answer is a bound on the number of answers. -/
theorem length_le_one {α : Type} {pick : AttributeDraft → Option α}
    (h : atMostOne pick as = true) : (as.filterMap pick).length ≤ 1 := of_decide_eq_true h

theorem takesOnce_signature (h : List.Forall₂ (Says pool) as xs)
    (hn : atMostOne AttributeDraft.signature? as = true) :
    TakesOnce Eq none (xs.filterMap Attribute.signature?) (as.filterMap signature?).head? := by
  have heq : as.filterMap signature? = xs.filterMap Attribute.signature? := by
    rw [← List.forall₂_eq_eq_eq]
    exact forall₂_filterMap Says.rel_signature h
  rw [← heq]
  exact takesOnce_head (length_le_one hn)

theorem takesOnce_annots (v : Visibility) (h : List.Forall₂ (Says pool) as xs)
    (hn : atMostOne (AttributeDraft.annots? v) as = true) :
    TakesOnce (Annot.OutlinedAs pool) none (xs.filterMap (Attribute.annots? v))
      ((as.filterMap (annots? v)).head?.map (List.map AnnotDraft.outline)) :=
  takesOnce_map ((forall₂_filterMap (Says.rel_annots v) h).imp fun _ _ => AnnotDraft.outlinedAs)
    (length_le_one hn)

/-- The only list is all there is. -/
theorem head_getD {α β : Type} {f : α → β} {lists : List (List α)} (h : lists.length ≤ 1) :
    (lists.head?.map (List.map f)).getD [] = lists.flatten.map f := by
  match lists, h with
  | [], _ => rfl
  | [as], _ => exact congrArg (List.map f) (List.append_nil as).symm

/-- A place gathers what all attributes hold, item by item. -/
theorem gathers_says {α β γ : Type} {R : List α → β → Prop} {Found : β → List γ → Prop} {f : α → γ}
    {pick : AttributeDraft → Option (List α)} {pick' : Attribute → Option β}
    (hpick : ∀ {a x}, Says pool a x → Option.Rel R (pick a) (pick' x))
    (hfound : ∀ items b, R items b → Found b (items.map f))
    (h : List.Forall₂ (Says pool) as xs) :
    Gathers Found none (xs.filterMap pick') ((gather pick as).map (List.map f)) := by
  have hg := gathers_of_forall₂ ((forall₂_filterMap hpick h).imp hfound) none
  rw [gather]
  cases hf : as.filterMap pick with
  | nil => rwa [hf] at hg
  | cons found rest =>
    rw [hf, List.flatMap_def, ← List.map_flatten] at hg
    exact hg

/-! ### Parameters -/

theorem fits_of_mem (h : fitAll as = true) {a : AttributeDraft} (ha : a ∈ as) :
    a.fits = true := by
  induction as with
  | nil => nomatch ha
  | cons b as ih =>
    obtain ⟨hb, hrest⟩ := Bool.and_eq_true_iff.mp h
    rcases List.mem_cons.mp ha with rfl | ha
    · exact hb
    · exact ih hrest ha

/-- No record component has more than one signature. -/
theorem signature_of_mem_components {a : AttributeDraft} (h : a.fits = true) {c : ComponentDraft}
    (hc : c ∈ a.components) : atMostOne signature? c.attributes = true := by
  cases a with
  | record cs => exact ComponentDraft.signature_of_mem (Bool.and_eq_true_iff.mp h).2 hc
  | _ => nomatch hc

/-- No attribute counts more parameters than there are positions. -/
theorem length_parameterAnnots (h : fitAll as = true) {lists : List (List AnnotDraft)}
    (hl : lists ∈ as.filterMap parameterAnnots?) : lists.length ≤ 256 := by
  obtain ⟨a, ha, hlists⟩ := List.mem_filterMap.mp hl
  have hfits := fits_of_mem h ha
  cases a with
  | visibleParameterAnnots | invisibleParameterAnnots =>
    cases hlists
    exact Nat.le_of_lt (fits1_iff.mp hfits).1
  | _ => nomatch hlists

/-- Outlining puts in the annotations of one attribute after those of the other. -/
theorem outline_parameterAnnots {ds : List (List (List AnnotDraft))}
    {bs : List (List (List Annot))}
    (h : List.Forall₂ (List.Forall₂ (List.Forall₂ (AnnotDraft.Says pool))) ds bs)
    (map : Option ParameterAnnots) :
    bs.foldlM (fun map as => ParameterAnnots.outline pool map 0 as) map =
      .ok ((ds.map (List.map (List.map AnnotDraft.outline))).foldl
        (fun map lists => ParameterAnnots.put map 0 lists) map) := by
  induction h generalizing map with
  | nil => rfl
  | cons h _ ih =>
    rw [List.foldlM_cons,
      ParameterAnnots.outline_eq_ok_iff.mpr ⟨_, AnnotDraft.forall₂_outlinedAs h, rfl⟩]
    exact ih _

theorem outline_parameters (h : List.Forall₂ (Says pool) as xs) (hfits : fitAll as = true) :
    (xs.filterMap Attribute.parameterAnnots?).foldlM
      (fun map as => ParameterAnnots.outline pool map 0 as) none =
        .ok (outlineParameters as) := by
  rw [outline_parameterAnnots (forall₂_filterMap Says.rel_parameterAnnots h),
    ParameterAnnots.putAll_eq, outlineParameters]
  · refine congrArg (fun f => Except.ok (ParameterAnnots.ofPositions 256 f)) (funext fun p => ?_)
    rw [annotsAt, List.flatMap_map]
    refine congrArg (fun f => List.flatMap f _) (funext fun lists => ?_)
    rw [List.getElem?_map]
    cases lists[p]? <;> rfl
  · intro lists hl
    obtain ⟨drafts, hdrafts, rfl⟩ := List.mem_map.mp hl
    rw [List.length_map]
    exact length_parameterAnnots hfits hdrafts

end AttributeDraft

/-! ### Members -/

namespace MemberDraft

/-- What the places that fields and methods share have for a draft. -/
def shared (m : MemberDraft) : SharedParts where
  flags := some m.flags
  signature := (m.attributes.filterMap AttributeDraft.signature?).head?
  visible := (m.attributes.filterMap (AttributeDraft.annots? .visible)).head?.map
    (List.map AnnotDraft.outline)
  invisible := (m.attributes.filterMap (AttributeDraft.annots? .invisible)).head?.map
    (List.map AnnotDraft.outline)

variable {m : MemberDraft} {xs : List Attribute}

theorem filterMap_attr (f : AccessFlags) (xs : List Attribute) :
    (MemberElement.flags f :: xs.map .attr).filterMap MemberElement.attr? = xs := by
  rw [List.filterMap_cons_none rfl, List.filterMap_map]
  exact List.filterMap_some

theorem takes_shared (h : List.Forall₂ (AttributeDraft.Says pool) m.attributes xs)
    (hm : m.sharedOnce = true) :
    SharedParts.Takes pool (.flags m.flags :: xs.map .attr) .empty m.shared := by
  obtain ⟨hsignature, hm⟩ := Bool.and_eq_true_iff.mp hm
  obtain ⟨hvisible, hinvisible⟩ := Bool.and_eq_true_iff.mp hm
  have hattr := filterMap_attr m.flags xs
  have hflags : (MemberElement.flags m.flags :: xs.map .attr).filterMap MemberElement.flags? =
      [m.flags] := by
    rw [List.filterMap_cons, List.filterMap_map]
    exact congrArg _ (List.filterMap_eq_nil_iff.mpr fun _ _ => rfl)
  refine ⟨?_, ?_, ?_, ?_⟩
  · rw [hflags]
    exact ⟨rfl, rfl, m.flags, rfl, rfl⟩
  · rw [hattr]
    exact AttributeDraft.takesOnce_signature h hsignature
  · rw [hattr]
    exact AttributeDraft.takesOnce_annots .visible h hvisible
  · rw [hattr]
    exact AttributeDraft.takesOnce_annots .invisible h hinvisible

theorem annots_shared (hm : m.sharedOnce = true) :
    m.shared.annots = AttributeDraft.outlineAnnots m.attributes := by
  obtain ⟨-, hm⟩ := Bool.and_eq_true_iff.mp hm
  obtain ⟨hvisible, hinvisible⟩ := Bool.and_eq_true_iff.mp hm
  rw [SharedParts.annots, AttributeDraft.outlineAnnots, List.map_append]
  congr 1
  · exact AttributeDraft.head_getD (AttributeDraft.length_le_one hvisible)
  · exact AttributeDraft.head_getD (AttributeDraft.length_le_one hinvisible)

/-- **Fields.** -/
theorem result_ofMember_field {f : MemberDraft} {member : Member} (h : f.Says pool member)
    (hf : f.fitsField = true) :
    (FieldOutline.ofMember pool member).result = .ok f.outlineField := by
  obtain @⟨xs, h⟩ := h
  obtain ⟨hf, hconstant⟩ := Bool.and_eq_true_iff.mp hf
  obtain ⟨-, hshared⟩ := Bool.and_eq_true_iff.mp hf
  obtain ⟨hn, hvalues⟩ := Bool.and_eq_true_iff.mp hconstant
  have htakes : FieldParts.Takes pool f.name (.flags f.flags :: xs.map .attr) ⟨.empty, none⟩
      ⟨f.shared, (f.attributes.filterMap AttributeDraft.constant?).head?.bind
        ConstantDraft.value?⟩ := by
    refine ⟨takes_shared h hshared, ?_⟩
    rw [filterMap_attr]
    refine takesOnce_of_forall₂ ?_ (AttributeDraft.length_le_one hn)
    -- That each constant has a value is known of the draft, and where it is of the pool.
    have hall := (List.forall₂_and_left _ _).mpr ⟨List.all_eq_true.mp hvalues,
      AttributeDraft.forall₂_filterMap AttributeDraft.Says.rel_constant h⟩
    refine hall.imp fun c index ⟨hc, hat⟩ => ?_
    obtain ⟨value, hvalue⟩ := Option.isSome_iff_exists.mp hc
    exact ⟨value, hvalue, c.ofPool_eq hat hvalue f.name⟩
  refine Logged.result_bind_eq_ok_iff.mpr ⟨_, FieldParts.foldlM_eq_ok_iff.mpr htakes, ?_⟩
  refine Logged.result_bind_eq_ok_iff.mpr ⟨f.flags, rfl, ?_⟩
  refine congrArg Except.ok ?_
  rw [outlineField, ← annots_shared hshared]
  rfl

/-- **Methods.** -/
theorem result_ofMember_method {member : Member} (h : m.Says pool member)
    (hm : m.fitsMethod = true) :
    (MethodOutline.ofMember pool member).result = .ok m.outlineMethod := by
  obtain @⟨xs, h⟩ := h
  obtain ⟨hm, hdefault⟩ := Bool.and_eq_true_iff.mp hm
  obtain ⟨hfits, hshared⟩ := Bool.and_eq_true_iff.mp hm
  obtain ⟨-, hfits⟩ := Bool.and_eq_true_iff.mp hfits
  obtain ⟨-, hfits⟩ := Bool.and_eq_true_iff.mp hfits
  have htakes : MethodParts.Takes pool (.flags m.flags :: xs.map .attr)
      ⟨.empty, [], none, none, none⟩
      ⟨m.shared, (m.attributes.flatMap AttributeDraft.exceptionNames).map ClassName.qualified,
        AttributeDraft.outlineParameters m.attributes,
        (AttributeDraft.gather AttributeDraft.parameters? m.attributes).map (List.map Prod.fst),
        (m.attributes.filterMap AttributeDraft.default?).head?.map ValueDraft.outline⟩ := by
    refine ⟨takes_shared h hshared, ?_, ?_, ?_, ?_⟩
    all_goals rw [filterMap_attr]
    · rw [List.nil_append,
        flatMap_eq_of_forall₂ h fun _ _ => AttributeDraft.Says.eq_exceptionNames]
    · exact AttributeDraft.outline_parameters h hfits
    · exact AttributeDraft.gathers_says AttributeDraft.Says.rel_parameters (fun _ _ hs => hs) h
    · exact takesOnce_map (AttributeDraft.forall₂_filterMap AttributeDraft.Says.rel_default h)
        (AttributeDraft.length_le_one hdefault)
  refine Logged.result_bind_eq_ok_iff.mpr ⟨_, MethodParts.foldlM_eq_ok_iff.mpr htakes, ?_⟩
  refine Logged.result_bind_eq_ok_iff.mpr ⟨m.flags, rfl, ?_⟩
  refine congrArg Except.ok ?_
  rw [outlineMethod, ← annots_shared hshared]
  rfl

end MemberDraft

/-! ### Record components -/

namespace ComponentDraft

/-- **Record components.** -/
theorem result_ofComponent {c : ComponentDraft} {component : Component}
    (h : c.Says pool component)
    (hc : AttributeDraft.atMostOne AttributeDraft.signature? c.attributes = true) :
    (ComponentOutline.ofComponent pool component).result = .ok c.outline := by
  obtain @⟨_, _, as, xs, h⟩ := h
  have htakes : ComponentParts.Takes pool xs ⟨none, none, none⟩
      ⟨(as.filterMap AttributeDraft.signature?).head?,
        (AttributeDraft.gather AttributeDraft.anyAnnots? as).map (List.map AnnotDraft.outline),
        (AttributeDraft.gather AttributeDraft.anyTypeAnnots? as).map
          (List.map AnnotDraft.outline)⟩ := {
    signature := AttributeDraft.takesOnce_signature h hc
    annots := AttributeDraft.gathers_says AttributeDraft.Says.rel_anyAnnots
      (fun _ _ => AnnotDraft.outlinedAs) h
    typeAnnots := AttributeDraft.gathers_says AttributeDraft.Says.rel_anyTypeAnnots
      (fun _ _ => AnnotDraft.outlinedAs) h }
  exact Logged.result_bind_eq_ok_iff.mpr ⟨_, ComponentParts.foldlM_eq_ok_iff.mpr htakes, rfl⟩

end ComponentDraft

/-! ### Classes -/

namespace ClassDraft

variable {d : ClassDraft} {fields methods : List Member} {xs : List Attribute}

theorem filterMap_stream {α : Type} (pick : Element → Option α) :
    (d.stream fields methods xs).filterMap pick = (pick (.flags d.flags)).toList ++
      d.superName.toList.filterMap (pick ∘ .superclass) ++
        (pick (.interfaces d.interfaces)).toList ++ fields.filterMap (pick ∘ .field) ++
          methods.filterMap (pick ∘ .method) ++ xs.filterMap (pick ∘ .attr) :=
  Element.filterMap_stream ..

theorem flags_stream : (d.stream fields methods xs).filterMap Element.flags? = [d.flags] := by
  simp [filterMap_stream, Function.comp_def, Element.flags?]

theorem superName_stream : (d.stream fields methods xs).filterMap Element.superName? =
    (d.superName.map ClassName.qualified).toList := by
  simp [filterMap_stream, Function.comp_def, Element.superName?, Option.toList_map]

theorem interfaceNames_stream : (d.stream fields methods xs).filterMap Element.interfaceNames? =
    [d.interfaces.map ClassName.qualified] := by
  simp [filterMap_stream, Function.comp_def, Element.interfaceNames?]

theorem attr_stream : (d.stream fields methods xs).filterMap Element.attr? = xs := by
  simp [filterMap_stream, Function.comp_def, Element.attr?]

theorem field_stream : (d.stream fields methods xs).filterMap Element.field? = fields := by
  simp [filterMap_stream, Function.comp_def, Element.field?]

theorem method_stream : (d.stream fields methods xs).filterMap Element.method? =
    methods.filter fun m => m.name ≠ staticInitializer := by
  have hguard : Element.method? ∘ Element.method =
      Option.guard fun m => decide (m.name ≠ staticInitializer) := by
    funext m
    by_cases hm : m.name = staticInitializer <;>
      simp [Option.guard, Function.comp_apply, Element.method?, hm]
  rw [filterMap_stream, hguard, List.filterMap_eq_filter]
  simp [Function.comp_def, Element.method?]

/-- What the places of a class have for a draft, whose attributes are these. -/
def header (d : ClassDraft) (xs : List Attribute) : HeaderParts where
  flags := some d.flags
  superName := d.superName.map ClassName.qualified
  interfaces := some (d.interfaces.map ClassName.qualified)
  signature := (d.attributes.filterMap AttributeDraft.signature?).head?
  visible := (xs.filterMap (Attribute.annots? .visible)).head?
  invisible := (xs.filterMap (Attribute.annots? .invisible)).head?

theorem takes_header (h : List.Forall₂ (AttributeDraft.Says pool) d.attributes xs)
    (hsignature : AttributeDraft.atMostOne AttributeDraft.signature? d.attributes = true)
    (hannots : ∀ v, AttributeDraft.atMostOne (AttributeDraft.annots? v) d.attributes = true) :
    HeaderParts.Takes (d.stream fields methods xs) .empty (d.header xs) := by
  have hlength (v : Visibility) : (xs.filterMap (Attribute.annots? v)).length ≤ 1 := by
    rw [← (AttributeDraft.forall₂_filterMap (AttributeDraft.Says.rel_annots v) h).length_eq]
    exact AttributeDraft.length_le_one (hannots v)
  refine ⟨?_, ?_, ?_, ?_, ?_, ?_⟩
  · rw [flags_stream]
    exact takesOnce_head (Nat.le_refl 1)
  · rw [superName_stream]
    cases hs : d.superName with
    | none => rw [header, hs]; rfl
    | some name => rw [header, hs]; exact takesOnce_head (Nat.le_refl 1)
  · rw [interfaceNames_stream]
    exact takesOnce_head (Nat.le_refl 1)
  · rw [attr_stream]
    exact AttributeDraft.takesOnce_signature h hsignature
  · rw [attr_stream]
    exact takesOnce_head (hlength .visible)
  · rw [attr_stream]
    exact takesOnce_head (hlength .invisible)

/-- The annotations of the only attribute of a visibility are outlined. -/
theorem outlineOptional_eq (v : Visibility)
    (h : List.Forall₂ (AttributeDraft.Says pool) d.attributes xs)
    (hn : AttributeDraft.atMostOne (AttributeDraft.annots? v) d.attributes = true) :
    Annot.outlineOptional pool (xs.filterMap (Attribute.annots? v)).head? =
      .ok ((d.attributes.filterMap (AttributeDraft.annots? v)).flatten.map AnnotDraft.outline) := by
  have hrel := AttributeDraft.forall₂_filterMap (AttributeDraft.Says.rel_annots v) h
  rw [← AttributeDraft.head_getD (AttributeDraft.length_le_one hn)]
  -- What follows the first list does not matter: there is at most one.
  generalize d.attributes.filterMap _ = ds, xs.filterMap _ = bs at hrel
  cases hrel with
  | nil => rfl
  | cons has _ => exact AnnotDraft.outlinedAs has

theorem result_methods (h : List.Forall₂ (MemberDraft.Says pool) d.methods methods)
    (hm : ∀ m ∈ d.methods, (m.name = staticInitializer || m.fitsMethod) = true) :
    (((d.stream fields methods xs).filterMap Element.method?).mapM
      (MethodOutline.ofMember pool)).result =
        .ok ((d.methods.filter fun m => m.name ≠ staticInitializer).map
          MemberDraft.outlineMethod) := by
  rw [method_stream]
  have hfilter : List.Forall₂ (MemberDraft.Says pool)
      (d.methods.filter fun m => m.name ≠ staticInitializer)
      (methods.filter fun m => m.name ≠ staticInitializer) := by
    refine List.rel_filter ?_ h
    rintro m _ ⟨⟩
    rfl
  refine Logged.result_mapM_of_forall₂ hfilter fun m hmem member hs =>
    MemberDraft.result_ofMember_method hs ?_
  obtain ⟨hmem, hname⟩ := List.mem_filter.mp hmem
  rcases Bool.or_eq_true_iff.mp (hm m hmem) with h | h
  · exact absurd (of_decide_eq_true h) (of_decide_eq_true hname)
  · exact h

theorem result_fields (h : List.Forall₂ (MemberDraft.Says pool) d.fields fields)
    (hf : ∀ f ∈ d.fields, f.fitsField = true) :
    (((d.stream fields methods xs).filterMap Element.field?).mapM
      (FieldOutline.ofMember pool)).result = .ok (d.fields.map MemberDraft.outlineField) := by
  rw [field_stream]
  exact Logged.result_mapM_of_forall₂ h fun f hmem _ hs =>
    MemberDraft.result_ofMember_field hs (hf f hmem)

theorem result_components (h : List.Forall₂ (AttributeDraft.Says pool) d.attributes xs)
    (hd : AttributeDraft.fitAll d.attributes = true) :
    (((d.stream fields methods xs).flatMap Element.components).mapM
      (ComponentOutline.ofComponent pool)).result =
        .ok ((d.attributes.flatMap AttributeDraft.components).map ComponentDraft.outline) := by
  rw [Element.flatMap_components, attr_stream]
  have hrel := List.rel_flatMap h fun _ _ => AttributeDraft.Says.rel_components
  refine Logged.result_mapM_of_forall₂ hrel fun c hmem component hs =>
    ComponentDraft.result_ofComponent hs ?_
  obtain ⟨a, ha, hmem⟩ := List.mem_flatMap.mp hmem
  exact AttributeDraft.signature_of_mem_components (AttributeDraft.fits_of_mem hd ha) hmem

theorem permitted_stream (h : List.Forall₂ (AttributeDraft.Says pool) d.attributes xs) :
    (d.stream fields methods xs).flatMap Element.permitted =
      (d.attributes.flatMap AttributeDraft.permittedNames).map ClassName.qualified := by
  rw [Element.flatMap_permitted, attr_stream,
    flatMap_eq_of_forall₂ h fun _ _ => AttributeDraft.Says.eq_permittedNames]

theorem innerFlags_stream (h : List.Forall₂ (AttributeDraft.Says pool) d.attributes xs) :
    InnerClass.flagsOf? (ClassName.qualified d.name)
      ((d.stream fields methods xs).flatMap Element.innerClasses) = d.innerFlags := by
  rw [Element.flatMap_innerClasses, attr_stream,
    ← flatMap_eq_of_forall₂ h fun _ _ => AttributeDraft.Says.eq_nestedRows, ← List.map_flatMap,
    InnerClass.flagsOf?, List.find?_map, Option.map_map]
  rfl

/-- **Classes.** -/
theorem result_compose {elements : List Element} (h : d.Says pool elements)
    (hd : d.fits = true) :
    (ClassOutline.compose (ClassName.qualified d.name) pool elements).result = .ok d.outline := by
  obtain @⟨fields, methods, xs, hf, hm, hx⟩ := h
  simp only [fits, Bool.and_eq_true, decide_eq_true_eq] at hd
  obtain ⟨-, -, hfields, hmethods, ⟨-, hattrs⟩, hsignature, hvisible, hinvisible⟩ := hd
  have hannots (v : Visibility) :
      AttributeDraft.atMostOne (AttributeDraft.annots? v) d.attributes = true := by
    cases v with
    | visible => exact hvisible
    | invisible => exact hinvisible
  refine Logged.result_bind_eq_ok_iff.mpr
    ⟨d.header xs, HeaderParts.foldlM_eq_ok_iff.mpr (takes_header hx hsignature hannots), ?_⟩
  refine Logged.result_bind_eq_ok_iff.mpr ⟨d.flags, rfl, ?_⟩
  refine Logged.result_bind_eq_ok_iff.mpr ⟨_, result_methods hm fun m hmem =>
    (Bool.and_eq_true_iff.mp ((fits2_iff.mp hmethods).2 m hmem)).2, ?_⟩
  refine Logged.result_bind_eq_ok_iff.mpr ⟨_, result_fields hf (fits2_iff.mp hfields).2, ?_⟩
  refine Logged.result_bind_eq_ok_iff.mpr ⟨_, outlineOptional_eq .visible hx (hannots _), ?_⟩
  refine Logged.result_bind_eq_ok_iff.mpr ⟨_, outlineOptional_eq .invisible hx (hannots _), ?_⟩
  refine Logged.result_bind_eq_ok_iff.mpr ⟨_, result_components hx hattrs, ?_⟩
  refine congrArg Except.ok ?_
  rw [permitted_stream hx, innerFlags_stream hx, ← List.map_append]
  rfl

end ClassDraft

end JvmOutline
