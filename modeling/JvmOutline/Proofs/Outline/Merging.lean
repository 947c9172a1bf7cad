import JvmOutline.Proofs.Outline.Precedence
import JvmOutline.Proofs.Outline.Success

/-!
# Merging visible and invisible annotations

Classes, fields and methods take each of the two kinds of annotations once, and put the visible
ones first (`MergedByKind`).  Record components, and the parameters of methods, take in every
attribute of either kind, in the order in which they come (`MergedInOrder`), and never refuse one
for being repeated.

**The two ways agree where each kind occurs at most once and no visible annotations stand behind
invisible ones** (`MergedInOrder.byKind`); so they do agree for the annotations of a record
component or a parameter that come in this order (`merges_in_order`).
-/

namespace JvmOutline

variable {pool : Pool}

/-! ### Two ways to merge -/

section

variable {α β : Type} {Found : α → List β → Prop} {as : List α} {merged : List β}

/-- What is found for the items, in their order. -/
def MergedInOrder (Found : α → List β → Prop) (as : List α) (merged : List β) : Prop :=
  ∃ lists, List.Forall₂ Found as lists ∧ merged = lists.flatten

/-- What is found for the one visible item, then what is found for the one invisible item; each of
the two may be missing. -/
def MergedByKind (Found : α → List β → Prop) (visible invisible : List α) (merged : List β) :
    Prop :=
  ∃ vs is, TakesOnce Found none visible vs ∧ TakesOnce Found none invisible is ∧
    merged = vs.getD [] ++ is.getD []

theorem Gathers.mergedInOrder {place place' : Option (List β)} (h : Gathers Found place as place') :
    ∃ lists, List.Forall₂ Found as lists ∧ place'.getD [] = place.getD [] ++ lists.flatten := by
  induction as generalizing place with
  | nil =>
    cases h
    exact ⟨[], .nil, (List.append_nil _).symm⟩
  | cons a as ih =>
    obtain ⟨bs, hbs, h⟩ := h
    obtain ⟨lists, hlists, heq⟩ := ih h
    refine ⟨bs :: lists, .cons hbs hlists, ?_⟩
    rw [heq, List.flatten_cons, Option.getD_some, List.append_assoc]

/-- A place takes an item that is the only one. -/
theorem exists_takesOnce_of_forall₂ {lists : List (List β)} (h : List.Forall₂ Found as lists)
    (hone : as.length ≤ 1) :
    ∃ place, TakesOnce Found none as place ∧ lists.flatten = place.getD [] := by
  cases h with
  | nil => exact ⟨none, rfl, rfl⟩
  | @cons a bs as lists ha has =>
    obtain rfl : as = [] := List.eq_nil_of_length_eq_zero (by simpa using hone)
    cases has
    exact ⟨some bs, ⟨rfl, rfl, bs, ha, rfl⟩, List.append_nil bs⟩

end

/-! ### Views by visibility -/

namespace Attribute

/-- The type annotations of a visibility, if the attribute holds them. -/
def typeAnnots? (v : Visibility) : Attribute → Option (List TypeAnnot)
  | typeAnnots w as => if w = v then some as else none
  | _ => none

/-- The annotations of parameters of a visibility, if the attribute holds them. -/
def parameterAnnotsOf? (v : Visibility) : Attribute → Option (List (List Annot))
  | parameterAnnots w as => if w = v then some as else none
  | _ => none

variable {α : Type}

/-- A view picks what is of either visibility, and nothing is of both. -/
def IsEither (pick : Visibility → Attribute → Option α) (either : Attribute → Option α) : Prop :=
  ∀ a, pick .visible a = either a ∧ pick .invisible a = none ∨
    pick .visible a = none ∧ pick .invisible a = either a

/-- Nothing visible stands behind something invisible. -/
def VisibleFirst (pick : Visibility → Attribute → Option α) (as : List Attribute) : Prop :=
  as.Pairwise fun a b => pick .invisible a = none ∨ pick .visible b = none

theorem isEither_annots : IsEither annots? anyAnnots? := by
  intro a
  cases a with
  | annots v as => cases v <;> simp [annots?, anyAnnots?]
  | _ => exact .inl ⟨rfl, rfl⟩

theorem isEither_typeAnnots : IsEither typeAnnots? anyTypeAnnots? := by
  intro a
  cases a with
  | typeAnnots v as => cases v <;> simp [typeAnnots?, anyTypeAnnots?]
  | _ => exact .inl ⟨rfl, rfl⟩

theorem isEither_parameterAnnots : IsEither parameterAnnotsOf? parameterAnnots? := by
  intro a
  cases a with
  | parameterAnnots v as => cases v <;> simp [parameterAnnotsOf?, parameterAnnots?]
  | _ => exact .inl ⟨rfl, rfl⟩

/-- With the visible ones in front, the stream has the order in which the kinds are merged. -/
theorem IsEither.filterMap_eq {pick : Visibility → Attribute → Option α}
    {either : Attribute → Option α} (he : IsEither pick either) {as : List Attribute}
    (h : VisibleFirst pick as) :
    as.filterMap either = as.filterMap (pick .visible) ++ as.filterMap (pick .invisible) := by
  induction as with
  | nil => rfl
  | cons a as ih =>
    obtain ⟨ha, has⟩ := List.pairwise_cons.mp h
    have hrest := ih has
    rcases he a with ⟨hv, hi⟩ | ⟨hv, hi⟩
    · rw [List.filterMap_cons, List.filterMap_cons, List.filterMap_cons_none hi, hv, hrest]
      cases either a <;> rfl
    · rw [List.filterMap_cons, List.filterMap_cons_none hv, List.filterMap_cons, hi, hrest]
      cases hsome : either a with
      | none => rfl
      | some x =>
        -- Behind this one nothing is visible.
        have hnil : as.filterMap (pick .visible) = [] :=
          List.filterMap_eq_nil_iff.mpr fun b hb =>
            (ha b hb).resolve_left (by rw [hi, hsome]; nofun)
        rw [hnil]
        rfl

end Attribute

open Attribute (IsEither VisibleFirst)

/-- **The two ways agree** where each kind occurs at most once, the visible one first. -/
theorem MergedInOrder.byKind {α β : Type} {Found : α → List β → Prop}
    {pick : Visibility → Attribute → Option α} {either : Attribute → Option α}
    {as : List Attribute} {merged : List β} (h : MergedInOrder Found (as.filterMap either) merged)
    (he : IsEither pick either) (hfirst : VisibleFirst pick as)
    (hone : ∀ v, AtMostOne (pick v) as) :
    MergedByKind Found (as.filterMap (pick .visible)) (as.filterMap (pick .invisible)) merged := by
  obtain ⟨lists, hlists, rfl⟩ := h
  rw [he.filterMap_eq hfirst] at hlists
  have hvisible := (List.forall₂_take_append lists _ _ hlists.flip).flip
  have hinvisible := (List.forall₂_drop_append lists _ _ hlists.flip).flip
  obtain ⟨vs, hvs, hflatv⟩ := exists_takesOnce_of_forall₂ hvisible (hone .visible)
  obtain ⟨is, his, hflati⟩ := exists_takesOnce_of_forall₂ hinvisible (hone .invisible)
  refine ⟨vs, is, hvs, his, ?_⟩
  rw [← hflatv, ← hflati, ← List.flatten_append, List.take_append_drop]

/-- What is merged from the attributes of a declaration, and when it is merged by kind as well. -/
structure Merges {α β : Type} (Found : α → List β → Prop)
    (pick : Visibility → Attribute → Option α) (either : Attribute → Option α)
    (as : List Attribute) (merged : List β) : Prop where
  inOrder : MergedInOrder Found (as.filterMap either) merged
  byKind : VisibleFirst pick as → (∀ v, AtMostOne (pick v) as) →
    MergedByKind Found (as.filterMap (pick .visible)) (as.filterMap (pick .invisible)) merged

theorem MergedInOrder.merges {α β : Type} {Found : α → List β → Prop}
    {pick : Visibility → Attribute → Option α} {either : Attribute → Option α}
    {as : List Attribute} {merged : List β} (h : MergedInOrder Found (as.filterMap either) merged)
    (he : IsEither pick either) : Merges Found pick either as merged :=
  ⟨h, h.byKind he⟩

/-! ### Classes, fields and methods -/

/-- The annotations of a declaration that takes each kind once are merged by kind, in whichever
order they come. -/
theorem SharedParts.Takes.mergedByKind {m : Member} {p : SharedParts}
    (h : Takes pool m.elements .empty p) :
    MergedByKind (Annot.OutlinedAs pool) (m.attributes.filterMap (Attribute.annots? .visible))
      (m.attributes.filterMap (Attribute.annots? .invisible)) p.annots :=
  ⟨p.visible, p.invisible, h.visible, h.invisible, rfl⟩

theorem FieldOutline.Outlines.mergedByKind {f : Member} {o : FieldOutline} (h : Outlines pool f o) :
    MergedByKind (Annot.OutlinedAs pool) (f.attributes.filterMap (Attribute.annots? .visible))
      (f.attributes.filterMap (Attribute.annots? .invisible)) o.annots := by
  obtain ⟨h, -⟩ := h
  exact h.shared.mergedByKind

theorem MethodOutline.Outlines.mergedByKind {m : Member} {o : MethodOutline}
    (h : Outlines pool m o) :
    MergedByKind (Annot.OutlinedAs pool) (m.attributes.filterMap (Attribute.annots? .visible))
      (m.attributes.filterMap (Attribute.annots? .invisible)) o.annots := by
  obtain ⟨h, -⟩ := h
  exact h.shared.mergedByKind

/-- The header of a class holds annotations as they are stored; they are outlined afterwards. -/
theorem Annot.OutlinedOptional.exists_takesOnce {place : Option (List Annot)}
    {lists : List (List Annot)} {bs : List AnnotOutline} (h : OutlinedOptional pool place bs)
    (hplace : TakesOnce Eq none lists place) :
    ∃ found, TakesOnce (Annot.OutlinedAs pool) none lists found ∧ found.getD [] = bs := by
  rw [← takesOnce_eq_iff.mp hplace]
  cases place with
  | none => exact ⟨none, rfl, Except.ok.inj h⟩
  | some as => exact ⟨some bs, ⟨rfl, rfl, bs, h, rfl⟩, rfl⟩

theorem ClassOutline.Outlines.mergedByKind {name : String} {stream : List Element}
    {c : ClassOutline} (h : Outlines name pool stream c) :
    MergedByKind (Annot.OutlinedAs pool)
      ((stream.filterMap Element.attr?).filterMap (Attribute.annots? .visible))
      ((stream.filterMap Element.attr?).filterMap (Attribute.annots? .invisible)) c.annots := by
  obtain ⟨hheader, -, -, -, hvisible, hinvisible, -⟩ := h
  obtain ⟨vs, hvs, rfl⟩ := hvisible.exists_takesOnce hheader.visible
  obtain ⟨is, his, rfl⟩ := hinvisible.exists_takesOnce hheader.invisible
  exact ⟨vs, is, hvs, his, rfl⟩

/-! ### Record components -/

theorem ComponentOutline.Outlines.merges {c : Component} {o : ComponentOutline}
    (h : Outlines pool c o) :
    Merges (Annot.OutlinedAs pool) Attribute.annots? Attribute.anyAnnots? c.attributes
        (o.annots.getD []) ∧
      Merges (TypeAnnot.OutlinedAs pool) Attribute.typeAnnots? Attribute.anyTypeAnnots?
        c.attributes (o.typeAnnots.getD []) := by
  obtain ⟨h⟩ := h
  exact ⟨MergedInOrder.merges h.annots.mergedInOrder Attribute.isEither_annots,
    MergedInOrder.merges h.typeAnnots.mergedInOrder Attribute.isEither_typeAnnots⟩

/-! ### Parameters -/

/-- The annotations that an attribute has at a position, as far as it has any, have these
outlines. -/
def ParameterAnnots.OutlinedAt (pool : Pool) (position : Nat) (lists : List (List Annot))
    (bs : List AnnotOutline) : Prop :=
  Annot.OutlinedAs pool (lists[position]?.getD []) bs

theorem ParameterAnnots.outlinedAt_of_forall₂ {lists : List (List Annot)}
    {found : List (List AnnotOutline)} (h : List.Forall₂ (Annot.OutlinedAs pool) lists found)
    (position : Nat) : OutlinedAt pool position lists (found[position]?.getD []) := by
  induction h generalizing position with
  | nil => rfl
  | cons hbs _ ih =>
    cases position with
    | zero => exact hbs
    | succ position => exact ih position

theorem MethodOutline.Outlines.merges {m : Member} {o : MethodOutline} (h : Outlines pool m o)
    (position : Nat) :
    Merges (ParameterAnnots.OutlinedAt pool position) Attribute.parameterAnnotsOf?
      Attribute.parameterAnnots? m.attributes
        (ParameterAnnots.annotsAt position (o.parameterAnnots.getD [])) := by
  obtain ⟨h, -⟩ := h
  obtain ⟨found, hfound, hmap⟩ :=
    ParameterAnnots.foldlM_outline_eq_ok_iff.mp h.parameterAnnots
  refine MergedInOrder.merges ⟨found.map fun lists => lists[position]?.getD [], ?_, ?_⟩
    Attribute.isEither_parameterAnnots
  · exact List.forall₂_map_right_iff.mpr (hfound.imp fun _ _ hlists =>
      ParameterAnnots.outlinedAt_of_forall₂ hlists position)
  · rw [hmap, (ParameterAnnots.isMap_putAll ParameterAnnots.isMap_none found).2 position,
      List.flatMap_def]
    rfl

/-! ### Repeated attributes -/

/-- The error is about a value, and not about a part that is repeated or missing. -/
inductive OutlineError.OfValue : OutlineError → Prop where
  | format (cause : FormatError) : OfValue (.format cause)
  | valueTag (tag : UInt8) : OfValue (.valueTag tag)

open OutlineError (OfValue)

theorem failsIn_outlined_ofValue {α : Type} (x : Except FormatError α) :
    FailsIn OfValue (outlined x) := by
  cases x with
  | ok a => trivial
  | error e =>
    show OfValue (OutlineError.ofFormat e)
    unfold OutlineError.ofFormat
    split
    · exact .valueTag _
    · exact .format _

theorem AnnotValue.failsIn_ofConst_ofValue (tag : UInt8) (index : UInt16) :
    FailsIn OfValue (ofConst pool tag index) := by
  rw [← failsIn_verdict, verdict_ofConst]
  split
  · exact failsIn_outlined_ofValue _
  · exact .valueTag tag

theorem ElementValue.failsIn_outline_ofValue (v : ElementValue) :
    FailsIn OfValue (v.outline pool) := by
  rw [← failsIn_verdict, verdict_outline]
  exact .forM fun c _ => failsIn_verdict.mpr (AnnotValue.failsIn_ofConst_ofValue c.1 c.2)

theorem Annot.FirstFault.ofValue {as : List Annot} {e : OutlineError}
    (h : Annot.FirstFault pool as e) : OfValue e := by
  have hfails : FailsIn OfValue (outlineAll pool as) := by
    rw [← failsIn_verdict, verdict_outlineAll]
    exact .forM fun c _ => failsIn_verdict.mpr (AnnotValue.failsIn_ofConst_ofValue c.1 c.2)
  exact failsIn_iff.mp hfails e (outlineAll_eq_error_iff.mpr h)

/-- Only a part that occurs once is refused for being repeated. -/
theorem Rules.FirstFault.part_of_repeated {α : Type} {r : Rules α} {stream : List α} {part : Part}
    {scope : Scope} (h : r.FirstFault stream (.repeated part scope))
    (hfault : ∀ a e, r.Fault a e → OfValue e) : ∃ a, r.part? a = some part := by
  obtain ⟨front, a, back, -, -, ha⟩ := Rules.firstFault_iff.mp h
  rcases ha with ha | ⟨-, ha⟩
  · nomatch hfault a _ ha
  · obtain ⟨part', hpart, -, heq⟩ := firstOf_singleton.mp ha
    cases heq
    exact ⟨a, hpart⟩

theorem ComponentOutline.part_of_repeated {c : Component} {part : Part} {scope : Scope}
    (h : (ofComponent pool c).result = .error (.repeated part scope)) :
    part = .attr .signature := by
  have hfault : ∀ a e, (rules pool c).Fault a e → OfValue e := by
    intro a e ha
    cases a with
    | annots v as | typeAnnots v as => exact Annot.FirstFault.ofValue ha
    | _ => exact ha.elim
  obtain ⟨a, ha⟩ :=
    Rules.FirstFault.part_of_repeated (result_ofComponent_eq_error_iff.mp h) hfault
  obtain ⟨kind, hkind, rfl⟩ := Option.map_eq_some_iff.mp ha
  have hmem := (Attribute.kindIn?_eq_some_iff.mp hkind).2
  rw [List.mem_singleton.mp hmem]

theorem MethodOutline.part_of_repeated {m : Member} {part : Part} {scope : Scope}
    (h : (ofMember pool m).result = .error (.repeated part scope)) :
    part = .flags ∨ ∃ kind ∈ AttributeKind.onceInMethod, part = .attr kind := by
  have hfault : ∀ b e, (rules pool m).Fault b e → OfValue e := by
    intro b e hb
    cases b with
    | flags f => exact hb.elim
    | attr a =>
      cases a with
      | annots v as | parameterAnnots v lists => exact Annot.FirstFault.ofValue hb
      | annotDefault value => exact failsIn_iff.mp value.failsIn_outline_ofValue e hb
      | _ => exact hb.elim
  rcases result_ofMember_eq_error_iff.mp h with h | ⟨-, h⟩
  · obtain ⟨b, hb⟩ := Rules.FirstFault.part_of_repeated h hfault
    cases b with
    | flags f => exact .inl (Option.some.inj hb).symm
    | attr a =>
      obtain ⟨kind, hkind, rfl⟩ := Option.map_eq_some_iff.mp hb
      exact .inr ⟨kind, (Attribute.kindIn?_eq_some_iff.mp hkind).2, rfl⟩
  · nomatch (firstOf_singleton.mp h).2

/-! ### Where the rule holds and where it does not -/

/-- **Two ways.**  The annotations of classes, fields and methods are merged by kind.  Those of
record components and parameters are merged in the order in which the attributes come; this is the
order by kind where each kind occurs at most once, the visible one first.  No attribute with
annotations of these is refused for being repeated. -/
theorem merges_in_order (pool : Pool) :
    (∀ name stream c, (ClassOutline.ofElements name pool stream).result = .ok c →
      MergedByKind (Annot.OutlinedAs pool)
        ((stream.filterMap Element.attr?).filterMap (Attribute.annots? .visible))
        ((stream.filterMap Element.attr?).filterMap (Attribute.annots? .invisible)) c.annots) ∧
    (∀ f o, (FieldOutline.ofMember pool f).result = .ok o →
      MergedByKind (Annot.OutlinedAs pool) (f.attributes.filterMap (Attribute.annots? .visible))
        (f.attributes.filterMap (Attribute.annots? .invisible)) o.annots) ∧
    (∀ m o, (MethodOutline.ofMember pool m).result = .ok o →
      MergedByKind (Annot.OutlinedAs pool) (m.attributes.filterMap (Attribute.annots? .visible))
        (m.attributes.filterMap (Attribute.annots? .invisible)) o.annots) ∧
    (∀ c o, (ComponentOutline.ofComponent pool c).result = .ok o →
      Merges (Annot.OutlinedAs pool) Attribute.annots? Attribute.anyAnnots? c.attributes
          (o.annots.getD []) ∧
        Merges (TypeAnnot.OutlinedAs pool) Attribute.typeAnnots? Attribute.anyTypeAnnots?
          c.attributes (o.typeAnnots.getD [])) ∧
    (∀ m o, (MethodOutline.ofMember pool m).result = .ok o → ∀ position,
      Merges (ParameterAnnots.OutlinedAt pool position) Attribute.parameterAnnotsOf?
        Attribute.parameterAnnots? m.attributes
          (ParameterAnnots.annotsAt position (o.parameterAnnots.getD []))) ∧
    (∀ c part scope, (ComponentOutline.ofComponent pool c).result = .error (.repeated part scope) →
      part = .attr .signature) ∧
    ∀ m part scope, (MethodOutline.ofMember pool m).result = .error (.repeated part scope) →
      ∀ v, part ≠ .attr (.parameterAnnots v) := by
  refine ⟨fun name stream c h => ?_, fun f o h => ?_, fun m o h => ?_, fun c o h => ?_,
    fun m o h => ?_, fun c part scope h => ?_, fun m part scope h v => ?_⟩
  · exact (ClassOutline.result_ofElements_eq_ok_iff.mp h).2.mergedByKind
  · exact (FieldOutline.result_ofMember_eq_ok_iff.mp h).mergedByKind
  · exact (MethodOutline.result_ofMember_eq_ok_iff.mp h).mergedByKind
  · exact (ComponentOutline.result_ofComponent_eq_ok_iff.mp h).merges
  · exact (MethodOutline.result_ofMember_eq_ok_iff.mp h).merges
  · exact ComponentOutline.part_of_repeated h
  · rintro rfl
    rcases MethodOutline.part_of_repeated h with h | ⟨kind, hkind, h⟩
    · nomatch h
    · cases h
      cases v <;> nomatch hkind

/-- A record component with an invisible annotation in front of a visible one. -/
def Component.hiddenFirst : Component :=
  ⟨"side", "I", [.annots .invisible [⟨"Lp/Hidden;", []⟩], .annots .visible [⟨"Lp/Mark;", []⟩]]⟩

/-- A record component with two attributes of the same kind. -/
def Component.markedTwice : Component :=
  ⟨"side", "I", [.annots .visible [⟨"Lp/Mark;", []⟩], .annots .visible [⟨"Lp/Mark;", []⟩]]⟩

/-- The annotations of record components are not merged as those of classes, fields and methods
are: neither are the visible ones always in front, nor is a second attribute refused. -/
theorem not_mergedByKind_components :
    (¬ ∀ pool c o, (ComponentOutline.ofComponent pool c).result = .ok o →
      (∀ v, AtMostOne (Attribute.annots? v) c.attributes) →
        MergedByKind (Annot.OutlinedAs pool)
          (c.attributes.filterMap (Attribute.annots? .visible))
          (c.attributes.filterMap (Attribute.annots? .invisible)) (o.annots.getD [])) ∧
    ¬ ∀ pool c o, (ComponentOutline.ofComponent pool c).result = .ok o →
      ∀ v, AtMostOne (Attribute.annots? v) c.attributes := by
  constructor
  · intro h
    have hone : ∀ v, AtMostOne (Attribute.annots? v) Component.hiddenFirst.attributes := by
      intro v
      cases v <;> exact Nat.le_refl 1
    obtain ⟨vs, is, ⟨-, -, bs, hbs, rfl⟩, ⟨-, -, bs', hbs', rfl⟩, heq⟩ :=
      h .empty Component.hiddenFirst _ rfl hone
    cases hbs
    cases hbs'
    have hdescriptors := congrArg (List.map AnnotOutline.descriptor) heq
    revert hdescriptors
    decide
  · intro h
    have hone : 2 ≤ 1 := h .empty Component.markedTwice _ rfl .visible
    omega

end JvmOutline
