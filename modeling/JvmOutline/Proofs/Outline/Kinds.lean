import JvmOutline.Proofs.Outline.Parts

/-!
# Kinds — which attributes a declaration has a use for

Every attribute that is understood has a kind (`Attribute.kind?`), and each sort of declaration has
a use for attributes of a few kinds only: `AttributeKind.ofClass`, `AttributeKind.ofField`,
`AttributeKind.ofMethod` and `AttributeKind.ofComponent` list them.  What a view picks out of an
attribute determines the kind of the attribute (`Attribute.kind?_of_signature?` and its like).

The items of a list are sorted by their kinds in `AlikeByKind`: two lists have, kind by kind, the
same items in the same order.  How items of different kinds are mixed does not matter, and items
without a kind are free.  So a view that picks items of one kind only finds the same in both lists
(`AlikeByKind.filterMap`, `AlikeByKind.flatMap_eq`).
-/

namespace JvmOutline

/-! ### The kinds of attributes -/

namespace AttributeKind

/-- The kinds that a class has a use for. -/
def ofClass : List AttributeKind :=
  [signature, annots .visible, annots .invisible, permittedSubclasses, record, innerClasses]

/-- The kinds that a field has a use for. -/
def ofField : List AttributeKind :=
  [signature, constantValue, annots .visible, annots .invisible]

/-- The kinds that a method has a use for. -/
def ofMethod : List AttributeKind :=
  [signature, exceptions, annots .visible, annots .invisible, parameterAnnots .visible,
    parameterAnnots .invisible, methodParameters, annotDefault]

/-- The kinds that a record component has a use for. -/
def ofComponent : List AttributeKind :=
  [signature, annots .visible, annots .invisible, typeAnnots .visible, typeAnnots .invisible]

end AttributeKind

namespace Attribute

/-- The kind of an attribute; one that is not understood has none. -/
def kind? : Attribute → Option AttributeKind
  | signature _ => some .signature
  | constantValue _ => some .constantValue
  | exceptions _ => some .exceptions
  | permittedSubclasses _ => some .permittedSubclasses
  | annots v _ => some (.annots v)
  | parameterAnnots v _ => some (.parameterAnnots v)
  | typeAnnots v _ => some (.typeAnnots v)
  | annotDefault _ => some .annotDefault
  | methodParameters _ => some .methodParameters
  | innerClasses _ => some .innerClasses
  | record _ => some .record
  | other _ => none

/-- The kind of an attribute, if it is among the given ones. -/
def kindIn? (kinds : List AttributeKind) (a : Attribute) : Option AttributeKind :=
  a.kind?.filter (· ∈ kinds)

variable {kinds : List AttributeKind} {kind : AttributeKind} {a : Attribute}

theorem kindIn?_eq_some_iff : a.kindIn? kinds = some kind ↔ a.kind? = some kind ∧ kind ∈ kinds := by
  rw [kindIn?, Option.filter_eq_some_iff, decide_eq_true_eq]

theorem kind?_of_signature? {text : String} (h : a.signature? = some text) :
    a.kind? = some .signature := by
  cases a with
  | signature _ => rfl
  | _ => nomatch h

theorem kind?_of_constantIndex? {index : UInt16} (h : a.constantIndex? = some index) :
    a.kind? = some .constantValue := by
  cases a with
  | constantValue _ => rfl
  | _ => nomatch h

theorem kind?_of_annots? {v : Visibility} {as : List Annot} (h : a.annots? v = some as) :
    a.kind? = some (.annots v) := by
  cases a with
  | annots w bs =>
    rw [annots?] at h
    split at h
    · next hv => rw [kind?, hv]
    · nomatch h
  | _ => nomatch h

theorem kind?_of_parameterAnnots? {as : List (List Annot)} (h : a.parameterAnnots? = some as) :
    ∃ v, a.kind? = some (.parameterAnnots v) := by
  cases a with
  | parameterAnnots v _ => exact ⟨v, rfl⟩
  | _ => nomatch h

theorem kind?_of_parameters? {ps : List Parameter} (h : a.parameters? = some ps) :
    a.kind? = some .methodParameters := by
  cases a with
  | methodParameters _ => rfl
  | _ => nomatch h

theorem kind?_of_default? {value : ElementValue} (h : a.default? = some value) :
    a.kind? = some .annotDefault := by
  cases a with
  | annotDefault _ => rfl
  | _ => nomatch h

theorem kind?_of_exceptionNames (h : a.exceptionNames ≠ []) : a.kind? = some .exceptions := by
  cases a with
  | exceptions _ => rfl
  | _ => exact absurd rfl h

end Attribute

/-! ### Lists sorted by kind -/

section

variable {α β κ : Type} [DecidableEq κ] {kind? : α → Option κ} {R : α → α → Prop}
  {as as' as'' : List α}

theorem option_rel_refl {S : β → β → Prop} (hS : ∀ b, S b b) (b? : Option β) :
    Option.Rel S b? b? := by
  cases b? with
  | none => exact .none
  | some b => exact .some (hS b)

/-- A view finds the same among the items that a filter keeps, if it sees nothing in the others. -/
theorem filterMap_filter_of_unseen {used : α → Bool} {pick : α → Option β}
    (h : ∀ a, used a = false → pick a = none) (as : List α) :
    (as.filter used).filterMap pick = as.filterMap pick := by
  rw [List.filterMap_filter]
  congr 1
  funext a
  cases ha : used a with
  | true => rfl
  | false => exact (h a ha).symm

/-- A list of what is in the items is the same without those that have nothing in them. -/
theorem flatMap_filter_of_unseen {used : α → Bool} {list : α → List β}
    (h : ∀ a, used a = false → list a = []) (as : List α) :
    (as.filter used).flatMap list = as.flatMap list := by
  induction as with
  | nil => rfl
  | cons a as ih =>
    rw [List.filter_cons, List.flatMap_cons, ← ih]
    cases ha : used a with
    | true => rfl
    | false => rw [h a ha]; rfl

/-- Two lists have, kind by kind, the same items in the same order.  `R` says which items count as
the same. -/
def AlikeByKind (kind? : α → Option κ) (R : α → α → Prop) (as as' : List α) : Prop :=
  ∀ kind, List.Forall₂ R (as.filter fun a => kind? a = some kind)
    (as'.filter fun a => kind? a = some kind)

namespace AlikeByKind

theorem refl (hR : ∀ a, R a a) (as : List α) : AlikeByKind kind? R as as :=
  fun _ => List.forall₂_same.mpr fun a _ => hR a

theorem symm (hR : ∀ {a a'}, R a a' → R a' a) (h : AlikeByKind kind? R as as') :
    AlikeByKind kind? R as' as :=
  fun kind => ((h kind).imp fun _ _ => hR).flip

/-- Two neighbours of different kinds may change places. -/
theorem swap {a a' b b' : α} (ha : R a a') (hb : R b b') (hkinda : kind? a = kind? a')
    (hkindb : kind? b = kind? b') (hne : kind? a ≠ kind? b) (h : AlikeByKind kind? R as as') :
    AlikeByKind kind? R (a :: b :: as) (b' :: a' :: as') := by
  intro kind
  simp only [List.filter_cons, decide_eq_true_eq, ← hkinda, ← hkindb]
  by_cases hkind : kind? a = some kind
  · have hother : kind? b ≠ some kind := fun hsame => hne (hkind.trans hsame.symm)
    simp only [if_pos hkind, if_neg hother]
    exact .cons ha (h kind)
  · simp only [if_neg hkind]
    split
    · exact .cons hb (h kind)
    · exact h kind

/-- A view that picks items of one kind only. -/
theorem filterMap {pick : α → Option β} {S : β → β → Prop} (h : AlikeByKind kind? R as as')
    (kind : κ) (hkind : ∀ {a b}, pick a = some b → kind? a = some kind)
    (hpick : ∀ {a a'}, R a a' → Option.Rel S (pick a) (pick a')) :
    List.Forall₂ S (as.filterMap pick) (as'.filterMap pick) := by
  have hunseen (a : α) (ha : decide (kind? a = some kind) = false) : pick a = none := by
    cases hp : pick a with
    | none => rfl
    | some b => exact absurd (hkind hp) (of_decide_eq_false ha)
  rw [← filterMap_filter_of_unseen hunseen as, ← filterMap_filter_of_unseen hunseen as']
  exact List.rel_filterMap (fun _ _ ha => hpick ha) (h kind)

theorem filterMap_eq {pick : α → Option β} (h : AlikeByKind kind? R as as') (kind : κ)
    (hkind : ∀ {a b}, pick a = some b → kind? a = some kind)
    (hpick : ∀ {a a'}, R a a' → pick a = pick a') : as.filterMap pick = as'.filterMap pick := by
  rw [← List.forall₂_eq_eq_eq]
  refine h.filterMap kind hkind fun {a a'} ha => ?_
  rw [hpick ha]
  exact option_rel_refl (fun _ => rfl) (pick a')

/-- A view that lists what is in the items of one kind only. -/
theorem flatMap_eq {list : α → List β} (h : AlikeByKind kind? R as as') (kind : κ)
    (hkind : ∀ {a}, list a ≠ [] → kind? a = some kind)
    (hlist : ∀ {a a'}, R a a' → list a = list a') : as.flatMap list = as'.flatMap list := by
  have hunseen (a : α) (ha : decide (kind? a = some kind) = false) : list a = [] := by
    by_contra hlist
    exact of_decide_eq_false ha (hkind hlist)
  rw [← flatMap_filter_of_unseen hunseen as, ← flatMap_filter_of_unseen hunseen as',
    ← List.forall₂_eq_eq_eq]
  refine List.rel_flatMap (h kind) fun a a' ha => ?_
  rw [hlist ha]
  exact List.forall₂_eq_eq_eq ▸ rfl

end AlikeByKind

end

end JvmOutline
