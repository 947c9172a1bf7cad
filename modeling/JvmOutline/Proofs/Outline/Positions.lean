import JvmOutline.Proofs.Outline.Invariants
import JvmOutline.Proofs.Outline.Merging

/-!
# Annotated positions

A method may carry several attributes with annotations of its parameters, of either visibility and
of different lengths.  Each of them says for each position which annotations stand there; a list may
be empty or missing.

**The map of a method joins these lists position by position**
(`MethodOutline.parameterAnnots_by_position`).  A position is in the map exactly if the lists that
the attributes have there are not all empty, and then the map holds their outlines one after the
other, in the order of the stream.  The positions ascend, and without annotations there is no map.
-/

namespace JvmOutline

variable {pool : Pool}

namespace ParameterAnnots

/-! ### The positions of a map -/

theorem mem_of_annotsAt_ne_nil {m : ParameterAnnots} {position : Nat}
    (h : annotsAt position m ≠ []) : (position, annotsAt position m) ∈ m := by
  induction m with
  | nil => exact absurd rfl h
  | cons x m ih =>
    rw [annotsAt_cons] at h ⊢
    split at h
    · next hx =>
      rw [if_pos hx, ← hx]
      exact List.mem_cons_self
    · next hx =>
      rw [if_neg hx]
      exact List.mem_cons_of_mem x (ih h)

/-- A map has a place for each position at which there are annotations, and for no other one. -/
theorem Canonical.mem_iff {m : ParameterAnnots} (h : Canonical m) {position : Nat}
    {as : List AnnotOutline} : (position, as) ∈ m ↔ as = annotsAt position m ∧ as ≠ [] := by
  constructor
  · intro hmem
    exact ⟨(h.annotsAt_of_mem hmem).symm, h.2 _ hmem⟩
  · rintro ⟨rfl, hne⟩
    exact mem_of_annotsAt_ne_nil hne

/-- There is no map exactly if there are no annotations at any position. -/
theorem IsMap.eq_none_iff {map : Option ParameterAnnots} (h : IsMap map) :
    map = none ↔ ∀ position, annotsAt position (map.getD []) = [] := by
  constructor
  · rintro rfl
    exact fun _ => rfl
  · exact fun hempty => h.eq isMap_none hempty

end ParameterAnnots

/-! ### Attributes without annotations -/

/-- What holds of all items on the one side holds of all on the other, if it does so pair by
pair. -/
theorem forall_mem_iff_of_forall₂ {α β : Type} {R : α → β → Prop} {P : α → Prop} {Q : β → Prop}
    {as : List α} {bs : List β} (h : List.Forall₂ R as bs) (hPQ : ∀ a b, R a b → (P a ↔ Q b)) :
    (∀ a ∈ as, P a) ↔ ∀ b ∈ bs, Q b := by
  induction h with
  | nil => exact ⟨fun _ => nofun, fun _ => nofun⟩
  | cons hab _ ih => rw [List.forall_mem_cons, List.forall_mem_cons, hPQ _ _ hab, ih]

/-- There are outlines exactly if there are annotations. -/
theorem Annot.OutlinedAs.eq_nil_iff {as : List Annot} {bs : List AnnotOutline}
    (h : OutlinedAs pool as bs) : as = [] ↔ bs = [] := by
  have hall : List.Forall₂ (fun a b => a.outline pool = .ok b) as bs :=
    (mapM_eq_ok_iff fun _ _ _ => Iff.rfl).mp h
  rw [← List.length_eq_zero_iff, ← List.length_eq_zero_iff, hall.length_eq]

/-- The lists of a list are all empty exactly if nothing stands at any position. -/
theorem forall_eq_nil_iff_getElem? {α : Type} {lists : List (List α)} :
    (∀ as ∈ lists, as = []) ↔ ∀ position : Nat, lists[position]?.getD [] = [] := by
  constructor
  · intro h position
    cases hat : lists[position]? with
    | none => rfl
    | some as => exact h as (List.mem_of_getElem? hat)
  · intro h as has
    obtain ⟨position, hat⟩ := List.mem_iff_getElem?.mp has
    have hempty := h position
    rwa [hat] at hempty

namespace ParameterAnnots

/-! ### The map of all attributes -/

variable {attributes : List (List (List Annot))} {map : Option ParameterAnnots}

/-- Attributes leave no map exactly if they hold no annotations. -/
theorem eq_none_iff_of_foldlM_outline
    (h : attributes.foldlM (fun map lists => outline pool map 0 lists) none = .ok map) :
    map = none ↔ ∀ lists ∈ attributes, ∀ as ∈ lists, as = [] := by
  obtain ⟨found, hfound, rfl⟩ := foldlM_outline_eq_ok_iff.mp h
  obtain ⟨hmap, hat⟩ := isMap_putAll isMap_none found
  calc _ ↔ ∀ position : Nat, ∀ lists ∈ found, lists[position]?.getD [] = [] := by
        rw [hmap.eq_none_iff]
        refine forall_congr' fun position => ?_
        rw [hat]
        exact List.flatMap_eq_nil_iff
    _ ↔ ∀ lists ∈ found, ∀ bs ∈ lists, bs = [] := by
        simp only [forall_eq_nil_iff_getElem?]
        exact ⟨fun h lists hlists position => h position lists hlists,
          fun h position lists hlists => h lists hlists position⟩
    _ ↔ _ := (forall_mem_iff_of_forall₂ hfound fun _ _ hlists =>
        forall_mem_iff_of_forall₂ hlists fun _ _ hbs => hbs.eq_nil_iff).symm

end ParameterAnnots

/-! ### The map of a method -/

open ParameterAnnots (OutlinedAt)

namespace MethodOutline

/-- **Position by position.**  At each position the attributes of a method have a joint list of
annotations, in the order of the stream; the map of the method holds these lists, as far as they
are not empty.  There is no map exactly if the attributes hold no annotations at all. -/
theorem parameterAnnots_by_position {m : Member} {o : MethodOutline}
    (h : (ofMember pool m).result = .ok o) :
    (∀ position, ∃ joined,
      MergedInOrder (OutlinedAt pool position) (m.attributes.filterMap Attribute.parameterAnnots?)
          joined ∧
        ∀ as, (position, as) ∈ o.parameterAnnots.getD [] ↔ as = joined ∧ joined ≠ []) ∧
    (o.parameterAnnots = none ↔
      ∀ lists ∈ m.attributes.filterMap Attribute.parameterAnnots?, ∀ as ∈ lists, as = []) ∧
    ((o.parameterAnnots.getD []).map Prod.fst).Pairwise (· < ·) := by
  have houtlines := result_ofMember_eq_ok_iff.mp h
  have hmerges := houtlines.merges
  obtain ⟨htakes, -⟩ := houtlines
  have hmap := (ParameterAnnots.exists_of_foldlM_outline htakes.parameterAnnots).1
  refine ⟨fun position => ⟨_, (hmerges position).inOrder, fun as => ?_⟩,
    ParameterAnnots.eq_none_iff_of_foldlM_outline htakes.parameterAnnots,
    List.pairwise_map.mpr hmap.1.1⟩
  rw [hmap.1.mem_iff]
  exact and_congr_right fun has => has ▸ Iff.rfl

end MethodOutline

/-- A method with three attributes about its parameters: the first one has annotations at the second
position only, the second one at the first two of three positions, and the last one at none. -/
def Member.markedParameters : Member :=
  ⟨"scale", "(IDJ)V", [.flags ⟨0x0001⟩,
    .attr (.parameterAnnots .invisible [[], [⟨"Lp/Hidden;", []⟩]]),
    .attr (.parameterAnnots .visible [[⟨"Lp/Mark;", []⟩], [⟨"Lp/Mark;", []⟩], []]),
    .attr (.parameterAnnots .invisible [[]])]⟩

namespace MethodOutline

theorem parameterAnnots_by_position_marked :
    ∃ o, (ofMember .empty Member.markedParameters).result = .ok o ∧
      o.parameterAnnots = some [(0, [⟨"Lp/Mark;", []⟩]),
        (1, [⟨"Lp/Hidden;", []⟩, ⟨"Lp/Mark;", []⟩])] ∧
      ∃ joined, MergedInOrder (OutlinedAt .empty 1)
          (Member.markedParameters.attributes.filterMap Attribute.parameterAnnots?) joined ∧
        ∀ as, (1, as) ∈ o.parameterAnnots.getD [] ↔ as = joined ∧ joined ≠ [] := by
  obtain ⟨o, ho⟩ : ∃ o, (ofMember .empty Member.markedParameters).result = .ok o := ⟨_, rfl⟩
  obtain ⟨hpositions, -, -⟩ := parameterAnnots_by_position ho
  obtain rfl := Except.ok.inj ho
  exact ⟨_, rfl, rfl, hpositions 1⟩

end MethodOutline

end JvmOutline
