import JvmOutline.Outline.Class
import JvmOutline.Proofs.Reading.Outcome

/-!
# Annotations by parameter position

A map of annotations by position is determined by the annotations that it has at each position
(`ParameterAnnots.eq_of_annotsAt`), if its positions ascend and none of its lists is empty.  So the
map that is built up from the annotations of several attributes is read off them position by
position (**`ParameterAnnots.putAll_eq`**): at each position stand the annotations that the
attributes have there, in order.
-/

namespace JvmOutline

namespace ParameterAnnots

/-! ### Maps and positions -/

/-- The annotations at a position. -/
def annotsAt (position : Nat) : ParameterAnnots → List AnnotOutline
  | [] => []
  | (p, as) :: rest => if p = position then as else annotsAt position rest

theorem annotsAt_cons (position : Nat) (x : Nat × List AnnotOutline) (m : ParameterAnnots) :
    annotsAt position (x :: m) = if x.1 = position then x.2 else annotsAt position m := rfl

/-- The positions ascend, and no list is empty. -/
def Canonical (m : ParameterAnnots) : Prop :=
  m.Pairwise (fun x y => x.1 < y.1) ∧ ∀ x ∈ m, x.2 ≠ []

theorem annotsAt_eq_nil {m : ParameterAnnots} {position : Nat} (h : ∀ x ∈ m, x.1 ≠ position) :
    annotsAt position m = [] := by
  induction m with
  | nil => rfl
  | cons x m ih =>
    rw [List.forall_mem_cons] at h
    exact (if_neg h.1).trans (ih h.2)

theorem Canonical.tail {x : Nat × List AnnotOutline} {m : ParameterAnnots}
    (h : Canonical (x :: m)) : Canonical m :=
  ⟨h.1.of_cons, fun y hy => h.2 y (List.mem_cons_of_mem x hy)⟩

/-- Before the first position there is nothing. -/
theorem Canonical.annotsAt_eq_nil {x : Nat × List AnnotOutline} {m : ParameterAnnots}
    (h : Canonical (x :: m)) {position : Nat} (hp : position ≤ x.1) : annotsAt position m = [] :=
  ParameterAnnots.annotsAt_eq_nil fun y hy =>
    Nat.ne_of_gt (Nat.lt_of_le_of_lt hp ((List.pairwise_cons.mp h.1).1 y hy))

/-- Maps that agree at each position are equal. -/
theorem eq_of_annotsAt {m n : ParameterAnnots} (hm : Canonical m) (hn : Canonical n)
    (h : ∀ position, annotsAt position m = annotsAt position n) : m = n := by
  induction m generalizing n with
  | nil =>
    cases n with
    | nil => rfl
    | cons y n =>
      have hy := h y.1
      rw [annotsAt_cons, if_pos rfl] at hy
      exact absurd hy.symm (hn.2 y List.mem_cons_self)
  | cons x m ih =>
    cases n with
    | nil =>
      have hx := h x.1
      rw [annotsAt_cons, if_pos rfl] at hx
      exact absurd hx (hm.2 x List.mem_cons_self)
    | cons y n =>
      -- A first position that only one of the maps has would be empty in the other one.
      have hpos : x.1 = y.1 := by
        rcases Nat.lt_trichotomy x.1 y.1 with hlt | heq | hlt
        · have hx := h x.1
          rw [annotsAt_cons, annotsAt_cons, if_pos rfl, if_neg (Nat.ne_of_gt hlt),
            hn.annotsAt_eq_nil (Nat.le_of_lt hlt)] at hx
          exact absurd hx (hm.2 x List.mem_cons_self)
        · exact heq
        · have hy := h y.1
          rw [annotsAt_cons, annotsAt_cons, if_pos rfl, if_neg (Nat.ne_of_gt hlt),
            hm.annotsAt_eq_nil (Nat.le_of_lt hlt)] at hy
          exact absurd hy.symm (hn.2 y List.mem_cons_self)
      have has : x.2 = y.2 := by
        have hx := h x.1
        rwa [annotsAt_cons, annotsAt_cons, if_pos rfl, if_pos hpos.symm] at hx
      have htail : ∀ position, annotsAt position m = annotsAt position n := fun position => by
        have hp := h position
        rw [annotsAt_cons, annotsAt_cons] at hp
        by_cases hx : x.1 = position
        · rw [hm.annotsAt_eq_nil (Nat.le_of_eq hx.symm),
            hn.annotsAt_eq_nil (Nat.le_of_eq (hx.symm.trans hpos))]
        · rwa [if_neg hx, if_neg (hpos ▸ hx)] at hp
      rw [Prod.ext hpos has, ih hm.tail hn.tail htail]

/-! ### Appending -/

theorem mem_append {position : Nat} {as : List AnnotOutline} {m : ParameterAnnots}
    {x : Nat × List AnnotOutline} (h : x ∈ append position as m) :
    x.1 = position ∨ ∃ y ∈ m, y.1 = x.1 := by
  induction m with
  | nil =>
    rw [append, List.mem_singleton] at h
    exact .inl (congrArg Prod.fst h)
  | cons y m ih =>
    rw [append] at h
    split at h
    · rcases List.mem_cons.mp h with rfl | h
      · exact .inl rfl
      · exact .inr ⟨x, h, rfl⟩
    · split at h
      · next hp =>
        rcases List.mem_cons.mp h with rfl | h
        · exact .inl hp.symm
        · exact .inr ⟨x, List.mem_cons_of_mem _ h, rfl⟩
      · rcases List.mem_cons.mp h with rfl | h
        · exact .inr ⟨_, List.mem_cons_self, rfl⟩
        · rcases ih h with h | ⟨z, hz, h⟩
          · exact .inl h
          · exact .inr ⟨z, List.mem_cons_of_mem _ hz, h⟩

theorem canonical_append {position : Nat} {as : List AnnotOutline} {m : ParameterAnnots}
    (has : as ≠ []) (hm : Canonical m) : Canonical (append position as m) := by
  induction m with
  | nil =>
    exact ⟨List.pairwise_singleton .., fun x hx => List.mem_singleton.mp hx ▸ has⟩
  | cons y m ih =>
    rw [append]
    have hlt := (List.pairwise_cons.mp hm.1).1
    split
    · next hp =>
      refine ⟨List.pairwise_cons.mpr ⟨fun x hx => ?_, hm.1⟩, ?_⟩
      · rcases List.mem_cons.mp hx with rfl | hx
        · exact hp
        · exact Nat.lt_trans hp (hlt x hx)
      · rw [List.forall_mem_cons]
        exact ⟨has, hm.2⟩
    · split
      · refine ⟨List.pairwise_cons.mpr ⟨hlt, hm.tail.1⟩, ?_⟩
        rw [List.forall_mem_cons]
        exact ⟨fun h => hm.2 y List.mem_cons_self (List.append_eq_nil_iff.mp h).1, hm.tail.2⟩
      · next hnlt hne =>
        have hm' := ih hm.tail
        refine ⟨List.pairwise_cons.mpr ⟨fun x hx => ?_, hm'.1⟩, ?_⟩
        · rcases mem_append hx with h | ⟨z, hz, h⟩
          · show y.1 < x.1
            omega
          · exact h ▸ hlt z hz
        · rw [List.forall_mem_cons]
          exact ⟨hm.2 y List.mem_cons_self, hm'.2⟩

/-- The annotations are appended at their position, and nowhere else. -/
theorem annotsAt_append {position : Nat} {as : List AnnotOutline} {m : ParameterAnnots}
    (hm : Canonical m) (p : Nat) :
    annotsAt p (append position as m) = annotsAt p m ++ if position = p then as else [] := by
  induction m with
  | nil => rfl
  | cons y m ih =>
    rw [append]
    split
    · next hlt =>
      rw [annotsAt_cons]
      by_cases hp : position = p
      · rw [if_pos hp, if_pos hp, annotsAt_cons, if_neg (by omega),
          hm.annotsAt_eq_nil (by omega), List.nil_append]
      · rw [if_neg hp, if_neg hp, List.append_nil]
    · split
      · next heq =>
        rw [annotsAt_cons, annotsAt_cons]
        by_cases hp : position = p
        · rw [if_pos hp, if_pos (heq.symm.trans hp), if_pos (heq.symm.trans hp)]
        · rw [if_neg hp, List.append_nil]
          rw [if_neg (heq ▸ hp), if_neg (heq ▸ hp)]
      · next hne =>
        rw [annotsAt_cons, annotsAt_cons, ih hm.tail]
        by_cases hp : y.1 = p
        · rw [if_pos hp, if_pos hp, if_neg (fun h => hne (h.trans hp.symm)), List.append_nil]
        · rw [if_neg hp, if_neg hp]

/-! ### All attributes -/

/-- Appends the annotations of the parameters from `position` on; a parameter without annotations
leaves no trace. -/
def put (map : Option ParameterAnnots) (position : Nat) :
    List (List AnnotOutline) → Option ParameterAnnots
  | [] => map
  | [] :: rest => put map (position + 1) rest
  | as :: rest => put (some (append position as (map.getD []))) (position + 1) rest

/-- Outlining the annotations of parameters outlines them all, and then appends them. -/
theorem outline_eq_ok_iff {pool : Pool} {map map' : Option ParameterAnnots} {position : Nat}
    {lists : List (List Annot)} : outline pool map position lists = .ok map' ↔
      ∃ found, List.Forall₂ (fun as bs => Annot.outlineAll pool as = .ok bs) lists found ∧
        map' = put map position found := by
  induction lists generalizing map position with
  | nil =>
    constructor
    · intro h
      cases h
      exact ⟨[], .nil, rfl⟩
    · rintro ⟨found, hfound, rfl⟩
      cases hfound
      rfl
  | cons as rest ih =>
    cases as with
    | nil =>
      rw [outline, ih]
      constructor
      · rintro ⟨found, hfound, rfl⟩
        exact ⟨[] :: found, .cons rfl hfound, rfl⟩
      · rintro ⟨found, hfound, rfl⟩
        cases hfound with
        | cons hbs hfound =>
          cases hbs
          exact ⟨_, hfound, rfl⟩
    | cons a as =>
      have hput {bs : List AnnotOutline} (hbs : Annot.outlineAll pool (a :: as) = .ok bs)
          (map : Option ParameterAnnots) (found : List (List AnnotOutline)) :
          put map position (bs :: found) =
            put (some (append position bs (map.getD []))) (position + 1) found := by
        obtain ⟨b, bs', -, -, rfl⟩ := List.forall₂_cons_left_iff.mp
          ((mapM_eq_ok_iff fun _ _ _ => Iff.rfl).mp hbs)
        rfl
      rw [outline, bind_eq_ok_iff]
      constructor
      · rintro ⟨bs, hbs, h⟩
        obtain ⟨found, hfound, rfl⟩ := ih.mp h
        exact ⟨bs :: found, .cons hbs hfound, (hput hbs ..).symm⟩
      · rintro ⟨found, hfound, rfl⟩
        cases hfound with
        | cons hbs hfound => exact ⟨_, hbs, ih.mpr ⟨_, hfound, hput hbs ..⟩⟩
      · exact nofun

/-- A map that is there has a position. -/
def IsMap (map : Option ParameterAnnots) : Prop :=
  Canonical (map.getD []) ∧ ∀ m ∈ map, m ≠ []

theorem isMap_none : IsMap none := ⟨⟨.nil, nofun⟩, nofun⟩

theorem IsMap.eq {map map' : Option ParameterAnnots} (h : IsMap map) (h' : IsMap map')
    (hat : ∀ p, annotsAt p (map.getD []) = annotsAt p (map'.getD [])) : map = map' := by
  have heq := eq_of_annotsAt h.1 h'.1 hat
  cases map with
  | none =>
    cases map' with
    | none => rfl
    | some m' => exact absurd heq.symm (h'.2 m' rfl)
  | some m =>
    cases map' with
    | none => exact absurd heq (h.2 m rfl)
    | some m' => exact congrArg some heq

theorem isMap_append {position : Nat} {as : List AnnotOutline} {map : Option ParameterAnnots}
    (has : as ≠ []) (h : IsMap map) : IsMap (some (append position as (map.getD []))) := by
  refine ⟨canonical_append has h.1, ?_⟩
  rintro _ ⟨⟩ hnil
  have hat : annotsAt position (append position as (map.getD [])) =
      annotsAt position (map.getD []) ++ if position = position then as else [] :=
    annotsAt_append h.1 position
  rw [hnil, if_pos rfl] at hat
  exact has (List.append_eq_nil_iff.mp hat.symm).2

theorem isMap_put {map : Option ParameterAnnots} (hmap : IsMap map) (position : Nat)
    (lists : List (List AnnotOutline)) : IsMap (put map position lists) ∧
      ∀ p, annotsAt p ((put map position lists).getD []) = annotsAt p (map.getD []) ++
        if position ≤ p then lists[p - position]?.getD [] else [] := by
  induction lists generalizing map position with
  | nil =>
    refine ⟨hmap, fun p => ?_⟩
    split <;> exact (List.append_nil _).symm
  | cons as rest ih =>
    -- What stands behind the first list is counted from the next position.
    have hrest (p : Nat) : (if position ≤ p then (as :: rest)[p - position]?.getD [] else []) =
        (if position = p then as else []) ++
          if position + 1 ≤ p then rest[p - (position + 1)]?.getD [] else [] := by
      rcases Nat.lt_trichotomy position p with hlt | rfl | hlt
      · obtain ⟨k, rfl⟩ := Nat.exists_eq_add_of_lt hlt
        rw [if_pos (by omega), if_neg (by omega), if_pos (by omega),
          show position + k + 1 - position = k + 1 by omega,
          show position + k + 1 - (position + 1) = k by omega]
        rfl
      · rw [if_pos (Nat.le_refl _), if_pos rfl, if_neg (by omega), Nat.sub_self, List.append_nil]
        rfl
      · rw [if_neg (by omega), if_neg (by omega), if_neg (by omega)]
        rfl
    cases as with
    | nil =>
      obtain ⟨hm, hat⟩ := ih hmap (position + 1)
      refine ⟨hm, fun p => ?_⟩
      rw [put, hat, hrest, ite_self, List.nil_append]
    | cons a as =>
      obtain ⟨hm, hat⟩ := ih (isMap_append (List.cons_ne_nil a as) hmap) (position + 1)
      refine ⟨hm, fun p => ?_⟩
      rw [put, hat, hrest, Option.getD_some, annotsAt_append hmap.1, List.append_assoc]
      exact nofun

/-! ### Reading the map off the attributes -/

/-- The map in which a list stands at each position, as far as it is not empty. -/
def ofPositions (count : Nat) (f : Nat → List AnnotOutline) : Option ParameterAnnots :=
  nonempty? ((List.range count).filterMap fun p => if (f p).isEmpty then none else some (p, f p))

theorem annotsAt_filterMap (f : Nat → List AnnotOutline) (positions : List Nat) (p : Nat) :
    annotsAt p (positions.filterMap fun p => if (f p).isEmpty then none else some (p, f p)) =
      if p ∈ positions then f p else [] := by
  induction positions with
  | nil => rfl
  | cons q positions ih =>
    rw [List.filterMap_cons]
    by_cases hq : (f q).isEmpty
    · rw [if_pos hq]
      refine ih.trans ?_
      by_cases hp : p = q
      · subst hp
        rw [List.isEmpty_iff.mp hq, ite_self, ite_self]
      · simp only [List.mem_cons, hp, false_or]
    · rw [if_neg hq, annotsAt_cons]
      by_cases hp : q = p
      · subst hp
        rw [if_pos rfl, if_pos List.mem_cons_self]
      · rw [if_neg hp, ih]
        simp only [List.mem_cons, Ne.symm hp, false_or]

theorem canonical_filterMap (f : Nat → List AnnotOutline) (count : Nat) :
    Canonical ((List.range count).filterMap fun p =>
      if (f p).isEmpty then none else some (p, f p)) := by
  have hsome {p : Nat} {x : Nat × List AnnotOutline}
      (h : (if (f p).isEmpty then none else some (p, f p)) = some x) : x.1 = p ∧ x.2 ≠ [] := by
    split at h
    · nomatch h
    · next hne =>
      cases h
      exact ⟨rfl, fun h => hne (List.isEmpty_iff.mpr h)⟩
  refine ⟨List.pairwise_filterMap.mpr (List.pairwise_lt_range.imp ?_), fun x hx => ?_⟩
  · intro p q hpq x hx y hy
    rw [(hsome hx).1, (hsome hy).1]
    exact hpq
  · obtain ⟨p, -, hp⟩ := List.mem_filterMap.mp hx
    exact (hsome hp).2

theorem isMap_ofPositions (count : Nat) (f : Nat → List AnnotOutline) :
    IsMap (ofPositions count f) ∧
      ∀ p, annotsAt p ((ofPositions count f).getD []) = if p < count then f p else [] := by
  have hget : (ofPositions count f).getD [] = (List.range count).filterMap fun p =>
      if (f p).isEmpty then none else some (p, f p) := by
    rw [ofPositions, nonempty?]
    split
    · next h => exact (List.isEmpty_iff.mp h).symm
    · rfl
  refine ⟨⟨?_, fun m hm h => ?_⟩, fun p => ?_⟩
  · rw [hget]
    exact canonical_filterMap f count
  · subst h
    rw [ofPositions, nonempty?] at hm
    split at hm
    · nomatch hm
    · next hne => exact hne (List.isEmpty_iff.mpr (Option.some.inj hm))
  · rw [hget, annotsAt_filterMap]
    simp only [List.mem_range]

theorem isMap_putAll {map : Option ParameterAnnots} (hmap : IsMap map)
    (attributes : List (List (List AnnotOutline))) :
    IsMap (attributes.foldl (fun map lists => put map 0 lists) map) ∧
      ∀ p, annotsAt p ((attributes.foldl (fun map lists => put map 0 lists) map).getD []) =
        annotsAt p (map.getD []) ++ attributes.flatMap fun lists => lists[p]?.getD [] := by
  induction attributes generalizing map with
  | nil => exact ⟨hmap, fun p => (List.append_nil _).symm⟩
  | cons lists attributes ih =>
    obtain ⟨hput, hat⟩ := isMap_put hmap 0 lists
    obtain ⟨hall, hatAll⟩ := ih hput
    refine ⟨hall, fun p => ?_⟩
    rw [List.foldl_cons, hatAll, hat, if_pos (Nat.zero_le p), Nat.sub_zero, List.append_assoc,
      List.flatMap_cons]

/-- **Position by position.**  At each position stand the annotations that the attributes have
there, in order. -/
theorem putAll_eq {count : Nat} {attributes : List (List (List AnnotOutline))}
    (h : ∀ lists ∈ attributes, lists.length ≤ count) :
    attributes.foldl (fun map lists => put map 0 lists) none =
      ofPositions count fun p => attributes.flatMap fun lists => lists[p]?.getD [] := by
  obtain ⟨hm, hat⟩ := isMap_putAll isMap_none attributes
  obtain ⟨hm', hat'⟩ := isMap_ofPositions count fun p =>
    attributes.flatMap fun lists => lists[p]?.getD []
  refine hm.eq hm' fun p => ?_
  rw [hat, hat']
  by_cases hp : p < count
  · rw [if_pos hp]
    rfl
  · rw [if_neg hp]
    refine List.flatMap_eq_nil_iff.mpr fun lists hlists => ?_
    have hlen := h lists hlists
    rw [List.getElem?_eq_none (by omega)]
    rfl

end ParameterAnnots

end JvmOutline
