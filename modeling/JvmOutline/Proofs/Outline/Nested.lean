import JvmOutline.Proofs.Outline.Values

/-!
# Annotations inside annotations

`AnnotOutline.within` lists an annotation and all the annotations in it, at any depth.

**Distinct members** (`Annot.distinct_outline`).  In an outline, and in every annotation in it, no
two members have the same name: a repeated member replaces the value of the first one
(`AnnotOutline.map_fst_insertMember`).
-/

namespace JvmOutline

/-! ### Inserting members -/

namespace AnnotOutline

variable {name : String} {value : AnnotValue} {ms : List (String × AnnotValue)}

theorem mem_insertMember {m : String × AnnotValue} (h : m ∈ insertMember name value ms) :
    m = (name, value) ∨ m ∈ ms := by
  induction ms with
  | nil => exact .inl (List.mem_singleton.mp h)
  | cons n ms ih =>
    rw [insertMember] at h
    split at h
    · next hn =>
      rcases List.mem_cons.mp h with rfl | h
      · exact .inl (congrArg (·, value) hn)
      · exact .inr (List.mem_cons_of_mem n h)
    · rcases List.mem_cons.mp h with rfl | h
      · exact .inr List.mem_cons_self
      · exact (ih h).imp_right (List.mem_cons_of_mem n)

/-- No two members have the same name. -/
def Distinct (a : AnnotOutline) : Prop := (a.members.map Prod.fst).Nodup

theorem Distinct.insert {a : AnnotOutline} (h : a.Distinct) : (a.insert name value).Distinct := by
  show (List.map Prod.fst (insertMember name value a.members)).Nodup
  rw [map_fst_insertMember]
  split
  · exact h
  · next hname =>
    refine List.nodup_append.mpr ⟨h, List.pairwise_singleton _ name, fun n hn m hm heq => ?_⟩
    exact hname (List.mem_singleton.mp hm ▸ heq ▸ hn)

/-- Whatever members are put into an annotation with distinct members, they stay distinct. -/
theorem Distinct.insertAll {a : AnnotOutline} (h : a.Distinct) : (a.insertAll ms).Distinct := by
  induction ms generalizing a with
  | nil => exact h
  | cons m ms ih => exact ih h.insert

theorem mem_members_insertAll {a : AnnotOutline} {m : String × AnnotValue}
    (h : m ∈ (a.insertAll ms).members) : m ∈ a.members ∨ m ∈ ms := by
  induction ms generalizing a with
  | nil => exact .inl h
  | cons n ms ih =>
    rcases ih h with h | h
    · rcases mem_insertMember h with rfl | h
      · exact .inr List.mem_cons_self
      · exact .inl h
    · exact .inr (List.mem_cons_of_mem n h)

end AnnotOutline

/-! ### Any depth -/

mutual

/-- The annotations in a value, at any depth. -/
def AnnotValue.annots : AnnotValue → List AnnotOutline
  | .annot a => a.within
  | .array values => AnnotValue.annotsList values
  | _ => []

/-- An annotation and the annotations in it, at any depth. -/
def AnnotOutline.within : AnnotOutline → List AnnotOutline
  | ⟨descriptor, members⟩ => ⟨descriptor, members⟩ :: AnnotValue.annotsMembers members

/-- The annotations in members. -/
def AnnotValue.annotsMembers : List (String × AnnotValue) → List AnnotOutline
  | [] => []
  | (_, value) :: rest => value.annots ++ AnnotValue.annotsMembers rest

/-- The annotations in the elements of an array. -/
def AnnotValue.annotsList : List AnnotValue → List AnnotOutline
  | [] => []
  | value :: rest => value.annots ++ AnnotValue.annotsList rest

end

theorem AnnotValue.annotsList_eq (values : List AnnotValue) :
    annotsList values = values.flatMap annots := by
  induction values with
  | nil => rfl
  | cons v values ih => rw [annotsList, ih, List.flatMap_cons]

theorem AnnotValue.annotsMembers_eq (ms : List (String × AnnotValue)) :
    annotsMembers ms = ms.flatMap fun m => m.2.annots := by
  induction ms with
  | nil => rfl
  | cons m ms ih => rw [annotsMembers, ih, List.flatMap_cons]

theorem AnnotOutline.within_eq (a : AnnotOutline) :
    a.within = a :: a.members.flatMap fun m => m.2.annots := by
  obtain ⟨descriptor, members⟩ := a
  rw [within, AnnotValue.annotsMembers_eq]

/-! ### Distinct members -/

variable {pool : Pool}

/-- In a number or text there is no annotation. -/
theorem AnnotValue.annots_ofConst {tag : UInt8} {index : UInt16} {w : AnnotValue}
    (h : ofConst pool tag index = .ok w) : w.annots = [] := by
  have hnone {α : Type} {x : Except FormatError α} {f : α → AnnotValue}
      (hf : ∀ a, (f a).annots = []) (hx : outlined (do return f (← x)) = .ok w) :
      w.annots = [] := by
    obtain ⟨a, -, ha⟩ := bind_eq_ok_iff.mp (outlined_eq_ok_iff.mp hx)
    exact Except.ok.inj ha ▸ hf a
  unfold ofConst at h
  split at h
  case h_10 => nomatch h
  all_goals exact hnone (fun _ => rfl) h

namespace ElementValue

theorem distinct_outline {v : ElementValue} {w : AnnotValue} (h : v.outline pool = .ok w) :
    ∀ a ∈ w.annots, a.Distinct := by
  induction v using induct generalizing w with
  | const tag index =>
    rw [AnnotValue.annots_ofConst h]
    nofun
  | enumConst | classLit =>
    cases h
    nofun
  | annot b ih =>
    obtain ⟨o, ho, h⟩ := bind_eq_ok_iff.mp h
    rw [Annot.outline_eq] at ho
    obtain ⟨ms, hms, ho⟩ := bind_eq_ok_iff.mp ho
    cases h
    cases ho
    have hempty : (AnnotOutline.ofDescriptor b.descriptor).Distinct := List.nodup_nil
    show ∀ a ∈ AnnotOutline.within _, a.Distinct
    rw [AnnotOutline.within_eq, List.forall_mem_cons, List.forall_mem_flatMap]
    refine ⟨hempty.insertAll, fun m hm => ?_⟩
    -- There was no member before, so this one has been put in.
    have hm := (AnnotOutline.mem_members_insertAll hm).resolve_left List.not_mem_nil
    obtain ⟨n, hn, hnm⟩ := exists_mem_of_forall₂ ((mapM_eq_ok_iff fun _ _ _ => Iff.rfl).mp hms) hm
    obtain ⟨w, hw, hm⟩ := bind_eq_ok_iff.mp hnm
    cases hm
    exact ih n hn hw
  | array vs ih =>
    obtain ⟨ws, hws, h⟩ := bind_eq_ok_iff.mp h
    cases h
    show ∀ a ∈ AnnotValue.annotsList ws, a.Distinct
    rw [AnnotValue.annotsList_eq, List.forall_mem_flatMap]
    intro w hw
    rw [outlineList_eq] at hws
    obtain ⟨v, hv, hvw⟩ := exists_mem_of_forall₂ ((mapM_eq_ok_iff fun _ _ _ => Iff.rfl).mp hws) hw
    exact ih v hv hvw

end ElementValue

namespace Annot

/-- **Distinct members.**  In the outline of an annotation, and in all annotations in it, no two
members have the same name. -/
theorem distinct_outline {a : Annot} {o : AnnotOutline} (h : a.outline pool = .ok o) :
    ∀ b ∈ o.within, b.Distinct :=
  ElementValue.distinct_outline (v := .annot a) (bind_eq_ok_iff.mpr ⟨o, h, rfl⟩)

theorem distinct_outlineAll {as : List Annot} {os : List AnnotOutline}
    (h : outlineAll pool as = .ok os) : ∀ o ∈ os, ∀ b ∈ o.within, b.Distinct := by
  intro o ho
  obtain ⟨a, -, ha⟩ := exists_mem_of_forall₂ ((mapM_eq_ok_iff fun _ _ _ => Iff.rfl).mp h) ho
  exact distinct_outline ha

end Annot

end JvmOutline
