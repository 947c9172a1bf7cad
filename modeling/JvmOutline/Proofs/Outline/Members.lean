import Mathlib.Data.Finset.Card
import Mathlib.Data.Finset.Dedup
import JvmOutline.Proofs.Outline.Nested

/-!
# The members of an annotation as a map

Members are put into an annotation one after the other, and a name can come again.
`Members.merged` says what is left: one member for each name, at the place where the name comes
first and with the value that it has last.

**Members form an ordered map** (`Annot.members_outline`).  The outline of an annotation has the
members that are left of the stored ones, its look-ups give the last values, and putting its members
into an empty annotation gives the same annotation again.
-/

namespace JvmOutline

/-! ### Lists of members -/

/-- Two members have the same name and related values. -/
inductive Named {α β : Type} (R : α → β → Prop) : String × α → String × β → Prop where
  | intro {name : String} {a : α} {b : β} : R a b → Named R (name, a) (name, b)

namespace Members

variable {α β : Type} {ms : List (String × α)} {name : String} {value : α}

/-- The distinct names, each at the place where it comes first. -/
def names (ms : List (String × α)) : List String := (ms.map Prod.fst).eraseDups

/-- The value of the last member of a name. -/
def last? (ms : List (String × α)) (name : String) : Option α :=
  (ms.findRev? fun m => m.1 = name).map Prod.snd

/-- One member for each name, with its last value. -/
def merged (ms : List (String × α)) : List (String × α) :=
  (names ms).filterMap fun name => (last? ms name).map (name, ·)

theorem last?_cons (m : String × α) (ms : List (String × α)) (name : String) :
    last? (m :: ms) name = (last? ms name).or (if m.1 = name then some m.2 else none) := by
  unfold last?
  rw [List.findRev?]
  cases List.findRev? (fun m => decide (m.1 = name)) ms with
  | some found => rfl
  | none =>
    by_cases hm : m.1 = name
    · simp [hm]
    · simp [hm]

theorem last?_eq_some_iff : last? ms name = some value ↔
    ∃ front back, ms = front ++ (name, value) :: back ∧ name ∉ back.map Prod.fst := by
  rw [last?, List.findRev?_eq_find?_reverse, Option.map_eq_some_iff]
  constructor
  · rintro ⟨⟨n, v⟩, hfound, rfl⟩
    obtain ⟨hn, later, earlier, hsplit, hlater⟩ := List.find?_eq_some_iff_append.mp hfound
    obtain rfl := of_decide_eq_true hn
    refine ⟨earlier.reverse, later.reverse, ?_, fun hmem => ?_⟩
    · rw [← List.reverse_reverse ms, hsplit, List.reverse_append, List.reverse_cons,
        List.append_assoc, List.singleton_append]
    · obtain ⟨m, hm, hname⟩ := List.mem_map.mp hmem
      have hother := hlater m (List.mem_reverse.mp hm)
      simp [hname] at hother
  · rintro ⟨front, back, rfl, hback⟩
    refine ⟨(name, value), List.find?_eq_some_iff_append.mpr ⟨decide_eq_true rfl, back.reverse,
      front.reverse, ?_, fun m hm => ?_⟩, rfl⟩
    · rw [List.reverse_append, List.reverse_cons, List.append_assoc, List.singleton_append]
    · have hne : m.1 ≠ name := fun hname =>
        hback (List.mem_map.mpr ⟨m, List.mem_reverse.mp hm, hname⟩)
      simp [hne]

theorem last?_eq_none_iff : last? ms name = none ↔ name ∉ ms.map Prod.fst := by
  induction ms with
  | nil => exact ⟨fun _ => List.not_mem_nil, fun _ => rfl⟩
  | cons m ms ih =>
    rw [last?_cons, Option.or_eq_none_iff, ih, List.map_cons, List.mem_cons, not_or,
      and_comm, eq_comm (a := name)]
    refine and_congr_left fun _ => ?_
    by_cases hm : m.1 = name
    · simp [hm]
    · simp [hm]

/-- Each name has its last value. -/
theorem forall₂_merged (ms : List (String × α)) :
    List.Forall₂ (fun name m => m.1 = name ∧ last? ms name = some m.2) (names ms) (merged ms) := by
  have hnames : ∀ name ∈ names ms, name ∈ ms.map Prod.fst := fun _ => List.mem_eraseDups.mp
  unfold merged
  generalize names ms = ns at hnames ⊢
  induction ns with
  | nil => exact .nil
  | cons name ns ih =>
    rw [List.forall_mem_cons] at hnames
    cases hlast : last? ms name with
    | none => exact absurd hnames.1 (last?_eq_none_iff.mp hlast)
    | some value =>
      simp only [List.filterMap_cons, hlast, Option.map_some]
      exact .cons ⟨rfl, hlast⟩ (ih hnames.2)

/-- Members with the same names and related values have the same names, and related last values. -/
theorem map_fst_of_forall₂ {R : α → β → Prop} {ns : List (String × β)}
    (h : List.Forall₂ (Named R) ms ns) : ms.map Prod.fst = ns.map Prod.fst := by
  induction h with
  | nil => rfl
  | cons hmn _ ih =>
    cases hmn
    rw [List.map_cons, List.map_cons, ih]

theorem last?_of_forall₂ {R : α → β → Prop} {ns : List (String × β)}
    (h : List.Forall₂ (Named R) ms ns) (name : String) :
    Option.Rel R (last? ms name) (last? ns name) := by
  induction h with
  | nil => exact .none
  | @cons m n ms ns hmn _ ih =>
    rw [last?_cons, last?_cons]
    cases hmn with
    | @intro n a b hab =>
      revert ih
      generalize last? ms name = x, last? ns name = y
      intro ih
      cases ih with
      | some hlast => exact .some hlast
      | none =>
        by_cases hn : n = name
        · simpa [hn] using Option.Rel.some hab
        · simp [hn]

end Members

open Members (names last? merged)

/-! ### Putting members in -/

namespace AnnotOutline

variable {a : AnnotOutline} {ms : List (String × AnnotValue)}

/-- A look-up finds the value that was put in last, or else the one that was there before. -/
theorem get?_insertAll (a : AnnotOutline) (ms : List (String × AnnotValue)) (name : String) :
    (a.insertAll ms).get? name = (last? ms name).or (a.get? name) := by
  induction ms generalizing a with
  | nil => rfl
  | cons m ms ih =>
    show ((a.insert m.1 m.2).insertAll ms).get? name = _
    rw [ih, get?_insert, Members.last?_cons, Option.or_assoc]
    split <;> rfl

/-- The names are those that were there before, and behind them each new one where it comes
first. -/
theorem map_fst_insertAll (a : AnnotOutline) (ms : List (String × AnnotValue)) :
    (a.insertAll ms).members.map Prod.fst = a.members.map Prod.fst ++
      ((ms.map Prod.fst).removeAll (a.members.map Prod.fst)).eraseDups := by
  induction ms generalizing a with
  | nil => exact (List.append_nil _).symm
  | cons m ms ih =>
    refine (ih (a.insert m.1 m.2)).trans ?_
    have hnames : (a.insert m.1 m.2).members.map Prod.fst = if m.1 ∈ a.members.map Prod.fst then
        a.members.map Prod.fst else a.members.map Prod.fst ++ [m.1] := map_fst_insertMember
    rw [hnames, List.map_cons]
    by_cases hm : m.1 ∈ a.members.map Prod.fst
    · rw [if_pos hm, List.removeAll, List.removeAll, List.filter_cons_of_neg (by simpa using hm)]
    · rw [if_neg hm, List.append_assoc, List.removeAll, List.removeAll,
        List.filter_cons_of_pos (by simpa using hm), List.eraseDups_cons, List.filter_filter,
        List.singleton_append]
      have hnew (n : String) : (!(a.members.map Prod.fst ++ [m.1]).elem n) =
          (!n == m.1 && !(a.members.map Prod.fst).elem n) := by
        rw [List.elem_eq_contains, List.contains_append, List.elem_eq_contains, Bool.not_or,
          Bool.and_comm, List.contains_cons, List.contains_nil, Bool.or_false]
      simp only [hnew]

theorem Distinct.get?_of_mem (h : a.Distinct) {m : String × AnnotValue} (hm : m ∈ a.members) :
    a.get? m.1 = some m.2 := by
  obtain ⟨front, back, hsplit⟩ := List.append_of_mem hm
  unfold Distinct at h
  rw [hsplit, List.map_append, List.map_cons, List.nodup_append] at h
  refine Option.map_eq_some_iff.mpr ⟨m, List.find?_eq_some_iff_append.mpr
    ⟨decide_eq_true rfl, front, back, hsplit, fun n hn => ?_⟩, rfl⟩
  have hne : n.1 ≠ m.1 := h.2.2 n.1 (List.mem_map_of_mem hn) m.1 List.mem_cons_self
  simp [hne]

/-- Distinct members are determined by their names and the look-ups. -/
theorem Distinct.members_eq (h : a.Distinct) : a.members =
    (a.members.map Prod.fst).filterMap fun name => (a.get? name).map (name, ·) := by
  rw [List.filterMap_map]
  refine (List.filterMap_some.symm.trans ?_)
  refine List.filterMap_congr fun m hm => ?_
  rw [Function.comp_apply, h.get?_of_mem hm]
  rfl

theorem eq_of_members {a b : AnnotOutline} (hdescriptor : a.descriptor = b.descriptor)
    (hmembers : a.members = b.members) : a = b := by
  obtain ⟨descriptor, ms⟩ := a
  obtain ⟨descriptor', ns⟩ := b
  cases hdescriptor
  cases hmembers
  rfl

theorem descriptor_insertAll (a : AnnotOutline) (ms : List (String × AnnotValue)) :
    (a.insertAll ms).descriptor = a.descriptor := by
  induction ms generalizing a with
  | nil => rfl
  | cons m ms ih => exact ih (a.insert m.1 m.2)

/-- The names of members that are put into an empty annotation. -/
theorem map_fst_insertAll_empty (descriptor : String) (ms : List (String × AnnotValue)) :
    ((ofDescriptor descriptor).insertAll ms).members.map Prod.fst = names ms :=
  (map_fst_insertAll (ofDescriptor descriptor) ms).trans
    (congrArg List.eraseDups List.removeAll_nil)

theorem get?_insertAll_empty (descriptor : String) (ms : List (String × AnnotValue))
    (name : String) : ((ofDescriptor descriptor).insertAll ms).get? name = last? ms name :=
  (get?_insertAll _ ms name).trans Option.or_none

theorem distinct_insertAll_empty (descriptor : String) (ms : List (String × AnnotValue)) :
    ((ofDescriptor descriptor).insertAll ms).Distinct :=
  Distinct.insertAll List.nodup_nil

/-- **What is left.**  Members that are put into an empty annotation are merged. -/
theorem insertAll_ofDescriptor (descriptor : String) (ms : List (String × AnnotValue)) :
    (ofDescriptor descriptor).insertAll ms = ⟨descriptor, merged ms⟩ := by
  refine eq_of_members (descriptor_insertAll _ ms) ?_
  refine (distinct_insertAll_empty descriptor ms).members_eq.trans ?_
  simp only [map_fst_insertAll_empty, get?_insertAll_empty]
  rfl

/-- Distinct members that are put in behind other ones stay as they are. -/
theorem members_insertAll_of_nodup (h : ((a.members ++ ms).map Prod.fst).Nodup) :
    (a.insertAll ms).members = a.members ++ ms := by
  induction ms generalizing a with
  | nil => exact (List.append_nil _).symm
  | cons m ms ih =>
    rw [List.append_cons] at h ⊢
    have hm : m.1 ∉ a.members.map Prod.fst := by
      rw [List.map_append, List.map_append, List.nodup_append, List.nodup_append] at h
      exact fun hmem => h.1.2.2 _ hmem _ List.mem_cons_self rfl
    have hinsert : (a.insert m.1 m.2).members = a.members ++ [m] := insertMember_of_not_mem hm
    rw [← hinsert] at h ⊢
    exact ih h

/-- An annotation with distinct members is what becomes of an empty one when they are put in. -/
theorem Distinct.insertAll_members (h : a.Distinct) :
    (ofDescriptor a.descriptor).insertAll a.members = a :=
  eq_of_members (descriptor_insertAll _ _) (members_insertAll_of_nodup h)

end AnnotOutline

/-! ### The outline of an annotation -/

variable {pool : Pool}

/-- Each member is outlined, and the results are merged; `R` may say in other words what the outline
of a value is. -/
theorem Annot.outline_eq_ok_iff_of {R : ElementValue → AnnotValue → Prop} {a : Annot}
    {o : AnnotOutline} (h : ∀ m ∈ a.members, ∀ w, m.2.outline pool = .ok w ↔ R m.2 w) :
    a.outline pool = .ok o ↔
      ∃ ms, List.Forall₂ (Named R) a.members ms ∧ o = ⟨a.descriptor, merged ms⟩ := by
  have hmembers {ms : List (String × AnnotValue)} :
      a.members.mapM (ElementValue.outlineMember pool) = .ok ms ↔
        List.Forall₂ (Named R) a.members ms := by
    refine mapM_eq_ok_iff fun m hm n => ?_
    rw [ElementValue.outlineMember, bind_eq_ok_iff]
    constructor
    · rintro ⟨w, hw, ⟨⟩⟩
      exact .intro ((h m hm w).mp hw)
    · intro hn
      cases hn with
      | intro hw => exact ⟨_, (h _ hm _).mpr hw, rfl⟩
  rw [outline_eq, bind_eq_ok_iff]
  refine exists_congr fun ms => and_congr hmembers ?_
  rw [← AnnotOutline.insertAll_ofDescriptor]
  exact ⟨fun h => (Except.ok.inj h).symm, fun h => congrArg _ h.symm⟩

namespace Annot

theorem outline_eq_ok_iff {a : Annot} {o : AnnotOutline} : a.outline pool = .ok o ↔
    ∃ ms, List.Forall₂ (Named fun v w => v.outline pool = .ok w) a.members ms ∧
      o = ⟨a.descriptor, merged ms⟩ :=
  outline_eq_ok_iff_of fun _ _ _ => Iff.rfl

/-- The value is the outline of the last stored member of the name. -/
def LastValue (pool : Pool) (a : Annot) (name : String) (w : AnnotValue) : Prop :=
  ∃ front v back, a.members = front ++ (name, v) :: back ∧ name ∉ back.map Prod.fst ∧
    v.outline pool = .ok w

theorem lastValue_iff {a : Annot} {name : String} {w : AnnotValue} :
    a.LastValue pool name w ↔ ∃ v, last? a.members name = some v ∧ v.outline pool = .ok w := by
  simp only [LastValue, Members.last?_eq_some_iff]
  constructor
  · rintro ⟨front, v, back, hsplit, hback, hw⟩
    exact ⟨v, ⟨front, back, hsplit, hback⟩, hw⟩
  · rintro ⟨v, ⟨front, back, hsplit, hback⟩, hw⟩
    exact ⟨front, v, back, hsplit, hback, hw⟩

theorem last?_eq_some_iff_lastValue {a : Annot} {ms : List (String × AnnotValue)}
    (h : List.Forall₂ (Named fun v w => v.outline pool = .ok w) a.members ms) {name : String}
    {w : AnnotValue} : last? ms name = some w ↔ a.LastValue pool name w := by
  rw [lastValue_iff]
  generalize hx : last? a.members name = x
  generalize hy : last? ms name = y
  have hxy := Members.last?_of_forall₂ h name
  rw [hx, hy] at hxy
  cases hxy with
  | none => exact ⟨nofun, nofun⟩
  | @some v w' hw =>
    constructor
    · rintro ⟨⟩
      exact ⟨v, rfl, hw⟩
    · rintro ⟨_, ⟨⟩, hw'⟩
      exact congrArg _ (Except.ok.inj (hw.symm.trans hw'))

/-- **An ordered map.**  The outline has one member for each name, at the place where the name
comes first and with the value that it has last.  This is what the look-ups find, and its members
make it once more. -/
theorem members_outline {a : Annot} {o : AnnotOutline} (h : a.outline pool = .ok o) :
    List.Forall₂ (fun name m => m.1 = name ∧ a.LastValue pool name m.2)
      (a.members.map Prod.fst).eraseDups o.members ∧
    (∀ name w, o.get? name = some w ↔ a.LastValue pool name w) ∧
    (∀ name, o.get? name = none ↔ ∀ v, (name, v) ∉ a.members) ∧
    o.size = (a.members.map Prod.fst).toFinset.card ∧
    (AnnotOutline.ofDescriptor a.descriptor).insertAll o.members = o := by
  obtain ⟨ms, hms, rfl⟩ := outline_eq_ok_iff.mp h
  have hnames : a.members.map Prod.fst = ms.map Prod.fst := Members.map_fst_of_forall₂ hms
  have hget (name : String) :
      (AnnotOutline.mk a.descriptor (merged ms)).get? name = last? ms name := by
    rw [← AnnotOutline.insertAll_ofDescriptor, AnnotOutline.get?_insertAll_empty]
  have hdistinct : (AnnotOutline.mk a.descriptor (merged ms)).Distinct := by
    rw [← AnnotOutline.insertAll_ofDescriptor]
    exact AnnotOutline.distinct_insertAll_empty _ ms
  have hmerged := Members.forall₂_merged ms
  refine ⟨?_, fun name w => ?_, fun name => ?_, ?_, hdistinct.insertAll_members⟩
  · rw [hnames]
    exact hmerged.imp fun name m hm => ⟨hm.1, (last?_eq_some_iff_lastValue hms).mp hm.2⟩
  · rw [hget, last?_eq_some_iff_lastValue hms]
  · rw [hget, Members.last?_eq_none_iff, ← hnames, List.mem_map]
    exact ⟨fun hno v hv => hno ⟨_, hv, rfl⟩, fun hno ⟨⟨_, v⟩, hv, hname⟩ => hno v (hname ▸ hv)⟩
  · have hnodup : (names ms).Nodup := by
      rw [← AnnotOutline.map_fst_insertAll_empty a.descriptor]
      exact AnnotOutline.distinct_insertAll_empty _ ms
    have hset : (names ms).toFinset = (ms.map Prod.fst).toFinset := by
      ext name
      rw [List.mem_toFinset, List.mem_toFinset, names, List.mem_eraseDups]
    rw [hnames, ← hset, List.toFinset_card_of_nodup hnodup]
    exact hmerged.length_eq.symm

/-- A name that comes three times, around another one. -/
def repeating : Annot := ⟨"Lp/Mark;", [("n", .classLit "A"), ("m", .classLit "B"),
  ("n", .classLit "C"), ("n", .enumConst "E" "D")]⟩

theorem members_outline_repeating :
    repeating.outline .empty = .ok ⟨"Lp/Mark;", [("n", .enum "E" "D"), ("m", .type "B")]⟩ ∧
    List.Forall₂ (fun name m => m.1 = name ∧ repeating.LastValue .empty name m.2)
      (repeating.members.map Prod.fst).eraseDups [("n", .enum "E" "D"), ("m", .type "B")] ∧
    (∀ name w, (AnnotOutline.mk "Lp/Mark;" [("n", .enum "E" "D"), ("m", .type "B")]).get? name =
      some w ↔ repeating.LastValue .empty name w) ∧
    2 = (repeating.members.map Prod.fst).toFinset.card := by
  have h : repeating.outline .empty =
      .ok ⟨"Lp/Mark;", [("n", .enum "E" "D"), ("m", .type "B")]⟩ := rfl
  obtain ⟨hmembers, hget, -, hsize, -⟩ := members_outline h
  exact ⟨h, hmembers, hget, hsize⟩

end Annot

end JvmOutline
