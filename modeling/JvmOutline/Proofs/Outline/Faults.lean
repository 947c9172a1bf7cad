import JvmOutline.Proofs.Outline.Parts
import JvmOutline.Proofs.Reading.FirstFault

/-!
# Faults — what can be wrong in a stream

`Rules` says what the elements of a stream can do wrong: one may be at fault by itself, or repeat a
part that occurs once.  Of an element that does both, its own fault is what counts
(`Rules.FaultAfter`), because it is outlined before it is put into its place.

**A stream fails with the first element that does something wrong** (`Rules.foldlM_eq_error_iff`),
if its elements are taken in one after the other and each fails as the rules say.  That element
stands behind elements that do nothing wrong (`Rules.firstFault_iff`), and there is none exactly if
no part is repeated and no element is at fault by itself (`Rules.forall_not_firstFault_iff`).
-/

namespace JvmOutline

variable {pool : Pool} {e : OutlineError}

/-! ### Annotations -/

/-- The error in which outlining an annotation ends. -/
def Annot.Fault (pool : Pool) (a : Annot) (e : OutlineError) : Prop := a.outline pool = .error e

/-- The errors of the first annotation that cannot be outlined. -/
def Annot.FirstFault (pool : Pool) (as : List Annot) : OutlineError → Prop :=
  FirstOf (as.map (Annot.Fault pool))

theorem Annot.outlineAll_eq_error_iff {as : List Annot} :
    outlineAll pool as = .error e ↔ Annot.FirstFault pool as e :=
  mapM_eq_error_iff

/-- The annotations of parameters are outlined position by position. -/
theorem ParameterAnnots.outline_eq_error_iff {map : Option ParameterAnnots} {position : Nat}
    {lists : List (List Annot)} :
    outline pool map position lists = .error e ↔ Annot.FirstFault pool lists.flatten e := by
  induction lists generalizing map position with
  | nil => exact ⟨nofun, nofun⟩
  | cons as lists ih =>
    rw [List.flatten_cons, Annot.FirstFault, List.map_append, firstOf_append]
    cases as with
    | nil =>
      rw [outline, ih]
      simp [FirstOf, Annot.FirstFault]
    | cons a as =>
      rw [outline]
      · exact bind_eq_error_iff (fun _ => Annot.outlineAll_eq_error_iff) fun _ _ =>
          ih.trans firstOf_singleton.symm
      · exact List.cons_ne_nil a as

/-! ### Places -/

/-- A place that was empty remains so if there is nothing for it. -/
theorem TakesOnce.eq_none_iff {α β : Type} {Found : α → β → Prop} {as : List α} {place : Option β}
    (h : TakesOnce Found none as place) : place = none ↔ as = [] := by
  cases as with
  | nil => exact ⟨fun _ => rfl, fun _ => h⟩
  | cons a as =>
    obtain ⟨-, -, b, -, rfl⟩ := h
    exact ⟨nofun, nofun⟩

theorem Part.once_eq_error_iff {α : Type} {part : Part} {scope : Scope} {place : Option α} {a : α} :
    part.once scope place a = .error e ↔ place ≠ none ∧ e = .repeated part scope := by
  cases place with
  | none => exact ⟨nofun, fun h => absurd rfl h.1⟩
  | some b => exact ⟨fun h => ⟨nofun, (Except.error.inj h).symm⟩, fun h => congrArg _ h.2.symm⟩

/-- The error of a stream that lacks a part. -/
def Part.Missing {α β : Type} (part : Part) (scope : Scope) (pick : α → Option β)
    (stream : List α) (e : OutlineError) : Prop :=
  stream.filterMap pick = [] ∧ e = .missing part scope

theorem Part.required_eq_error_iff {α β : Type} {part : Part} {scope : Scope} {pick : α → Option β}
    {stream : List α} {place : Option β} (h : TakesOnce Eq none (stream.filterMap pick) place) :
    part.required scope place = .error e ↔ part.Missing scope pick stream e := by
  rw [Missing, ← h.eq_none_iff]
  cases place with
  | none => exact ⟨fun h => ⟨rfl, (Except.error.inj h).symm⟩, fun h => congrArg _ h.2.symm⟩
  | some b => exact ⟨nofun, nofun⟩

/-! ### Streams -/

/-- What the elements of a stream may do wrong: a part that occurs once may be repeated, and an
element may be at fault by itself. -/
structure Rules (α : Type) where
  scope : Scope
  part? : α → Option Part
  Fault : α → OutlineError → Prop

namespace Rules

variable {α β γ P : Type} {r : Rules α} {front stream : List α} {a : α} {part : Part}

/-- The element repeats a part of the elements in front of it. -/
def Repeats (r : Rules α) (front : List α) (a : α) (e : OutlineError) : Prop :=
  ∃ part, r.part? a = some part ∧ part ∈ front.filterMap r.part? ∧ e = .repeated part r.scope

/-- What an element does wrong behind the elements in front of it.  Its own fault comes first. -/
def FaultAfter (r : Rules α) (front : List α) (a : α) : OutlineError → Prop :=
  FirstOf [r.Fault a, r.Repeats front a]

/-- What the elements of a stream do wrong, in order, behind those in front of it. -/
def faultsAfter (r : Rules α) (front : List α) : List α → List (OutlineError → Prop)
  | [] => []
  | a :: as => r.FaultAfter front a :: r.faultsAfter (front ++ [a]) as

/-- The error of the first element of a stream that does something wrong. -/
def FirstFault (r : Rules α) (stream : List α) : OutlineError → Prop :=
  FirstOf (r.faultsAfter [] stream)

/-- An element that is no part that occurs once. -/
theorem faultAfter_of_none (ha : r.part? a = none) : r.FaultAfter front a e ↔ r.Fault a e := by
  have hno : ¬ r.Repeats front a e := fun ⟨part, h, _⟩ => by rw [ha] at h; nomatch h
  rw [FaultAfter, FirstOf, firstOf_singleton]
  exact or_iff_left fun h => hno h.2

/-- An element that is not at fault by itself. -/
theorem faultAfter_of_forall_not (ha : ∀ e, ¬ r.Fault a e) :
    r.FaultAfter front a e ↔ r.Repeats front a e := by
  rw [FaultAfter, FirstOf, firstOf_singleton]
  exact (or_iff_right (ha e)).trans (and_iff_right ha)

/-- An element that goes into a place for a part that occurs once. -/
theorem once_eq_error_iff {x : Except OutlineError β} {f : β → Except OutlineError P}
    {place : Option β} {Found : γ → β → Prop} {pick : α → Option γ}
    (hx : ∀ e, x = .error e ↔ r.Fault a e)
    (hf : ∀ v, f v = .error e ↔ part.once r.scope place v = .error e)
    (hplace : TakesOnce Found none (front.filterMap pick) place) (ha : r.part? a = some part)
    (hpick : ∀ b, (pick b).isSome = true ↔ r.part? b = some part) :
    (x >>= f) = .error e ↔ r.FaultAfter front a e := by
  have hmem : place ≠ none ↔ part ∈ front.filterMap r.part? := by
    rw [Ne, hplace.eq_none_iff, List.filterMap_eq_nil_iff, List.mem_filterMap]
    simp only [not_forall, ← hpick, Option.isSome_iff_ne_none, ne_eq, exists_prop]
  refine bind_eq_error_iff hx fun v _ => ?_
  rw [hf, Part.once_eq_error_iff, hmem, firstOf_singleton]
  constructor
  · exact fun ⟨hm, he⟩ => ⟨part, ha, hm, he⟩
  · rintro ⟨part', ha', hm, he⟩
    obtain rfl : part = part' := Option.some.inj (ha.symm.trans ha')
    exact ⟨hm, he⟩

/-- An element that is not at fault by itself, and goes into such a place. -/
theorem put_eq_error_iff {y : Except OutlineError P} {v : β} {place : Option β}
    {Found : γ → β → Prop} {pick : α → Option γ} (ha : ∀ e, ¬ r.Fault a e)
    (hy : y = .error e ↔ part.once r.scope place v = .error e)
    (hplace : TakesOnce Found none (front.filterMap pick) place) (hpart : r.part? a = some part)
    (hpick : ∀ b, (pick b).isSome = true ↔ r.part? b = some part) :
    y = .error e ↔ r.FaultAfter front a e :=
  r.once_eq_error_iff (x := .ok v) (f := fun _ => y)
    (fun e => ⟨nofun, fun h => absurd h (ha e)⟩)
    (fun _ => hy.trans (Part.once_eq_error_iff.trans Part.once_eq_error_iff.symm))
    hplace hpart hpick

/-- **Streams.**  If each element fails as its faults say, the stream fails with the first one. -/
theorem foldlM_eq_error_iff {accept : P → α → Logged P} {start : P}
    (h : ∀ front p a e, (front.foldlM accept start).result = .ok p →
      ((accept p a).result = .error e ↔ r.FaultAfter front a e)) :
    (stream.foldlM accept start).result = .error e ↔ r.FirstFault stream e := by
  -- On what is left of the stream, behind elements that have been taken in.
  suffices hall : ∀ stream front p, (front.foldlM accept start).result = .ok p →
      ((stream.foldlM accept p).result = .error e ↔ FirstOf (r.faultsAfter front stream) e) from
    hall stream [] start rfl
  intro stream
  induction stream with
  | nil => exact fun _ _ _ => ⟨nofun, nofun⟩
  | cons a stream ih =>
    intro front p hp
    rw [List.foldlM_cons, Logged.result_bind]
    refine bind_eq_error_iff (h front p a · hp) fun next hnext => ih (front ++ [a]) next ?_
    rw [List.foldlM_append, Logged.result_bind_eq_ok_iff]
    exact ⟨p, hp, Logged.result_bind_eq_ok_iff.mpr ⟨next, hnext, rfl⟩⟩

/-- The first element that does something wrong stands behind elements that do nothing wrong. -/
theorem firstFault_iff : r.FirstFault stream e ↔ ∃ front a back, stream = front ++ a :: back ∧
    (∀ e', ¬ r.FirstFault front e') ∧ r.FaultAfter front a e := by
  suffices hall : ∀ stream before, FirstOf (r.faultsAfter before stream) e ↔
      ∃ front a back, stream = front ++ a :: back ∧
        (∀ e', ¬ FirstOf (r.faultsAfter before front) e') ∧ r.FaultAfter (before ++ front) a e from
    hall stream []
  intro stream
  induction stream with
  | nil => exact fun before => ⟨nofun, fun ⟨front, _, _, h, _⟩ => by cases front <;> nomatch h⟩
  | cons a stream ih =>
    intro before
    simp only [faultsAfter, FirstOf, ih]
    constructor
    · rintro (h | ⟨hnone, front, b, back, rfl, hfront, hb⟩)
      · exact ⟨[], a, stream, rfl, fun _ => id, by rwa [List.append_nil]⟩
      · refine ⟨a :: front, b, back, rfl, ?_, by rwa [List.append_cons]⟩
        rintro e' (h | ⟨-, h⟩)
        · exact hnone e' h
        · exact hfront e' h
    · rintro ⟨front, b, back, hsplit, hfront, hb⟩
      cases front with
      | nil =>
        cases hsplit
        exact .inl (by rwa [List.append_nil] at hb)
      | cons x front =>
        cases hsplit
        have hnone : ∀ e', ¬ r.FaultAfter before a e' := fun e' h => hfront e' (.inl h)
        refine .inr ⟨hnone, front, b, back, rfl, fun e' h => hfront e' (.inr ⟨hnone, h⟩), ?_⟩
        rwa [← List.append_cons]

/-- Behind others, an element does nothing wrong if it is not at fault by itself and is no part of
which there is one already. -/
theorem forall_not_faultAfter_iff : (∀ e, ¬ r.FaultAfter front a e) ↔
    (∀ e, ¬ r.Fault a e) ∧ ∀ part ∈ r.part? a, part ∉ front.filterMap r.part? := by
  rw [FaultAfter, forall_not_firstOf_iff, List.forall_mem_cons, List.forall_mem_singleton]
  refine and_congr_right fun _ => ?_
  constructor
  · exact fun h part ha hm => h _ ⟨part, ha, hm, rfl⟩
  · rintro h _ ⟨part, ha, hm, -⟩
    exact h part ha hm

/-- Nothing is wrong in a stream exactly if no part is repeated and no element is at fault by
itself. -/
theorem forall_not_firstFault_iff : (∀ e, ¬ r.FirstFault stream e) ↔
    (stream.filterMap r.part?).Nodup ∧ ∀ a ∈ stream, ∀ e, ¬ r.Fault a e := by
  -- On what is left of the stream; the parts in front of it are all different.
  suffices hall : ∀ stream front, (front.filterMap r.part?).Nodup →
      ((∀ e, ¬ FirstOf (r.faultsAfter front stream) e) ↔
        (front.filterMap r.part? ++ stream.filterMap r.part?).Nodup ∧
          ∀ a ∈ stream, ∀ e, ¬ r.Fault a e) from
    hall stream [] .nil
  intro stream
  induction stream with
  | nil =>
    intro front hfront
    exact ⟨fun _ => ⟨by rwa [List.filterMap_nil, List.append_nil], nofun⟩, fun _ _ => id⟩
  | cons a stream ih =>
    intro front hfront
    have hsplit : (∀ e, ¬ FirstOf (r.faultsAfter front (a :: stream)) e) ↔
        (∀ e, ¬ r.FaultAfter front a e) ∧
          ∀ e, ¬ FirstOf (r.faultsAfter (front ++ [a]) stream) e := by
      simp only [faultsAfter, forall_not_firstOf_iff, List.forall_mem_cons]
    rw [hsplit, forall_not_faultAfter_iff, List.forall_mem_cons]
    cases ha : r.part? a with
    | none =>
      have hfront' : (front ++ [a]).filterMap r.part? = front.filterMap r.part? := by
        rw [List.filterMap_append, List.filterMap_cons_none ha, List.filterMap_nil,
          List.append_nil]
      rw [ih (front ++ [a]) (hfront'.symm ▸ hfront), hfront', List.filterMap_cons_none ha]
      simp only [Option.mem_def, reduceCtorEq, false_implies, implies_true, and_true]
      exact and_left_comm
    | some part =>
      have hfront' : (front ++ [a]).filterMap r.part? = front.filterMap r.part? ++ [part] := by
        rw [List.filterMap_append, List.filterMap_cons_some ha, List.filterMap_nil]
      have hnodup : (front.filterMap r.part? ++ [part]).Nodup ↔ part ∉ front.filterMap r.part? :=
        List.perm_append_comm.nodup_iff.trans (List.nodup_cons.trans (and_iff_left hfront))
      rw [List.filterMap_cons_some ha,
        List.append_cons (front.filterMap r.part?) part (stream.filterMap r.part?)]
      by_cases hmem : part ∈ front.filterMap r.part?
      · refine iff_of_false (fun h => h.1.2 part rfl hmem) fun h => ?_
        exact hnodup.mp (List.nodup_append.mp h.1).1 hmem
      · rw [ih (front ++ [a]) (hfront'.symm ▸ hnodup.mpr hmem), hfront']
        constructor
        · exact fun ⟨⟨hself, _⟩, hrest, hall⟩ => ⟨hrest, hself, hall⟩
        · refine fun ⟨hrest, hself, hall⟩ => ⟨⟨hself, ?_⟩, hrest, hall⟩
          rintro _ ⟨⟩
          exact hmem

end Rules

end JvmOutline
