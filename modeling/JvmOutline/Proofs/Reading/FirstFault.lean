import JvmOutline.Proofs.Reading.Outcome

/-!
# The first fault decides the error

A step has faults, each of which says in which errors it ends.  Steps that follow one another fail
with the error of the first fault that occurs (`FirstOf`): those of two steps in a row
(**`bind_eq_error_iff`**), and those of a step for each item of a list (`mapM_eq_error_iff`).
-/

namespace JvmOutline

variable {ε α β : Type}

/-- The error is one of a fault in the list, and no fault in front of that one occurs. -/
def FirstOf : List (ε → Prop) → ε → Prop
  | [], _ => False
  | fault :: rest, e => fault e ∨ (∀ e', ¬ fault e') ∧ FirstOf rest e

variable {fault : ε → Prop} {faults rest : List (ε → Prop)} {e : ε}

theorem firstOf_singleton : FirstOf [fault] e ↔ fault e := by
  rw [FirstOf]
  exact or_iff_left fun h => h.2

/-- There is no first fault if there is none. -/
theorem forall_not_firstOf_iff : (∀ e, ¬ FirstOf faults e) ↔ ∀ fault ∈ faults, ∀ e, ¬ fault e := by
  induction faults with
  | nil => exact ⟨fun _ => nofun, fun _ _ h => h⟩
  | cons fault rest ih =>
    rw [List.forall_mem_cons, ← ih]
    constructor
    · intro h
      have hfault : ∀ e, ¬ fault e := fun e he => h e (.inl he)
      exact ⟨hfault, fun e he => h e (.inr ⟨hfault, he⟩)⟩
    · rintro ⟨hfault, hrest⟩ e (he | ⟨-, he⟩)
      · exact hfault e he
      · exact hrest e he

/-- The faults of a part of a list come before those of what follows it. -/
theorem firstOf_append : FirstOf (faults ++ rest) e ↔ FirstOf [FirstOf faults, FirstOf rest] e := by
  induction faults with
  | nil => simp [FirstOf]
  | cons fault faults ih =>
    simp only [List.cons_append, FirstOf, ih]
    by_cases hfault : ∃ e', fault e'
    · obtain ⟨e', he'⟩ := hfault
      have hsome : ¬ ∀ e', ¬ fault e' := fun h => h e' he'
      simp only [hsome, false_and, or_false]
    · simp only [not_exists] at hfault
      simp only [hfault, not_false_eq_true, implies_true, true_and, false_or]

/-- Items can be put together from what each of some other items stands for, if the fault of such an
item is the first one of what it stands for. -/
theorem firstOf_flatMap {list : α → List β} {fault : α → ε → Prop} {inner : β → ε → Prop}
    (h : ∀ a e, FirstOf ((list a).map inner) e ↔ fault a e) {as : List α} {e : ε} :
    FirstOf ((as.flatMap list).map inner) e ↔ FirstOf (as.map fault) e := by
  induction as generalizing e with
  | nil => exact Iff.rfl
  | cons a as ih =>
    rw [List.flatMap_cons, List.map_append, firstOf_append, List.map_cons]
    simp only [FirstOf, h, ih, and_false, or_false]

/-- A failure is not one of the kind of value that is missing. -/
theorem error_eq_iff {e' : ε} :
    (.error e' : Except ε α) = .error e ↔ (.error e' : Except ε β) = .error e :=
  ⟨fun h => congrArg _ (Except.error.inj h), fun h => congrArg _ (Except.error.inj h)⟩

/-- **Two steps.**  If the first one succeeds, the faults of the second one decide. -/
theorem bind_eq_error_iff {x : Except ε α} {f : α → Except ε β} (hx : ∀ e, x = .error e ↔ fault e)
    (hf : ∀ a, x = .ok a → (f a = .error e ↔ FirstOf rest e)) :
    (x >>= f) = .error e ↔ FirstOf (fault :: rest) e := by
  simp only [FirstOf, ← hx]
  cases x with
  | error e' => exact error_eq_iff.trans (or_iff_left fun h => h.1 e' rfl).symm
  | ok a =>
    refine (hf a rfl).trans ?_
    simp only [reduceCtorEq, not_false_eq_true, implies_true, true_and, false_or]

theorem bind_pure_eq_error_iff {x : Except ε α} {f : α → β} :
    (x >>= fun a => pure (f a)) = .error e ↔ x = .error e := by
  cases x with
  | error e' => exact error_eq_iff
  | ok a => exact ⟨nofun, nofun⟩

/-- A check for each item fails with the first item that does not pass. -/
theorem forM_eq_error_iff {f : α → Except ε Unit} {as : List α} :
    forM as f = .error e ↔ ∃ front a back, as = front ++ a :: back ∧
      (∀ b ∈ front, f b = .ok ()) ∧ f a = .error e := by
  induction as with
  | nil => exact ⟨nofun, fun ⟨front, _, _, h, _⟩ => by cases front <;> nomatch h⟩
  | cons a as ih =>
    rw [List.forM_cons]
    cases ha : f a with
    | error e' =>
      constructor
      · intro h
        exact ⟨[], a, as, rfl, nofun, ha.trans h⟩
      · rintro ⟨front, b, back, hsplit, hfront, hb⟩
        cases front with
        | nil =>
          cases hsplit
          exact ha.symm.trans hb
        | cons c front =>
          cases hsplit
          nomatch ha.symm.trans (hfront _ List.mem_cons_self)
    | ok u =>
      refine Iff.trans ih ⟨?_, ?_⟩
      · rintro ⟨front, b, back, rfl, hfront, hb⟩
        exact ⟨a :: front, b, back, rfl, List.forall_mem_cons.mpr ⟨ha, hfront⟩, hb⟩
      · rintro ⟨front, b, back, hsplit, hfront, hb⟩
        cases front with
        | nil =>
          cases hsplit
          nomatch ha.symm.trans hb
        | cons c front =>
          cases hsplit
          exact ⟨front, b, back, rfl, (List.forall_mem_cons.mp hfront).2, hb⟩

/-- **A step for each item.** -/
theorem mapM_eq_error_iff {f : α → Except ε β} {as : List α} :
    as.mapM f = .error e ↔ FirstOf (as.map fun a e => f a = .error e) e := by
  induction as with
  | nil => exact ⟨nofun, nofun⟩
  | cons a as ih =>
    rw [List.mapM_cons]
    exact bind_eq_error_iff (fun _ => Iff.rfl) fun _ _ => bind_pure_eq_error_iff.trans ih

end JvmOutline
